import TxGraph.Document.Basic
import TxGraph.Json.Printer

/-!
# Documents as text

Reading looks at the version last, so a text that is no document of any version is malformed.
-/

namespace TxGraph

/-- A number of any spelling as a float. -/
def Json.float? : Json → Option Binary64
  | int n => some (.ofInt n)
  | float x => some x
  | _ => none

namespace Viewport

def toJson (v : Viewport) : Json :=
  .obj [("x", .float v.x), ("y", .float v.y), ("zoom", .float v.zoom)]

def keys : List String := ["x", "y", "zoom"]

def ofJson? (j : Json) : Option Viewport := do
  let [x, y, zoom] ← j.fields? keys | none
  return {
    x := ← Json.required Json.float? x
    y := ← Json.required Json.float? y
    zoom := ← Json.required Json.float? zoom }

def shape : Json.Shape :=
  .record (keys.map fun key => (key, .whole))

end Viewport

namespace Document

def toJson (d : Document) : Json :=
  .obj ([("version", .nat d.version.toNat), ("chain", .str d.chain)] ++
    Json.optional "sender" .str d.sender ++
    [("graph", d.graph.toJson)] ++
    Json.optional "view" Viewport.toJson d.view ++
    Json.optional "signatures" SignatureSnapshot.toJson d.signatures ++
    Json.optional "objects" ObjectSnapshot.toJson d.objects)

def shape : Json.Shape :=
  .record [("version", .whole), ("chain", .whole), ("sender", .whole), ("graph", Graph.shape),
    ("view", Viewport.shape), ("signatures", SignatureSnapshot.shape), ("objects", .whole)]

def ofJson? (j : Json) : Option Document := do
  let [version, chain, sender, graph, view, signatures, objects] ←
    j.fields? ["version", "chain", "sender", "graph", "view", "signatures", "objects"] | none
  return {
    version := UInt32.ofNat (← Json.required Json.word32? version)
    chain := ← Json.required Json.string? chain
    sender := ← Json.nullable Json.string? sender
    graph := ← Json.required Graph.ofJson? graph
    view := ← Json.nullable Viewport.ofJson? view
    signatures := ← Json.nullable SignatureSnapshot.ofJson? signatures
    objects := ← Json.nullable ObjectSnapshot.ofJson? objects }

def toText (d : Document) : String :=
  d.toJson.pretty

def ofText (s : String) : Except DocumentError Document :=
  match (Json.parseAs? shape s).bind ofJson? with
  | none => .error .malformed
  | some d =>
    if currentVersion < d.version then .error (.unsupportedVersion d.version) else .ok d

/-! ## Files -/

variable {m : Type → Type} [Monad m]

def load (store : FileStore m) (path : String) : m (Except DocumentError Document) := do
  match ← store.readText path with
  | .error cause => return .error (.file path cause)
  | .ok s => return ofText s

def save (store : FileStore m) (path : String) (d : Document) :
    m (Except DocumentError Unit) := do
  return (← store.writeText path d.toText).mapError (.file path)

end Document

end TxGraph
