import TxGraph.Command.Json
import TxGraph.Graph.Basic

/-!
# Graphs in JSON

A graph is a record of its nodes and its edges, which are records tagged with their kind.
-/

namespace TxGraph

namespace Node

def toJson : Node → Json
  | start id => .obj [("type", .str "start"), ("id", .str id)]
  | finish id => .obj [("type", .str "end"), ("id", .str id)]
  | var v =>
    .obj ([("type", .str "variable"), ("id", .str v.id), ("name", .str v.name),
      ("varType", v.type.toJson)] ++ Json.optional "value" (fun j => j) v.value)
  | command id c => .obj [("type", .str "command"), ("id", .str id), ("command", c.toJson)]

def kinds : List String :=
  ["start", "end", "variable", "command"]

/-- The value of a variable is free-form data. -/
def valueOf? (j : Json) : Option Json :=
  some j.canonical

def ofRecord? (kind : String) (record : Json) : Option Node := do
  match kind with
  | "start" =>
    let [id] ← record.fields? ["id"] | none
    return start (← Json.required Json.string? id)
  | "end" =>
    let [id] ← record.fields? ["id"] | none
    return finish (← Json.required Json.string? id)
  | "variable" =>
    let [id, name, type, value] ← record.fields? ["id", "name", "varType", "value"] | none
    return var {
      id := ← Json.required Json.string? id
      name := ← Json.required Json.string? name
      type := ← Json.required (DataType.ofJson? true) type
      value := ← Json.nullable valueOf? value }
  | _ =>
    let [id, c] ← record.fields? ["id", "command"] | none
    return command (← Json.required Json.string? id) (← Json.required (Command.ofJson? true) c)

def ofJson? (j : Json) : Option Node := do
  let (kind, record) ← j.variant? false "type" kinds
  ofRecord? kind record

end Node

namespace Edge

def castToJson (width : Width) : Json :=
  .obj [("to", width.toJson)]

def castOfJson? (j : Json) : Option Width := do
  let [width] ← j.fields? ["to"] | none
  Json.required (Width.ofJson? true) width

/-- The fields of an edge without its kind. -/
def fieldsToJson (e : Edge) : List (String × Json) :=
  [("id", .str e.id), ("source", .str e.source), ("sourceHandle", .str e.sourceHandle),
   ("target", .str e.target), ("targetHandle", .str e.targetHandle)] ++
    Json.optional "cast" castToJson e.cast?

def toJson (e : Edge) : Json :=
  .obj (("kind", .str (if e.isFlow then "flow" else "io")) :: e.fieldsToJson)

def keys : List String :=
  ["id", "source", "sourceHandle", "target", "targetHandle"]

def ofRecord? (kind : String) (record : Json) : Option Edge := do
  match kind with
  | "flow" =>
    let [id, source, sourceHandle, target, targetHandle] ← record.fields? keys | none
    return {
      kind := .flow
      id := ← Json.required Json.string? id
      source := ← Json.required Json.string? source
      sourceHandle := ← Json.required Json.string? sourceHandle
      target := ← Json.required Json.string? target
      targetHandle := ← Json.required Json.string? targetHandle }
  | _ =>
    let [id, source, sourceHandle, target, targetHandle, cast] ←
      record.fields? (keys ++ ["cast"]) | none
    return {
      kind := .io (← Json.nullable castOfJson? cast)
      id := ← Json.required Json.string? id
      source := ← Json.required Json.string? source
      sourceHandle := ← Json.required Json.string? sourceHandle
      target := ← Json.required Json.string? target
      targetHandle := ← Json.required Json.string? targetHandle }

def ofJson? (j : Json) : Option Edge := do
  let (kind, record) ← j.variant? false "kind" ["flow", "io"]
  ofRecord? kind record

end Edge

namespace Graph

def toJson (g : Graph) : Json :=
  .obj [("nodes", .arr (g.nodes.map Node.toJson)), ("edges", .arr (g.edges.map Edge.toJson))]

def ofJson? (j : Json) : Option Graph := do
  let [nodes, edges] ← j.fields? ["nodes", "edges"] | none
  return {
    nodes := ← Json.required (Json.list? Node.ofJson?) nodes
    edges := ← Json.required (Json.list? Edge.ofJson?) edges }

def shape : Json.Shape :=
  .record [("nodes", .whole), ("edges", .whole)]

end Graph

end TxGraph
