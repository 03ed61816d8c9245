import TxGraph.DataType.Json

/-!
# Ports

A node's points of connection. Flow ports order execution; io ports carry values of a type. Ports
are derived from their node and never stored.
-/

namespace TxGraph

inductive Direction
  | input
  | output
  deriving DecidableEq, Repr

inductive Role
  | flow
  | io
  deriving DecidableEq, Repr

structure Port where
  id : String
  direction : Direction
  role : Role
  type : Option DataType
  label : Option String
  deriving DecidableEq, Repr

def Direction.name : Direction → String
  | input => "in"
  | output => "out"

def Direction.ofName? : String → Option Direction
  | "in" => some input
  | "out" => some output
  | _ => none

def Role.name : Role → String
  | flow => "flow"
  | io => "io"

def Role.ofName? : String → Option Role
  | "flow" => some flow
  | "io" => some io
  | _ => none

namespace Port

/-- The id of the flow port before a node. -/
def before : String := "prev"

/-- The id of the flow port after a node. -/
def after : String := "next"

/-- The id of a variable's only port. -/
def variableOut : String := "out"

def flowIn : Port := ⟨before, .input, .flow, none, none⟩

def flowOut : Port := ⟨after, .output, .flow, none, none⟩

def ioIn (id : String) (type : DataType) : Port :=
  ⟨id, .input, .io, some type, none⟩

def ioOut (id : String) (type : DataType) : Port :=
  ⟨id, .output, .io, some type, none⟩

def isIoIn (p : Port) : Bool :=
  p.role = .io && p.direction = .input

def isIoOut (p : Port) : Bool :=
  p.role = .io && p.direction = .output

/-- The type of the port; one without a declared type takes anything. -/
def typeOrUnknown (p : Port) : DataType :=
  p.type.getD .unknown

/-! ## JSON -/

def toJson (p : Port) : Json :=
  .obj ([("id", .str p.id), ("direction", .str p.direction.name), ("role", .str p.role.name)] ++
    Json.optional "dataType" DataType.toJson p.type ++ Json.optional "label" .str p.label)

def keys : List String :=
  ["id", "direction", "role", "dataType", "label"]

/-- A port that is written as a list has all its fields. -/
def isComplete : Json → Bool
  | .arr items => items.length == keys.length
  | _ => true

def ofJson? (j : Json) : Option Port := do
  let [id, direction, role, type, label] ← j.fields? keys | none
  if !isComplete j then none
  else
    return {
      id := ← Json.required Json.string? id
      direction := ← Json.required (fun d => (d.word? false).bind Direction.ofName?) direction
      role := ← Json.required (fun r => (r.word? false).bind Role.ofName?) role
      type := ← Json.nullable (DataType.ofJson? false) type
      label := ← Json.nullable Json.string? label }

end Port

end TxGraph
