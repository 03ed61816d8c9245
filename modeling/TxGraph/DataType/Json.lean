import TxGraph.DataType.Basic
import TxGraph.Json.Record

/-!
# Data types in JSON

A type is a record tagged with its kind.
-/

namespace TxGraph

def Width.toJson (w : Width) : Json :=
  .str w.name

def Width.ofJson? (inner : Bool) (j : Json) : Option Width :=
  (j.word? inner).bind Width.ofName?

def Scalar.ofJson? (inner : Bool) (j : Json) : Option Scalar :=
  (j.word? inner).bind Scalar.ofName?

namespace DataType

def toJson : DataType → Json
  | scalar kind => .obj [("kind", .str "scalar"), ("scalar", .str kind.name)]
  | integer width => .obj [("kind", .str "moveNumeric"), ("width", width.toJson)]
  | object tag => .obj (("kind", .str "object") :: Json.optional "typeTag" .str tag)
  | vector elem => .obj [("kind", .str "vector"), ("elem", elem.toJson)]
  | tuple elems => .obj [("kind", .str "tuple"), ("elems", .arr (allToJson elems))]
  | typeParam name => .obj [("kind", .str "typeParam"), ("name", .str name)]
  | unknown => .obj [("kind", .str "unknown")]
where
  allToJson : List DataType → List Json
    | [] => []
    | elem :: rest => elem.toJson :: allToJson rest

def kinds : List String :=
  ["scalar", "moveNumeric", "object", "vector", "tuple", "typeParam", "unknown"]

/-- Reads a type; each level of nesting uses one unit of fuel. -/
def readJson : (fuel : Nat) → (inner : Bool) → Json → Option DataType
  | 0, _, _ => none
  | fuel + 1, inner, j => do
    let (kind, record) ← j.variant? inner "kind" kinds
    match kind with
    | "scalar" =>
      let [kind] ← record.fields? ["scalar"] | none
      return scalar (← Json.required (Scalar.ofJson? true) kind)
    | "moveNumeric" =>
      let [width] ← record.fields? ["width"] | none
      return integer (← Json.required (Width.ofJson? true) width)
    | "object" =>
      let [tag] ← record.fields? ["typeTag"] | none
      return object (← Json.nullable Json.string? tag)
    | "vector" =>
      let [elem] ← record.fields? ["elem"] | none
      return vector (← Json.required (readJson fuel true) elem)
    | "tuple" =>
      let [elems] ← record.fields? ["elems"] | none
      return tuple (← Json.required (Json.list? (readJson fuel true)) elems)
    | "typeParam" =>
      let [name] ← record.fields? ["name"] | none
      return typeParam (← Json.required Json.string? name)
    | _ => if record.isEmptyRecord then some unknown else none

/-- The type that a JSON value describes. `inner` says whether it stands inside a tagged record. -/
def ofJson? (inner : Bool) (j : Json) : Option DataType :=
  readJson (j.depth + 1) inner j

end DataType

end TxGraph
