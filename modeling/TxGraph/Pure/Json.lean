import TxGraph.Bytes.Hex
import TxGraph.DataType.Json
import TxGraph.Pure.Kind
import TxGraph.Pure.Literal

/-!
# Kinds and literals in JSON

A kind is a word, or an object whose one member names what the kind is made of. A literal is the
word `sender` or an object with one member.
-/

namespace TxGraph

namespace ParamKind

def toJson : ParamKind → Json
  | address => .str "Address"
  | bool => .str "Bool"
  | id => .str "Id"
  | string => .str "String"
  | integer width => .obj [("Numeric", width.toJson)]
  | vector elem => .obj [("Vector", elem.toJson)]
  | handle => .str "TxArg"
  | other => .str "Other"

def ofWord? : String → Option ParamKind
  | "Address" => some address
  | "Bool" => some bool
  | "Id" => some id
  | "String" => some string
  | "TxArg" => some handle
  | "Other" => some other
  | _ => none

def ofJson? : Json → Option ParamKind
  | .str word => ofWord? word
  | .obj [("Numeric", width)] => (Width.ofJson? false width).map integer
  | .obj [("Vector", elem)] => (ofJson? elem).map vector
  | .obj [(word, .null)] => ofWord? word
  | _ => none

end ParamKind

namespace Literal

def ofJson? : Json → Option Literal
  | .str "sender" => some sender
  | .obj [("bool", .bool b)] => some (bool b)
  | .obj [("string", .str s)] => some (string s)
  | .obj [("address", .str s)] => some (address s)
  | .obj [("number", .str s)] => some (number s)
  | .obj [("numeric", .arr [width, .str digits])] =>
    (Width.ofJson? false width).map fun w => integer w digits
  | .obj [("bytes", .str digits)] => (Hex.decode? digits).map bytes
  | .obj [("list", .arr items)] => (allOfJson? items).map list
  | _ => none
where
  allOfJson? : List Json → Option (List Literal)
    | [] => some []
    | item :: rest => do
      let item ← ofJson? item
      let rest ← allOfJson? rest
      return item :: rest

end Literal

end TxGraph
