import TxGraph.DataType.Move
import TxGraph.Json.Reader
import TxGraph.Json.Record

/-!
# Function signatures

What is known of a Move function from outside: how many type parameters it has and how its inputs
and outputs are spelled. The transaction context, which the chain supplies by itself, does not
count as an input. The number of type parameters is not limited by the memory for their names.
-/

namespace TxGraph

structure Signature where
  typeParams : Nat
  inputs : List String
  outputs : List String
  deriving DecidableEq, Repr, Inhabited

namespace Signature

/-- The signature without a transaction context at the end of its inputs. -/
def withoutContext (s : Signature) : Signature :=
  match s.inputs.getLast? with
  | some last => if DataType.isTxContext last then { s with inputs := s.inputs.dropLast } else s
  | none => s

def toJson (s : Signature) : Json :=
  .obj [("typeParams", .nat s.typeParams), ("inputs", .strs s.inputs), ("outputs", .strs s.outputs)]

def ofJson? (j : Json) : Option Signature := do
  let [typeParams, inputs, outputs] ← j.fields? ["typeParams", "inputs", "outputs"] | none
  return {
    typeParams := ← Json.required Json.word64? typeParams
    inputs := ← Json.required Json.strings? inputs
    outputs := ← Json.required Json.strings? outputs }

def shape : Json.Shape :=
  .record [("typeParams", .whole), ("inputs", .whole), ("outputs", .whole)]

end Signature

/-- The signatures of a package by module and function. -/
structure PackageSignatures where
  modules : Directory (Directory Signature)
  deriving DecidableEq, Repr, Inhabited

namespace PackageSignatures

def empty : PackageSignatures := ⟨[]⟩

def function? (p : PackageSignatures) (module function : String) : Option Signature :=
  (Directory.get? p.modules module).bind fun functions => Directory.get? functions function

def insert (p : PackageSignatures) (module function : String) (s : Signature) :
    PackageSignatures :=
  let functions := (Directory.get? p.modules module).getD []
  ⟨Directory.insert module (Directory.insert function s.withoutContext functions) p.modules⟩

def toJson (p : PackageSignatures) : Json :=
  .obj [("modules", .obj (p.modules.map fun (module, functions) =>
    (module, .obj (functions.map fun (function, s) => (function, s.toJson)))))]

def ofJson? (j : Json) : Option PackageSignatures := do
  let [modules] ← j.fields? ["modules"] | none
  return ⟨← Json.required (Json.directory? (Json.directory? Signature.ofJson?)) modules⟩

def shape : Json.Shape :=
  .record [("modules", .map (.map Signature.shape))]

end PackageSignatures

end TxGraph
