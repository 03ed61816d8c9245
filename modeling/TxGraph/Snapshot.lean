import TxGraph.Address
import TxGraph.Signature

/-!
# Snapshots of the chain

Signatures by package and type tags by object, held in memory. What is inserted is filed under the
normalized address, and looked up under it; a snapshot that is read keeps its keys as written. The
entries of an object snapshot have no order of their own. They are kept and written here by their
keys, and read in any order.
-/

namespace TxGraph

inductive LookupError
  | noPackage (id : String)
  | noObject (id : String)
  /-- A source that does not have its data ready. No snapshot answers so. -/
  | unavailable (message : String)
  /-- The id cannot be normalized. -/
  | uncut (cause : Address.Uncut)
  deriving DecidableEq, Repr

def LookupError.message : LookupError → String
  | noPackage id => "package '" ++ id ++ "' was not found"
  | noObject id => "object '" ++ id ++ "' was not found"
  | unavailable message => "Collaborator unavailable: " ++ message
  | uncut cause => cause.message

structure SignatureSnapshot where
  packages : Directory PackageSignatures
  deriving DecidableEq, Repr, Inhabited

namespace SignatureSnapshot

def empty : SignatureSnapshot := ⟨[]⟩

def isEmpty (s : SignatureSnapshot) : Bool :=
  s.packages.isEmpty

def insert (s : SignatureSnapshot) (id : String) (signatures : PackageSignatures) :
    Except Address.Uncut SignatureSnapshot := do
  return ⟨Directory.insert (← Address.normalize id) signatures s.packages⟩

def package (s : SignatureSnapshot) (id : String) : Except LookupError PackageSignatures :=
  match Address.normalize id with
  | .error cause => .error (.uncut cause)
  | .ok key =>
    match Directory.get? s.packages key with
    | some signatures => .ok signatures
    | none => .error (.noPackage id)

def toJson (s : SignatureSnapshot) : Json :=
  .obj (s.packages.map fun (id, signatures) => (id, signatures.toJson))

def ofJson? (j : Json) : Option SignatureSnapshot :=
  (j.directory? PackageSignatures.ofJson?).map .mk

def shape : Json.Shape :=
  .map PackageSignatures.shape

end SignatureSnapshot

structure ObjectSnapshot where
  types : Directory String
  deriving DecidableEq, Repr, Inhabited

namespace ObjectSnapshot

def empty : ObjectSnapshot := ⟨[]⟩

def isEmpty (s : ObjectSnapshot) : Bool :=
  s.types.isEmpty

def insert (s : ObjectSnapshot) (id tag : String) : Except Address.Uncut ObjectSnapshot := do
  return ⟨Directory.insert (← Address.normalize id) tag s.types⟩

def typeOf (s : ObjectSnapshot) (id : String) : Except LookupError String :=
  match Address.normalize id with
  | .error cause => .error (.uncut cause)
  | .ok key =>
    match Directory.get? s.types key with
    | some tag => .ok tag
    | none => .error (.noObject id)

/-- The snapshot of pairs of id and tag that are inserted one after the other. -/
def ofPairs (pairs : List (String × String)) : Except Address.Uncut ObjectSnapshot :=
  pairs.foldlM (fun s (id, tag) => s.insert id tag) empty

def toJson (s : ObjectSnapshot) : Json :=
  .obj (s.types.map fun (id, tag) => (id, .str tag))

def ofJson? (j : Json) : Option ObjectSnapshot :=
  (j.directory? Json.string?).map .mk

end ObjectSnapshot

end TxGraph
