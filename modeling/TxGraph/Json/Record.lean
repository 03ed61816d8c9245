import TxGraph.Json.Basic

/-!
# Records in JSON

A record is an object whose members are its fields; members that are not fields are ignored, and
no field may occur twice. A record may also be written as the array of its fields in their order.
A tagged record has one more member, the tag, which names its kind (the first item, in an array).

Data inside a tagged record is read a little more freely: a tag may be the position of a kind.
`inner` says whether a value stands inside a tagged record.
-/

namespace TxGraph.Json

def bool? : Json → Option Bool
  | bool b => some b
  | _ => none

def string? : Json → Option String
  | str s => some s
  | _ => none

/-- A natural number of at most `limit`. -/
def natUpTo? (limit : Nat) : Json → Option Nat
  | int (.ofNat n) => if n ≤ limit then some n else none
  | _ => none

def word16? : Json → Option Nat := natUpTo? Word.max16

def word32? : Json → Option Nat := natUpTo? Word.max32

def word64? : Json → Option Nat := natUpTo? Word.max64

def list? {α : Type} (f : Json → Option α) : Json → Option (List α)
  | arr items => items.mapM f
  | _ => none

def strings? : Json → Option (List String) :=
  list? string?

/-- A directory; of several members with one key the last counts. -/
def directory? {α : Type} (f : Json → Option α) : Json → Option (Directory α)
  | obj members => do
    let entries ← members.mapM fun (key, value) => do return (key, ← f value)
    return Directory.ofEntries entries
  | _ => none

/-- A word that stands for itself, alone or as the key of an object with nothing else in it. -/
def word? (inner : Bool) : Json → Option String
  | str s => some s
  | obj [(key, null)] => some key
  | obj [(key, obj [])] => if inner then some key else none
  | _ => none

/-- The value of the only member with a key; absent when there is none, refused when there are
several. -/
def member? (members : List (String × Json)) (key : String) : Option (Option Json) :=
  match members.filter fun m => m.1 == key with
  | [] => some none
  | [(_, value)] => some (some value)
  | _ => none

/-- The fields of a record in the order of their keys. -/
def fields? (keys : List String) : Json → Option (List (Option Json))
  | obj members => keys.mapM (member? members)
  | arr items =>
    if items.length ≤ keys.length then
      some (items.map some ++ List.replicate (keys.length - items.length) none)
    else none
  | _ => none

/-- The tag of a tagged record, and the record without it. -/
def tagged? (key : String) : Json → Option (Json × Json)
  | obj members => do
    let tag ← member? members key
    return (← tag, obj (members.filter fun m => m.1 != key))
  | arr (tag :: rest) => some (tag, arr rest)
  | _ => none

/-- The kind that a tag names. -/
def kind? (inner : Bool) (kinds : List String) : Json → Option String
  | str s => if kinds.contains s then some s else none
  | int (.ofNat n) => if inner then kinds[n]? else none
  | _ => none

/-- The kind of a tagged record, and its fields. -/
def variant? (inner : Bool) (key : String) (kinds : List String) (j : Json) :
    Option (String × Json) := do
  let (tag, record) ← tagged? key j
  return (← kind? inner kinds tag, record)

/-- A record without fields: whatever members it has are ignored, but a list must be empty. -/
def isEmptyRecord : Json → Bool
  | obj _ => true
  | arr items => items.isEmpty
  | _ => false

/-! ## Fields -/

def required {α : Type} (f : Json → Option α) : Option Json → Option α
  | none => none
  | some j => f j

def withDefault {α : Type} (default : α) (f : Json → Option α) : Option Json → Option α
  | none => some default
  | some j => f j

/-- A field whose value may be missing or null. -/
def nullable {α : Type} (f : Json → Option α) : Option Json → Option (Option α)
  | none => some none
  | some null => some none
  | some j => (f j).map some

end TxGraph.Json
