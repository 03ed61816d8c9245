import TxGraph.Basic
import TxGraph.Decimal.Binary64

/-!
# JSON values

An object is a list of members, in the order in which they are written and with any repetition.
Free-form data is kept in canonical form: members sorted by key, the last of several with one key.
Integers are those of 64 bits, signed or unsigned; every other number is a double.
-/

namespace TxGraph

inductive Json
  | null
  | bool (b : Bool)
  | int (n : Int)
  | float (x : Binary64)
  | str (s : String)
  | arr (items : List Json)
  | obj (members : List (String × Json))
  deriving Repr, Inhabited

namespace Json

/-! ## Equality -/

mutual

def same : Json → Json → Bool
  | null, null => true
  | bool a, bool b => a == b
  | int a, int b => a == b
  | float a, float b => a == b
  | str a, str b => a == b
  | arr as, arr bs => sameItems as bs
  | obj as, obj bs => sameMembers as bs
  | _, _ => false

def sameItems : List Json → List Json → Bool
  | [], [] => true
  | a :: as, b :: bs => same a b && sameItems as bs
  | _, _ => false

def sameMembers : List (String × Json) → List (String × Json) → Bool
  | [], [] => true
  | (k, a) :: as, (l, b) :: bs => k == l && same a b && sameMembers as bs
  | _, _ => false

end

mutual

theorem same_iff : (a b : Json) → (same a b = true ↔ a = b)
  | null, b => by cases b <;> simp [same]
  | bool _, b => by cases b <;> simp [same]
  | int _, b => by cases b <;> simp [same]
  | float _, b => by cases b <;> simp [same]
  | str _, b => by cases b <;> simp [same]
  | arr as, b => by cases b <;> simp [same, sameItems_iff as]
  | obj as, b => by cases b <;> simp [same, sameMembers_iff as]

theorem sameItems_iff : (as bs : List Json) → (sameItems as bs = true ↔ as = bs)
  | [], bs => by cases bs <;> simp [sameItems]
  | a :: as, bs => by cases bs <;> simp [sameItems, same_iff a, sameItems_iff as]

theorem sameMembers_iff : (as bs : List (String × Json)) → (sameMembers as bs = true ↔ as = bs)
  | [], bs => by cases bs <;> simp [sameMembers]
  | (k, a) :: as, bs => by
    cases bs with
    | nil => simp [sameMembers]
    | cons b bs => cases b; simp [sameMembers, same_iff a, sameMembers_iff as]

end

instance : DecidableEq Json := fun a b => decidable_of_iff _ (same_iff a b)

/-! ## Depth and canonical form -/

/-- The number of nested arrays and objects. -/
def depth : Json → Nat
  | arr items => 1 + itemsDepth items
  | obj members => 1 + membersDepth members
  | _ => 0
where
  itemsDepth : List Json → Nat
    | [] => 0
    | item :: rest => max item.depth (itemsDepth rest)
  membersDepth : List (String × Json) → Nat
    | [] => 0
    | (_, value) :: rest => max value.depth (membersDepth rest)

/-- The canonical form of free-form data. -/
def canonical : Json → Json
  | arr items => arr (canonicalItems items)
  | obj members => obj (Directory.ofEntries (canonicalMembers members))
  | j => j
where
  canonicalItems : List Json → List Json
    | [] => []
    | item :: rest => item.canonical :: canonicalItems rest
  canonicalMembers : List (String × Json) → List (String × Json)
    | [] => []
    | (key, value) :: rest => (key, value.canonical) :: canonicalMembers rest

def nat (n : Nat) : Json :=
  int n

def ofOption {α : Type} (f : α → Json) : Option α → Json
  | none => null
  | some a => f a

/-- An array of texts. -/
def strs (texts : List String) : Json :=
  arr (texts.map str)

/-- An optional member is left out when it has no value. -/
def optional {α : Type} (key : String) (f : α → Json) : Option α → List (String × Json)
  | none => []
  | some a => [(key, f a)]

end Json

end TxGraph
