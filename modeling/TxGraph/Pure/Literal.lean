import TxGraph.Bytes.Basic
import TxGraph.DataType.Basic
import TxGraph.Text.Quoted

/-!
# Literals

A literal is a value with nothing left to look up, ready to be encoded.
-/

namespace TxGraph

inductive Literal
  | bool (b : Bool)
  | string (s : String)
  | address (s : String)
  /-- A decimal number whose width comes from where it is used. -/
  | number (digits : String)
  | integer (width : Width) (digits : String)
  /-- Stands for the sender where none is given. -/
  | sender
  /-- Bytes that are encoded already. -/
  | bytes (bs : Bytes)
  | list (items : List Literal)
  deriving Repr, Inhabited

namespace Literal

/-! ## Equality -/

mutual

def same : Literal → Literal → Bool
  | bool a, bool b => a == b
  | string a, string b => a == b
  | address a, address b => a == b
  | number a, number b => a == b
  | integer v a, integer w b => v == w && a == b
  | sender, sender => true
  | bytes a, bytes b => a == b
  | list as, list bs => sameAll as bs
  | _, _ => false

def sameAll : List Literal → List Literal → Bool
  | [], [] => true
  | a :: as, b :: bs => same a b && sameAll as bs
  | _, _ => false

end

mutual

theorem same_iff : (a b : Literal) → (same a b = true ↔ a = b)
  | bool _, b => by cases b <;> simp [same]
  | string _, b => by cases b <;> simp [same]
  | address _, b => by cases b <;> simp [same]
  | number _, b => by cases b <;> simp [same]
  | integer _ _, b => by cases b <;> simp [same]
  | sender, b => by cases b <;> simp [same]
  | bytes _, b => by cases b <;> simp [same]
  | list as, b => by cases b <;> simp [same, sameAll_iff as]

theorem sameAll_iff : (as bs : List Literal) → (sameAll as bs = true ↔ as = bs)
  | [], bs => by cases bs <;> simp [sameAll]
  | a :: as, bs => by cases bs <;> simp [sameAll, same_iff a, sameAll_iff as]

end

instance : DecidableEq Literal := fun a b => decidable_of_iff _ (same_iff a b)

/-! ## The sender -/

/-- The literal with every sender placeholder replaced by an address. -/
def withSender (address : String) : Literal → Literal
  | sender => .address address
  | list items => list (withSenderAll address items)
  | literal => literal
where
  withSenderAll (address : String) : List Literal → List Literal
    | [] => []
    | item :: rest => item.withSender address :: withSenderAll address rest

/-! ## Text -/

def widthLabel : Width → String
  | .u8 => "U8"
  | .u16 => "U16"
  | .u32 => "U32"
  | .u64 => "U64"
  | .u128 => "U128"
  | .u256 => "U256"

/-- The literal as messages show it. -/
def display : Literal → String
  | bool b => "Bool(" ++ (if b then "true" else "false") ++ ")"
  | string s => "String(" ++ Text.quoted s ++ ")"
  | address s => "Address(" ++ Text.quoted s ++ ")"
  | number digits => "Number(" ++ Text.quoted digits ++ ")"
  | integer width digits => "Numeric(" ++ widthLabel width ++ ", " ++ Text.quoted digits ++ ")"
  | sender => "Sender"
  | bytes bs => "Bytes([" ++ ", ".intercalate (bs.map fun b => toString b.toNat) ++ "])"
  | list items => "List([" ++ ", ".intercalate (displayAll items) ++ "])"
where
  displayAll : List Literal → List String
    | [] => []
    | item :: rest => item.display :: displayAll rest

end Literal

end TxGraph
