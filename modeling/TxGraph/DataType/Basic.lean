/-!
# Data types

What a port carries or a variable holds. Types are trees over scalars, Move integers and objects.
An object's tag is advisory. `unknown` and type parameters stand for any type.
-/

namespace TxGraph

/-- The widths of Move's unsigned integers. -/
inductive Width
  | u8
  | u16
  | u32
  | u64
  | u128
  | u256
  deriving DecidableEq, Repr, Inhabited

namespace Width

def all : List Width :=
  [u8, u16, u32, u64, u128, u256]

def bits : Width → Nat
  | u8 => 8
  | u16 => 16
  | u32 => 32
  | u64 => 64
  | u128 => 128
  | u256 => 256

/-- The size of the little-endian form. -/
def byteSize (w : Width) : Nat :=
  w.bits / 8

def ofBits? (bits : Nat) : Option Width :=
  all.find? fun w => w.bits == bits

def name : Width → String
  | u8 => "u8"
  | u16 => "u16"
  | u32 => "u32"
  | u64 => "u64"
  | u128 => "u128"
  | u256 => "u256"

def ofName? (name : String) : Option Width :=
  all.find? fun w => w.name == name

end Width

/-- The scalars that an editor distinguishes. A `number` has no width of its own and can be
narrowed to any. -/
inductive Scalar
  | bool
  | string
  | address
  | number
  deriving DecidableEq, Repr, Inhabited

namespace Scalar

def all : List Scalar :=
  [bool, string, address, number]

def name : Scalar → String
  | bool => "bool"
  | string => "string"
  | address => "address"
  | number => "number"

def ofName? (name : String) : Option Scalar :=
  all.find? fun s => s.name == name

end Scalar

inductive DataType
  | scalar (kind : Scalar)
  | integer (width : Width)
  | object (tag : Option String)
  | vector (elem : DataType)
  | tuple (elems : List DataType)
  | typeParam (name : String)
  | unknown
  deriving Repr, Inhabited

namespace DataType

/-! ## Equality -/

mutual

def same : DataType → DataType → Bool
  | scalar a, scalar b => a == b
  | integer a, integer b => a == b
  | object a, object b => a == b
  | vector a, vector b => same a b
  | tuple as, tuple bs => sameAll as bs
  | typeParam a, typeParam b => a == b
  | unknown, unknown => true
  | _, _ => false

def sameAll : List DataType → List DataType → Bool
  | [], [] => true
  | a :: as, b :: bs => same a b && sameAll as bs
  | _, _ => false

end

mutual

theorem same_iff : (a b : DataType) → (same a b = true ↔ a = b)
  | scalar _, b => by cases b <;> simp [same]
  | integer _, b => by cases b <;> simp [same]
  | object _, b => by cases b <;> simp [same]
  | vector a, b => by cases b <;> simp [same, same_iff a]
  | tuple as, b => by cases b <;> simp [same, sameAll_iff as]
  | typeParam _, b => by cases b <;> simp [same]
  | unknown, b => by cases b <;> simp [same]

theorem sameAll_iff : (as bs : List DataType) → (sameAll as bs = true ↔ as = bs)
  | [], bs => by cases bs <;> simp [sameAll]
  | a :: as, bs => by cases bs <;> simp [sameAll, same_iff a, sameAll_iff as]

end

instance : DecidableEq DataType := fun a b => decidable_of_iff _ (same_iff a b)

/-! ## Common types -/

def bool : DataType := scalar .bool

def string : DataType := scalar .string

def address : DataType := scalar .address

def number : DataType := scalar .number

/-- An object of any type. -/
def anyObject : DataType := object none

def objectOf (tag : String) : DataType := object (some tag)

def isVector : DataType → Bool
  | vector _ => true
  | _ => false

def isObject : DataType → Bool
  | object _ => true
  | _ => false

/-- Whether the type stands for any other. -/
def isWildcard : DataType → Bool
  | unknown => true
  | typeParam _ => true
  | _ => false

def elem? : DataType → Option DataType
  | vector elem => some elem
  | _ => none

/-! ## Spellings -/

def stringTag : String := "0x1::string::String"

def asciiStringTag : String := "0x1::ascii::String"

def idTag : String := "0x2::object::ID"

def txContextTag : String := "0x2::tx_context::TxContext"

/-- The way Move spells the type, where it has one concrete spelling. -/
def moveSpelling? : DataType → Option String
  | scalar .bool => some "bool"
  | scalar .string => some stringTag
  | scalar .address => some "address"
  | scalar .number => some "u64"
  | integer width => some width.name
  | object tag => tag
  | vector elem => elem.moveSpelling?.map fun e => "vector<" ++ e ++ ">"
  | tuple _ => none
  | typeParam _ => none
  | unknown => none

/-- The type as messages show it. -/
def display : DataType → String
  | scalar kind => kind.name
  | integer width => width.name
  | object none => "object"
  | object (some tag) => "object<" ++ tag ++ ">"
  | vector elem => "vector<" ++ elem.display ++ ">"
  | tuple elems => "(" ++ ", ".intercalate (displayAll elems) ++ ")"
  | typeParam name => name
  | unknown => "unknown"
where
  displayAll : List DataType → List String
    | [] => []
    | elem :: rest => elem.display :: displayAll rest

end DataType

end TxGraph
