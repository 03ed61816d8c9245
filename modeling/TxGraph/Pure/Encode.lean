import TxGraph.Address
import TxGraph.Bytes.Decimal
import TxGraph.Bytes.Leb128
import TxGraph.Pure.Error
import TxGraph.Text.Basic

/-!
# Encoding pure values

A value is encoded at the kind of the parameter it is given to. A parameter without a declared
type takes the value's own kind. Integers are little endian at their width, texts and vectors carry
their length, addresses and ids are 32 bytes.
-/

namespace TxGraph

/-- Encoded bytes, with the Move type at which they were encoded where it is known. -/
structure PureValue where
  type : Option String
  bytes : Bytes
  deriving DecidableEq, Repr

namespace PureValue

/-- The digits of a number: blanks around it and underscores are dropped. -/
def numberDigits (text : String) : List Char :=
  (Text.trim text).toList.filter (· != '_')

/-- The bytes of decimal digits that are read into a 128-bit word. -/
def wordBytes? (width : Width) (digits : List Char) : Option Bytes :=
  match Text.natUpTo? Word.max128 digits with
  | none => none
  | some n =>
    if width.bits < 128 && Nat.shiftRight n width.bits != 0 then none
    else some ((Bytes.ofNatLE 16 n).take width.byteSize)

/-- The bytes of decimal digits. Only the widest numbers do not fit in a word. -/
def digitBytes? (width : Width) (digits : List Char) : Option Bytes :=
  if width = .u256 then Bytes.ofDecimal? 32 digits else wordBytes? width digits

def encodeNumber (width : Width) (text : String) : Except EncodeError Bytes :=
  let digits := numberDigits text
  if Text.isDigits digits then
    match digitBytes? width digits with
    | some bytes => .ok bytes
    | none => .error (.invalidNumber text width)
  else .error (.invalidNumber text width)

def encodeAddress (text : String) : Except EncodeError Bytes :=
  match Address.parse? text with
  | some bytes => .ok bytes
  | none => .error (.invalidAddress text)

/-- The most bytes that a text may have. -/
def maxText : Nat := 2147483647

/-- The mark of a length up to a limit. -/
def encodeLength (limit length : Nat) : Except EncodeError Bytes :=
  if length ≤ limit then .ok (Leb128.encode length)
  else .error (.typeNotPure (exceededMessage length))

def encodeString (s : String) : Except EncodeError Bytes := do
  let bytes := Bytes.ofText s
  let mark ← encodeLength maxText bytes.length
  return mark ++ bytes

/-- The bytes of a value at a kind. -/
def encodeAs : ParamKind → Literal → Except EncodeError Bytes
  | _, .bytes bs => .ok bs
  | .bool, .bool b => .ok [if b then 1 else 0]
  | .string, .string s => encodeString s
  | .address, .address a => encodeAddress a
  | .address, .string a => encodeAddress a
  | .id, .address a => encodeAddress a
  | .id, .string a => encodeAddress a
  | .integer width, .number digits => encodeNumber width digits
  | .integer width, .integer _ digits => encodeNumber width digits
  | .vector elem, .list items => do
    let mark ← encodeLength Word.max64 items.length
    let bytes ← encodeItems elem items
    return mark ++ bytes
  | .handle, _ => .error (.kindNotPure .handle)
  | .other, _ => .error (.kindNotPure .other)
  | kind, value => .error (.kindMismatch kind value)
where
  encodeItems (elem : ParamKind) : List Literal → Except EncodeError Bytes
    | [] => .ok []
    | item :: rest => do
      let bytes ← encodeAs elem item
      let more ← encodeItems elem rest
      return bytes ++ more

/-- The kind of a value on its own. A vector goes by its first element. -/
def inferKind : Literal → Except EncodeError ParamKind
  | .bool _ => .ok .bool
  | .string _ => .ok .string
  | .address _ => .ok .address
  | .sender => .ok .address
  | .number _ => .ok (.integer .u64)
  | .integer width _ => .ok (.integer width)
  | .list [] => .error .emptyVector
  | .list (first :: _) => do return .vector (← inferKind first)
  | .bytes _ => .ok .other

/-- The kind at which a value is encoded for a parameter. -/
def effectiveKind (kind : ParamKind) (value : Literal) : Except EncodeError ParamKind :=
  match kind with
  | .other => inferKind value
  | _ => .ok kind

/-- Encodes a value for a parameter. Encoded bytes are taken as they are. -/
def encode (kind : ParamKind) : Literal → Except EncodeError PureValue
  | .bytes bs => .ok ⟨kind.pureType?, bs⟩
  | value => do
    let kind ← effectiveKind kind value
    let bytes ← encodeAs kind value
    return ⟨kind.pureType?, bytes⟩

end PureValue

end TxGraph
