import TxGraph.Bytes.Basic

/-!
# Bytes and decimal digits

A number changes its base by long multiplication: the digits so far, least first, are multiplied by
the other base, and the next digit is the first carry. Products and carries are 32-bit words.
-/

namespace TxGraph.Bytes

/-! ## Long multiplication -/

/-- A digit times the factor, plus the carry. -/
def product (factor carry : UInt32) (digit : UInt8) : UInt32 :=
  digit.toUInt32 * factor + carry

/-- The digits times the factor, plus the carry: as many digits, and the carry that is left. -/
def scale (base factor : UInt32) : (carry : UInt32) → (digits : List UInt8) → List UInt8 × UInt32
  | carry, [] => ([], carry)
  | carry, digit :: digits =>
    let v := product factor carry digit
    let rest := scale base factor (v / base) digits
    ((v % base).toUInt8 :: rest.1, rest.2)

/-! ## From decimal digits to bytes -/

/-- Reads more decimal digits after those that gave the bytes. A carry beyond the last byte is too
much. -/
def ofDecimalFrom? (bs : Bytes) : List Char → Option Bytes
  | [] => some bs
  | c :: cs =>
    let next := scale 256 10 (UInt32.ofNat (c.toNat - '0'.toNat)) bs
    if next.2 = 0 then ofDecimalFrom? next.1 cs else none

/-- The number of some decimal digits in `width` bytes, least first. -/
def ofDecimal? (width : Nat) (cs : List Char) : Option Bytes :=
  ofDecimalFrom? (List.replicate width 0) cs

/-! ## From bytes to decimal digits -/

/-- The decimal digits of a carry, least first; zero has none. A word has at most ten. -/
def carryDigits : (atMost : Nat) → (carry : UInt32) → List UInt8
  | 0, _ => []
  | atMost + 1, carry =>
    if carry = 0 then [] else (carry % 10).toUInt8 :: carryDigits atMost (carry / 10)

/-- The decimal digits of 256 times a number, plus a byte. -/
def decimalStep (b : UInt8) (digits : List UInt8) : List UInt8 :=
  let next := scale 10 256 b.toUInt32 digits
  next.1 ++ carryDigits 10 next.2

/-- The decimal digits of the bytes, least first. -/
def decimalDigits (bs : Bytes) : List UInt8 :=
  bs.foldr decimalStep [0]

/-- The decimal text of the bytes, least first. -/
def toDecimal (bs : Bytes) : String :=
  String.ofList (bs.decimalDigits.reverse.map fun d => Nat.digitChar d.toNat)

end TxGraph.Bytes
