import TxGraph.Bytes.Basic

/-!
# Hexadecimal text

Two lower-case digits a byte. Reading takes either case and refuses an odd number of digits.
-/

namespace TxGraph.Hex

def digit (n : Nat) : Char :=
  Nat.digitChar n

def digitValue? (c : Char) : Option Nat :=
  if '0' ≤ c ∧ c ≤ '9' then some (c.toNat - '0'.toNat)
  else if 'a' ≤ c ∧ c ≤ 'f' then some (c.toNat - 'a'.toNat + 10)
  else if 'A' ≤ c ∧ c ≤ 'F' then some (c.toNat - 'A'.toNat + 10)
  else none

def encodeByte (b : UInt8) : List Char :=
  [digit (b.toNat / 16), digit (b.toNat % 16)]

def encode (bs : Bytes) : String :=
  String.ofList (bs.flatMap encodeByte)

def decodeChars : List Char → Option Bytes
  | [] => some []
  | [_] => none
  | h :: l :: rest => do
    let high ← digitValue? h
    let low ← digitValue? l
    let bytes ← decodeChars rest
    return UInt8.ofNat (16 * high + low) :: bytes

def decode? (s : String) : Option Bytes :=
  decodeChars s.toList

end TxGraph.Hex
