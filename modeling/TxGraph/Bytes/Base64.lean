import TxGraph.Bytes.Basic

/-!
# Base64 text

The standard alphabet with padding. Reading wants whole groups of four, padding exactly where the
length asks for it, and zeros in the bits that no byte uses.
-/

namespace TxGraph.Base64

/-- The digit of a value below 64. -/
def digit (n : Nat) : Char :=
  if n < 26 then Char.ofNat ('A'.toNat + n)
  else if n < 52 then Char.ofNat ('a'.toNat + (n - 26))
  else if n < 62 then Char.ofNat ('0'.toNat + (n - 52))
  else if n == 62 then '+'
  else '/'

def digitValue? (c : Char) : Option Nat :=
  if 'A' ≤ c ∧ c ≤ 'Z' then some (c.toNat - 'A'.toNat)
  else if 'a' ≤ c ∧ c ≤ 'z' then some (c.toNat - 'a'.toNat + 26)
  else if '0' ≤ c ∧ c ≤ '9' then some (c.toNat - '0'.toNat + 52)
  else if c == '+' then some 62
  else if c == '/' then some 63
  else none

def encodeChars : Bytes → List Char
  | [] => []
  | [a] =>
    let n := a.toNat * 16
    [digit (n / 64), digit (n % 64), '=', '=']
  | [a, b] =>
    let n := (a.toNat * 256 + b.toNat) * 4
    [digit (n / 4096), digit (n / 64 % 64), digit (n % 64), '=']
  | a :: b :: c :: rest =>
    let n := (a.toNat * 256 + b.toNat) * 256 + c.toNat
    digit (n / 262144) :: digit (n / 4096 % 64) :: digit (n / 64 % 64) :: digit (n % 64) ::
      encodeChars rest

def encode (bs : Bytes) : String :=
  String.ofList (encodeChars bs)

/-- The byte of a last group with two pads: its low four bits are unused and zero. -/
def decodeOne? (a b : Char) : Option Bytes := do
  let n := (← digitValue? a) * 64 + (← digitValue? b)
  if n % 16 == 0 then some [UInt8.ofNat (n / 16)] else none

/-- The bytes of a last group with one pad: its low two bits are unused and zero. -/
def decodeTwo? (a b c : Char) : Option Bytes := do
  let n := ((← digitValue? a) * 64 + (← digitValue? b)) * 64 + (← digitValue? c)
  if n % 4 == 0 then some [UInt8.ofNat (n / 1024), UInt8.ofNat (n / 4 % 256)] else none

def decodeThree? (a b c d : Char) : Option Bytes := do
  let n := (((← digitValue? a) * 64 + (← digitValue? b)) * 64 + (← digitValue? c)) * 64 +
    (← digitValue? d)
  return [UInt8.ofNat (n / 65536), UInt8.ofNat (n / 256 % 256), UInt8.ofNat (n % 256)]

def decodeChars : List Char → Option Bytes
  | [] => some []
  | [a, b, '=', '='] => decodeOne? a b
  | [a, b, c, '='] => decodeTwo? a b c
  | a :: b :: c :: d :: rest => do
    let group ← decodeThree? a b c d
    let bytes ← decodeChars rest
    return group ++ bytes
  | _ => none

def decode? (s : String) : Option Bytes :=
  decodeChars s.toList

end TxGraph.Base64
