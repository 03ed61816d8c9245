import TxGraph.Basic

/-!
# Text

Blank is what Unicode calls white space: the no-break space and the ideographic space count, the
zero-width space does not. Texts are trimmed of blanks only. A machine number in decimal is an
optional plus sign and at least one digit, up to a limit. The data tables of character properties
list inclusive ranges of code points in increasing order.
-/

namespace TxGraph.Text

/-! ## Blanks -/

/-- Whether the character is white space. -/
def isBlank (c : Char) : Bool :=
  let n := c.toNat
  (0x09 ≤ n && n ≤ 0x0D) || n == 0x20 || n == 0x85 || n == 0xA0 || n == 0x1680 ||
    (0x2000 ≤ n && n ≤ 0x200A) || n == 0x2028 || n == 0x2029 || n == 0x202F || n == 0x205F ||
    n == 0x3000

/-- The characters after the leading blanks. -/
def trimLeft (cs : List Char) : List Char :=
  cs.dropWhile isBlank

/-- The characters before the trailing blanks. -/
def trimRight (cs : List Char) : List Char :=
  (cs.reverse.dropWhile isBlank).reverse

/-- The text without blanks at either end. -/
def trim (s : String) : String :=
  String.ofList (trimRight (trimLeft s.toList))

/-- The text with the letters A to Z in lower case. -/
def lowerAscii (s : String) : String :=
  String.ofList (s.toList.map Char.toLower)

/-! ## Numbers -/

/-- The value of decimal digits, most significant first. -/
def digitsToNat (cs : List Char) : Nat :=
  cs.foldl (fun n c => n * 10 + (c.toNat - '0'.toNat)) 0

/-- A nonempty string of decimal digits. -/
def isDigits (cs : List Char) : Bool :=
  !cs.isEmpty && cs.all Char.isDigit

def natUpTo? (limit : Nat) (cs : List Char) : Option Nat :=
  let digits :=
    match cs with
    | '+' :: rest => rest
    | _ => cs
  if isDigits digits && digitsToNat digits ≤ limit then some (digitsToNat digits) else none

/-! ## Ranges of characters -/

/-- Inclusive ranges of code points. -/
abbrev Ranges := List (Nat × Nat)

/-- Whether the code point lies in one of the ranges. -/
def Ranges.contains : Ranges → Nat → Bool
  | [], _ => false
  | (lo, hi) :: rest, n => (lo ≤ n && n ≤ hi) || contains rest n

end TxGraph.Text
