import TxGraph.Json.Basic
import TxGraph.Decimal.Shortest

/-!
# JSON text

Compact text has no blanks; pretty text has one item or member a line, indented by two spaces.
Strings escape the quote, the backslash and control characters, and nothing else.
-/

namespace TxGraph.Json

/-! ## Numbers -/

/-- How doubles are written: positionally while the exponent of the first digit is in
`[leastFixed, limitFixed)`, always with a point; else with a signed exponent. -/
def leastFixed : Int := -5

def limitFixed : Int := 16

/-- The digits of a nonzero magnitude in positional notation. -/
def fixedDigits (d : Decimal.Digits) : List Char :=
  if d.point ≤ 0 then '0' :: '.' :: List.replicate (-d.point).toNat '0' ++ d.digits
  else
    let whole := d.point.toNat
    if whole < d.digits.length then d.digits.take whole ++ '.' :: d.digits.drop whole
    else d.digits ++ List.replicate (whole - d.digits.length) '0' ++ ['.', '0']

def exponentDigits (e : Int) : List Char :=
  (if e < 0 then '-' else '+') :: Nat.toDigits 10 e.natAbs

/-- The digits of a nonzero magnitude with an exponent. -/
def scientificDigits (d : Decimal.Digits) : List Char :=
  let tail := d.digits.drop 1
  d.digits.take 1 ++ (if tail.isEmpty then [] else '.' :: tail) ++ 'e' :: exponentDigits (d.point - 1)

def floatChars (x : Binary64) : List Char :=
  let magnitude :=
    if x.isZero then ['0', '.', '0']
    else
      let d := Decimal.shortest x
      if leastFixed ≤ d.point - 1 ∧ d.point - 1 < limitFixed then fixedDigits d
      else scientificDigits d
  if x.negative then '-' :: magnitude else magnitude

def intChars (n : Int) : List Char :=
  if n < 0 then '-' :: Nat.toDigits 10 n.natAbs else Nat.toDigits 10 n.natAbs

/-! ## Strings -/

def escapeChar (c : Char) : List Char :=
  if c == '"' then ['\\', '"']
  else if c == '\\' then ['\\', '\\']
  else if c == '\x08' then ['\\', 'b']
  else if c == '\t' then ['\\', 't']
  else if c == '\n' then ['\\', 'n']
  else if c == '\x0c' then ['\\', 'f']
  else if c == '\r' then ['\\', 'r']
  else if c.toNat < 0x20 then
    ['\\', 'u', '0', '0', Nat.digitChar (c.toNat / 16), Nat.digitChar (c.toNat % 16)]
  else [c]

def stringChars (s : String) : List Char :=
  '"' :: (s.toList.flatMap escapeChar ++ ['"'])

/-- The text of a value that is neither array nor object. -/
def leafChars : Json → List Char
  | null => "null".toList
  | bool true => "true".toList
  | bool false => "false".toList
  | int n => intChars n
  | float x => floatChars x
  | str s => stringChars s
  | arr _ => []
  | obj _ => []

/-! ## Compact and pretty text -/

def compactChars : Json → List Char
  | arr items => '[' :: (itemsChars items ++ [']'])
  | obj members => '\x7b' :: (membersChars members ++ ['\x7d'])
  | leaf => leafChars leaf
where
  itemsChars : List Json → List Char
    | [] => []
    | [item] => compactChars item
    | item :: rest => compactChars item ++ ',' :: itemsChars rest
  membersChars : List (String × Json) → List Char
    | [] => []
    | [(key, value)] => stringChars key ++ ':' :: compactChars value
    | (key, value) :: rest => stringChars key ++ ':' :: (compactChars value ++ ',' :: membersChars rest)

def compact (j : Json) : String :=
  String.ofList j.compactChars

/-- A line break and the indentation of a level. -/
def newline (level : Nat) : List Char :=
  '\n' :: List.replicate (2 * level) ' '

def prettyChars (level : Nat) : Json → List Char
  | arr [] => ['[', ']']
  | arr items => '[' :: (itemsChars (level + 1) items ++ newline level ++ [']'])
  | obj [] => ['\x7b', '\x7d']
  | obj members => '\x7b' :: (membersChars (level + 1) members ++ newline level ++ ['\x7d'])
  | leaf => leafChars leaf
where
  itemsChars (level : Nat) : List Json → List Char
    | [] => []
    | [item] => newline level ++ prettyChars level item
    | item :: rest => newline level ++ prettyChars level item ++ ',' :: itemsChars level rest
  membersChars (level : Nat) : List (String × Json) → List Char
    | [] => []
    | [(key, value)] => newline level ++ stringChars key ++ ':' :: ' ' :: prettyChars level value
    | (key, value) :: rest =>
      newline level ++ stringChars key ++
        ':' :: ' ' :: (prettyChars level value ++ ',' :: membersChars level rest)

def pretty (j : Json) : String :=
  String.ofList (j.prettyChars 0)

end TxGraph.Json
