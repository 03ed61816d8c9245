import TxGraph.Bytes.Hex
import TxGraph.Json.Basic
import TxGraph.Text.Basic

/-!
# Reading JSON text

Reading has two steps. The first finds the bracket structure and the lexemes (`Raw`). The second
gives the lexemes their values: it bounds the nesting, pairs surrogate escapes and refuses numbers
out of range. A `Shape` tells the second step which members of which records are asked for; the
others are dropped with their values unread.
-/

namespace TxGraph.Json

/-! ## Lexemes -/

/-- The parts of a written number. The fraction is empty when there is no point. -/
structure Numeral where
  negative : Bool
  whole : List Char
  fraction : List Char
  exponent : Option (Bool × List Char)
  deriving Repr, DecidableEq, Inhabited

/-- A text is missing where its escapes have an unpaired surrogate. -/
inductive Raw
  | null
  | bool (b : Bool)
  | num (n : Numeral)
  | str (s : Option String)
  | arr (items : List Raw)
  | obj (members : List (Option String × Raw))
  deriving Repr, Inhabited

def isSpace (c : Char) : Bool :=
  c == ' ' || c == '\n' || c == '\t' || c == '\r'

def skipSpace (cs : List Char) : List Char :=
  cs.dropWhile isSpace

/-- The digits at the front and what follows them. -/
def spanDigits (cs : List Char) : List Char × List Char :=
  cs.span Char.isDigit

/-- An exponent after its mark: an optional sign and at least one digit. -/
def readExponent (cs : List Char) : Option ((Bool × List Char) × List Char) :=
  let (negative, cs) :=
    match cs with
    | '+' :: rest => (false, rest)
    | '-' :: rest => (true, rest)
    | _ => (false, cs)
  match spanDigits cs with
  | ([], _) => none
  | (digits, rest) => some ((negative, digits), rest)

/-- A number after its sign. A leading zero stands alone. -/
def readNumeral (negative : Bool) (cs : List Char) : Option (Numeral × List Char) := do
  let (whole, rest) ←
    match spanDigits cs with
    | ([], _) => none
    | ('0' :: _ :: _, _) => none
    | found => some found
  let (fraction, rest) ←
    match rest with
    | '.' :: after =>
      match spanDigits after with
      | ([], _) => none
      | found => some found
    | _ => some ([], rest)
  match rest with
  | 'e' :: after | 'E' :: after =>
    let (exponent, rest) ← readExponent after
    return (⟨negative, whole, fraction, some exponent⟩, rest)
  | _ => return (⟨negative, whole, fraction, none⟩, rest)

/-- The value of four hexadecimal digits. -/
def hexUnit? (a b c d : Char) : Option Nat := do
  let a ← Hex.digitValue? a
  let b ← Hex.digitValue? b
  let c ← Hex.digitValue? c
  let d ← Hex.digitValue? d
  return ((a * 16 + b) * 16 + c) * 16 + d

def simpleEscape? : Char → Option Char
  | '"' => some '"'
  | '\\' => some '\\'
  | '/' => some '/'
  | 'b' => some '\x08'
  | 'f' => some '\x0c'
  | 'n' => some '\n'
  | 'r' => some '\r'
  | 't' => some '\t'
  | _ => none

def isHighSurrogate (n : Nat) : Bool :=
  0xD800 ≤ n && n ≤ 0xDBFF

def isLowSurrogate (n : Nat) : Bool :=
  0xDC00 ≤ n && n ≤ 0xDFFF

/-- A code unit of a text, or half a character. -/
inductive Unit16
  | char (c : Char)
  | half (n : Nat)
  deriving Repr, DecidableEq

/-- The units of a text after its opening quote, in reverse, and what follows its closing quote. -/
def readUnits (acc : List Unit16) : List Char → Option (List Unit16 × List Char)
  | '"' :: rest => some (acc, rest)
  | '\\' :: 'u' :: a :: b :: c :: d :: rest =>
    match hexUnit? a b c d with
    | none => none
    | some n =>
      if isHighSurrogate n || isLowSurrogate n then readUnits (.half n :: acc) rest
      else readUnits (.char (Char.ofNat n) :: acc) rest
  | '\\' :: e :: rest =>
    match simpleEscape? e with
    | none => none
    | some c => readUnits (.char c :: acc) rest
  | c :: rest => if c.toNat < 0x20 || c == '\\' then none else readUnits (.char c :: acc) rest
  | [] => none

/-- Joins halves into characters, from the last unit back; an unpaired half makes it fail. -/
def joinUnits (acc : List Char) : List Unit16 → Option (List Char)
  | [] => some acc
  | .char c :: rest => joinUnits (c :: acc) rest
  | .half low :: .half high :: rest =>
    if isLowSurrogate low && isHighSurrogate high then
      joinUnits (Char.ofNat (0x10000 + (high - 0xD800) * 0x400 + (low - 0xDC00)) :: acc) rest
    else none
  | .half _ :: _ => none

/-- A text after its opening quote. -/
def readString (cs : List Char) : Option (Option String × List Char) :=
  (readUnits [] cs).map fun (units, rest) => ((joinUnits [] units).map String.ofList, rest)

/-! ## Structure -/

mutual

/-- A value, with blanks before it. Each step down uses one unit of fuel. -/
def readValue : (fuel : Nat) → List Char → Option (Raw × List Char)
  | 0, _ => none
  | fuel + 1, cs =>
    match skipSpace cs with
    | 'n' :: 'u' :: 'l' :: 'l' :: rest => some (.null, rest)
    | 't' :: 'r' :: 'u' :: 'e' :: rest => some (.bool true, rest)
    | 'f' :: 'a' :: 'l' :: 's' :: 'e' :: rest => some (.bool false, rest)
    | '"' :: rest => (readString rest).map fun (s, rest) => (.str s, rest)
    | '[' :: rest =>
      match skipSpace rest with
      | ']' :: rest => some (.arr [], rest)
      | rest => readItems fuel [] rest
    | '\x7b' :: rest =>
      match skipSpace rest with
      | '\x7d' :: rest => some (.obj [], rest)
      | rest => readMembers fuel [] rest
    | '-' :: rest => (readNumeral true rest).map fun (n, rest) => (.num n, rest)
    | rest => (readNumeral false rest).map fun (n, rest) => (.num n, rest)

/-- The items of an array after the ones in `acc`, which are in reverse. -/
def readItems : (fuel : Nat) → (acc : List Raw) → List Char → Option (Raw × List Char)
  | 0, _, _ => none
  | fuel + 1, acc, cs =>
    match readValue fuel cs with
    | none => none
    | some (item, rest) =>
      match skipSpace rest with
      | ',' :: rest => readItems fuel (item :: acc) rest
      | ']' :: rest => some (.arr (item :: acc).reverse, rest)
      | _ => none

/-- The members of an object after the ones in `acc`, which are in reverse. -/
def readMembers : (fuel : Nat) → (acc : List (Option String × Raw)) → List Char →
    Option (Raw × List Char)
  | 0, _, _ => none
  | fuel + 1, acc, cs =>
    match skipSpace cs with
    | '"' :: rest =>
      match readString rest with
      | none => none
      | some (key, rest) =>
        match skipSpace rest with
        | ':' :: rest =>
          match readValue fuel rest with
          | none => none
          | some (value, rest) =>
            match skipSpace rest with
            | ',' :: rest => readMembers fuel ((key, value) :: acc) rest
            | '\x7d' :: rest => some (.obj ((key, value) :: acc).reverse, rest)
            | _ => none
        | _ => none
    | _ => none

end

/-- The structure of a whole text: one value, and only blanks after it. -/
def readRaw (s : String) : Option Raw :=
  let cs := s.toList
  match readValue (cs.length + 1) cs with
  | some (raw, rest) => if (skipSpace rest).isEmpty then some raw else none
  | none => none

/-! ## Numbers -/

/-- Appends digits to a significand as long as it stays a word; the rest is not used. -/
def significand (s : Nat) : List Char → Nat × List Char
  | [] => (s, [])
  | c :: cs =>
    let next := s * 10 + (c.toNat - '0'.toNat)
    if Word.max64 < next then (s, c :: cs) else significand next cs

/-- A significand times a power of ten: the double nearest to the significand, multiplied or
divided by the double nearest to the power; a power too small for a double is divided off in
steps. -/
def scaleByTen : (fuel : Nat) → (x : Binary64) → (e : Int) → Option Binary64
  | 0, x, _ => some x
  | fuel + 1, x, e =>
    if 0 ≤ e then
      if e ≤ 308 then x.mul (Binary64.powerOfTen e.toNat)
      else if x.isZero then some x else none
    else if -308 ≤ e then some (x.div (Binary64.powerOfTen (-e).toNat))
    else if x.isZero then some x
    else scaleByTen fuel (x.div (Binary64.powerOfTen 308)) (e + 308)

/-- The greatest exponent that is computed with. -/
def maxExponent : Nat := 2147483647

/-- The double of a numeral with a point, an exponent or too many digits. -/
def Numeral.toFloat? (n : Numeral) : Option Binary64 :=
  let (whole, dropped) := significand 0 n.whole
  let (digits, unused) := significand whole n.fraction
  let point : Int := (dropped.length : Int) - ((n.fraction.length - unused.length : Nat) : Int)
  let magnitude :=
    match n.exponent with
    | none => scaleByTen 4 (Binary64.ofInt digits) point
    | some (negative, exponent) =>
      let e := Text.digitsToNat exponent
      if maxExponent < e then
        if digits != 0 && !negative then none else some (Binary64.zero false)
      else scaleByTen 4 (Binary64.ofInt digits) (if negative then point - e else point + e)
  magnitude.map fun x => if n.negative then x.neg else x

/-- An integer within 64 bits, else a double; a negative zero is a double. -/
def Numeral.value? (n : Numeral) : Option Json :=
  let magnitude := Text.digitsToNat n.whole
  if !n.fraction.isEmpty || n.exponent.isSome || Word.max64 < magnitude then n.toFloat?.map float
  else if !n.negative then some (int magnitude)
  else if magnitude = 0 ∨ 9223372036854775808 < magnitude then
    some (float (Binary64.ofInt magnitude).neg)
  else some (int (-magnitude))

/-! ## Values -/

/-- The deepest nesting of arrays and objects. -/
def maxDepth : Nat := 127

/-- The value of a raw tree, within `depth` levels of nesting. -/
def Raw.value? (depth : Nat) : Raw → Option Json
  | .null => some Json.null
  | .bool b => some (Json.bool b)
  | .num n => n.value?
  | .str s => s.map Json.str
  | .arr items =>
    match depth with
    | 0 => none
    | depth + 1 => (itemValues depth items).map Json.arr
  | .obj members =>
    match depth with
    | 0 => none
    | depth + 1 => (memberValues depth members).map Json.obj
where
  itemValues (depth : Nat) : List Raw → Option (List Json)
    | [] => some []
    | item :: rest => do
      let item ← item.value? depth
      let rest ← itemValues depth rest
      return item :: rest
  memberValues (depth : Nat) : List (Option String × Raw) → Option (List (String × Json))
    | [] => some []
    | (key, value) :: rest => do
      let key ← key
      let value ← value.value? depth
      let rest ← memberValues depth rest
      return (key, value) :: rest

/-- The value of a text that is read whole. -/
def parse? (s : String) : Option Json :=
  readRaw s >>= Raw.value? maxDepth

/-! ## Shapes -/

/-- Which parts of a value are asked for: all of it; the named members of a record; every item of
a list or value of a map by one shape. -/
inductive Shape
  | whole
  | record (members : List (String × Shape))
  | list (item : Shape)
  | map (value : Shape)
  deriving Repr, Inhabited

/-- The value of a raw tree as far as a shape asks for it. -/
def Raw.shaped? (depth : Nat) (shape : Shape) : Raw → Option Json
  | .arr items =>
    match depth, shape with
    | 0, _ => none
    | depth + 1, .record shapes => (fieldValues depth (shapes.map Prod.snd) items).map Json.arr
    | depth + 1, .list item => (itemValues depth item items).map Json.arr
    | depth + 1, _ => (Raw.value?.itemValues depth items).map Json.arr
  | .obj members =>
    match depth, shape with
    | 0, _ => none
    | depth + 1, .record shapes => (recordValues depth shapes members).map Json.obj
    | depth + 1, .map value => (mapValues depth value members).map Json.obj
    | depth + 1, _ => (Raw.value?.memberValues depth members).map Json.obj
  | leaf => leaf.value? depth
where
  /-- The fields of a record that is written as a list. -/
  fieldValues (depth : Nat) (shapes : List Shape) : List Raw → Option (List Json)
    | [] => some []
    | item :: rest => do
      let item ← Raw.shaped? depth (shapes.headD .whole) item
      let rest ← fieldValues depth shapes.tail rest
      return item :: rest
  itemValues (depth : Nat) (shape : Shape) : List Raw → Option (List Json)
    | [] => some []
    | item :: rest => do
      let item ← Raw.shaped? depth shape item
      let rest ← itemValues depth shape rest
      return item :: rest
  /-- The members of a record that are asked for. -/
  recordValues (depth : Nat) (shapes : List (String × Shape)) :
      List (Option String × Raw) → Option (List (String × Json))
    | [] => some []
    | (key, value) :: rest => do
      let key ← key
      match shapes.lookup key with
      | none => recordValues depth shapes rest
      | some shape =>
        let value ← Raw.shaped? depth shape value
        let rest ← recordValues depth shapes rest
        return (key, value) :: rest
  mapValues (depth : Nat) (shape : Shape) :
      List (Option String × Raw) → Option (List (String × Json))
    | [] => some []
    | (key, value) :: rest => do
      let key ← key
      let value ← Raw.shaped? depth shape value
      let rest ← mapValues depth shape rest
      return (key, value) :: rest

/-- The value of a text as far as a shape asks for it. -/
def parseAs? (shape : Shape) (s : String) : Option Json :=
  readRaw s >>= Raw.shaped? maxDepth shape

end TxGraph.Json
