import TxGraph.DataType.Basic
import TxGraph.Text.Basic

/-!
# Reading Move types

Signatures and pure inputs name their types in Move's spelling. Every text has a type: what is not
recognised is unknown, and a struct tag is an object that carries the tag with its address
shortened.
-/

namespace TxGraph.DataType

/-- The text without a leading reference mark. -/
def stripReference (cs : List Char) : List Char :=
  match "&mut ".toList.isPrefixOf? cs with
  | some rest => Text.trimRight (Text.trimLeft rest)
  | none =>
    match cs with
    | '&' :: rest => Text.trimRight (Text.trimLeft rest)
    | _ => cs

/-- Splits at the first double colon. -/
def splitPath : List Char → Option (List Char × List Char)
  | ':' :: ':' :: rest => some ([], rest)
  | c :: rest => (splitPath rest).map fun (front, back) => (c :: front, back)
  | [] => none

/-- The digits of an address after its marks. -/
def stripHexMarks : List Char → List Char
  | '0' :: 'x' :: rest => stripHexMarks rest
  | cs => cs

/-- A tag without blanks and with the short form of its address. -/
def normalizeTag (cs : List Char) : String :=
  let tag := cs.filter fun c => !Text.isBlank c
  match splitPath tag with
  | none => String.ofList tag
  | some (address, rest) =>
    let digits := (stripHexMarks address).dropWhile (· == '0')
    String.ofList ("0x".toList ++ (if digits.isEmpty then ['0'] else digits) ++ "::".toList ++ rest)

/-- The width that a lower-case name spells. Any spelling of the number of bits will do. -/
def widthOf? : List Char → Option Width
  | 'u' :: bits => (Text.natUpTo? Word.max32 bits).bind Width.ofBits?
  | _ => none

/-- What stands between the angle brackets of a vector. -/
def vectorElem? (cs : List Char) : Option (List Char) :=
  match "vector".toList.isPrefixOf? (cs.map Char.toLower) with
  | none => none
  | some _ =>
    match Text.trimLeft (cs.drop 6) with
    | '<' :: inner => if inner.getLast? == some '>' then some inner.dropLast else none
    | _ => none

/-- Names of type parameters: a capital letter, then letters, digits and underscores. -/
def isParamName : List Char → Bool
  | c :: rest => c.isUpper && rest.all fun c => c.isAlphanum || c == '_'
  | [] => false

/-- The type of a trimmed spelling that is no vector. -/
def ofPlain (cs : List Char) : DataType :=
  match String.ofList (cs.map Char.toLower) with
  | "bool" => bool
  | "address" => address
  | "signer" => unknown
  | _ =>
    match widthOf? (cs.map Char.toLower) with
    | some width => integer width
    | none =>
      if (splitPath cs).isSome then
        let tag := normalizeTag cs
        if tag == stringTag || tag == asciiStringTag then string else objectOf tag
      else if isParamName cs then typeParam (String.ofList cs)
      else unknown

/-- The type of a spelling; each vector uses one unit of fuel. -/
def ofMoveChars : (fuel : Nat) → List Char → DataType
  | 0, _ => unknown
  | fuel + 1, cs =>
    let cs := stripReference (Text.trimRight (Text.trimLeft cs))
    match vectorElem? cs with
    | some elem => vector (ofMoveChars fuel elem)
    | none => ofPlain cs

/-- The type that a Move spelling names. -/
def ofMove (spelling : String) : DataType :=
  let cs := spelling.toList
  ofMoveChars (cs.length + 1) cs

/-- Whether the spelling names the transaction context, by value or by reference. -/
def isTxContext (spelling : String) : Bool :=
  normalizeTag (stripReference (Text.trim spelling).toList) == txContextTag

end TxGraph.DataType
