import TxGraph.Bytes.Hex
import TxGraph.Text.Basic
import TxGraph.Text.Lowercase

/-!
# Addresses

An address is 32 bytes, written as `0x` and hexadecimal digits, with leading zeros optional. Two
readings exist. The strict one yields the bytes and refuses what is not hexadecimal. The lenient
one, used for looking things up, only brings a text to 64 lower-case characters; it fails when
cutting a longer text at 64 bytes would split a character.
-/

namespace TxGraph.Address

/-- The text of an address that cannot be cut at 64 bytes. -/
structure Uncut where
  text : String
  deriving DecidableEq, Repr

def Uncut.message (e : Uncut) : String :=
  "Address '" ++ e.text ++ "' has no first 64 bytes"

/-- The digits of a written address. -/
def digits (s : String) : List Char :=
  match (Text.trim s).toList with
  | '0' :: 'x' :: rest => rest
  | '0' :: 'X' :: rest => rest
  | cs => cs

/-- The number of digits, and of bytes of UTF-8, that a full address has. -/
def fullLength : Nat := 64

/-- Zeros in front, up to 64 characters. -/
def pad (cs : List Char) : List Char :=
  List.replicate (fullLength - cs.length) '0' ++ cs

/-- The characters that make up exactly the first `n` bytes. -/
def takeBytes? : (n : Nat) → List Char → Option (List Char)
  | 0, _ => some []
  | _ + 1, [] => some []
  | n + 1, c :: cs =>
    if c.utf8Size ≤ n + 1 then (takeBytes? (n + 1 - c.utf8Size) cs).map (c :: ·) else none

def byteLength (cs : List Char) : Nat :=
  cs.foldl (fun n c => n + c.utf8Size) 0

/-- The text by which an address is looked up. -/
def normalize (s : String) : Except Uncut String :=
  let cs := Text.lowerFrom [] (digits s)
  if byteLength cs < fullLength then .ok (String.ofList ('0' :: 'x' :: pad cs))
  else
    match takeBytes? fullLength cs with
    | some front => .ok (String.ofList ('0' :: 'x' :: front))
    | none => .error ⟨s⟩

/-- The 32 bytes of a written address. -/
def parse? (s : String) : Option Bytes :=
  let cs := digits s
  if cs.isEmpty || fullLength < byteLength cs then none
  else Hex.decodeChars (pad cs)

/-- The full form of an address. -/
def format (bs : Bytes) : String :=
  "0x" ++ Hex.encode bs

end TxGraph.Address
