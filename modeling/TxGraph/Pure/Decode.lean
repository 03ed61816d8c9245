import TxGraph.DataType.Move
import TxGraph.Json.Basic
import TxGraph.Pure.Encode

/-!
# Decoding pure values

Bytes are read back at a Move type into plain data: numbers as decimal texts, addresses and ids in
full, texts as they are. All bytes must be used.
-/

namespace TxGraph.PureValue

/-- The first `n` bytes, which hold a part of a value, and the rest. -/
def takePart (n : Nat) (part : EncodedPart) (bs : Bytes) : Except EncodeError (Bytes × Bytes) :=
  match bs.take? n with
  | some split => .ok split
  | none => .error (.truncated part)

/-- A length mark, and the bytes after it. -/
def decodeLength (bs : Bytes) : Except EncodeError (Nat × Bytes) :=
  match Leb128.decode bs with
  | .ok found => .ok found
  | .error .truncated => .error (.truncated .lengthMark)
  | .error .overflow => .error .lengthOverflow

def decodeAddress (bs : Bytes) : Except EncodeError (Json × Bytes) := do
  let (raw, rest) ← takePart 32 .address bs
  return (.str (Address.format raw), rest)

def decodeBool (spelling : String) (bs : Bytes) : Except EncodeError (Json × Bytes) := do
  let (raw, rest) ← takePart 1 .bool bs
  if raw = [0] then return (.bool false, rest)
  else if raw = [1] then return (.bool true, rest)
  else .error (.malformed spelling .boolByte)

/-- The most bytes that the length mark of a text may have. -/
def maxTextMark : Nat := 5

/-- A text. Its length mark has no more bytes than it needs. -/
def decodeString (spelling : String) (bs : Bytes) : Except EncodeError (Json × Bytes) := do
  let (length, after) ← decodeLength bs
  let (raw, rest) ← takePart length .string after
  let mark := bs.take (bs.length - after.length)
  if maxTextMark < mark.length || Word.max32 < length then
    .error (.malformed spelling .lengthTooLarge)
  else if 1 < mark.length && mark.getLast? == some 0 then
    .error (.malformed spelling .lengthNotMinimal)
  else if maxText < length then .error (.malformed spelling (.exceeded length))
  else
    match raw.toText? with
    | some s => return (.str s, rest)
    | none => .error (.malformed spelling .notText)

/-- Reads `count` values one after the other. -/
def decodeMany (read : Bytes → Except EncodeError (Json × Bytes)) :
    (count : Nat) → Bytes → Except EncodeError (List Json × Bytes)
  | 0, bs => .ok ([], bs)
  | count + 1, bs => do
    let (value, rest) ← read bs
    let (values, rest) ← decodeMany read count rest
    return (value :: values, rest)

/-- A value of a type at the front of the bytes. `total` is the length of the whole input, which no
vector can exceed. -/
def decodeValue (total : Nat) : (type : DataType) → (spelling : String) → Bytes →
    Except EncodeError (Json × Bytes)
  | .scalar .bool, spelling, bs => decodeBool spelling bs
  | .scalar .address, _, bs => decodeAddress bs
  | .scalar .string, spelling, bs => decodeString spelling bs
  | .integer width, _, bs => do
    let (raw, rest) ← takePart width.byteSize (.integer width) bs
    return (.str raw.toDecimal, rest)
  | .vector elem, spelling, bs => do
    let (length, rest) ← decodeLength bs
    if total < length then .error (.malformed spelling .lengthTooLong)
    else
      let (values, rest) ←
        decodeMany (decodeValue total elem (elem.moveSpelling?.getD "")) length rest
      return (.arr values, rest)
  | .object tag, spelling, bs =>
    if tag = some DataType.idTag then decodeAddress bs else .error (.typeNotPure spelling)
  | _, spelling, _ => .error (.typeNotPure spelling)

/-- The value that the bytes encode at a Move type. -/
def decode (spelling : String) (bs : Bytes) : Except EncodeError Json := do
  let (value, rest) ← decodeValue bs.length (DataType.ofMove spelling) spelling bs
  if rest.isEmpty then return value else .error (.trailingBytes rest.length)

/-- The decoded value, or the bytes in hexadecimal where there is no type or they do not decode. -/
def canonical (type : Option String) (bs : Bytes) : Json :=
  match type.map fun spelling => decode spelling bs with
  | some (.ok value) => value
  | _ => .str ("0x" ++ Hex.encode bs)

end TxGraph.PureValue
