import TxGraph.Basic
import TxGraph.Bytes.Basic

/-!
# Variable-length integers

A number below 251 is one byte. A mark 251, 252 or 253 says that the number follows in two, four or
eight bytes, least first. A reader takes a longer form than is needed, but none longer than the
word it reads.
-/

namespace TxGraph.Varint

def encode (n : Nat) : Bytes :=
  if n < 251 then [UInt8.ofNat n]
  else if n ≤ Word.max16 then 251 :: Bytes.ofNatLE 2 n
  else if n ≤ Word.max32 then 252 :: Bytes.ofNatLE 4 n
  else 253 :: Bytes.ofNatLE 8 n

/-- The number of bytes that follow a mark. -/
def markedSize? (mark : Nat) : Option Nat :=
  if mark = 251 then some 2
  else if mark = 252 then some 4
  else if mark = 253 then some 8
  else none

/-- A number in at most `limit` bytes after the mark, and the bytes after it. -/
def decode? (limit : Nat) : Bytes → Option (Nat × Bytes)
  | [] => none
  | b :: rest =>
    if b.toNat < 251 then some (b.toNat, rest)
    else do
      let size ← markedSize? b.toNat
      if limit < size then none
      else
        let (raw, rest) ← Bytes.take? size rest
        return (raw.toNatLE, rest)

/-- A length is a word of eight bytes. -/
def length? : Bytes → Option (Nat × Bytes) := decode? 8

/-- The number of an alternative is a word of four bytes. -/
def alternative? : Bytes → Option (Nat × Bytes) := decode? 4

end TxGraph.Varint
