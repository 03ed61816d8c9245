import TxGraph.Basic
import TxGraph.Bytes.Basic

/-!
# LEB128 lengths

Seven bits a byte, least first; the high bit says that more follow. A length is a 64-bit word:
the reader takes at most ten bytes and loses what is shifted out of the word.
-/

namespace TxGraph.Leb128

/-- The seven-bit groups of `n`; `fuel` is the most bytes that may follow the first. -/
def encodeFuel : (fuel : Nat) → (n : Nat) → Bytes
  | 0, n => [UInt8.ofNat (n % 128)]
  | fuel + 1, n =>
    if n < 128 then [UInt8.ofNat n]
    else UInt8.ofNat (n % 128 + 128) :: encodeFuel fuel (n / 128)

/-- The bytes of a number. A number below `2 ^ (7 * k)` takes at most `k` of them. -/
def encode (n : Nat) : Bytes :=
  encodeFuel (n.log2 / 7) n

inductive ReadError
  | truncated
  | overflow
  deriving DecidableEq, Repr

/-- Reads a word whose lower bits `value`, up to bit `shift`, are already known. -/
def decodeFrom (value shift : Nat) : Bytes → Except ReadError (Nat × Bytes)
  | [] => .error .truncated
  | b :: rest =>
    if 64 ≤ shift then .error .overflow
    else
      let value := value + (b.toNat % 128 * Nat.pow 2 shift) % (Word.max64 + 1)
      if b.toNat < 128 then .ok (value, rest) else decodeFrom value (shift + 7) rest

/-- A length and the bytes after it. -/
def decode (bs : Bytes) : Except ReadError (Nat × Bytes) :=
  decodeFrom 0 0 bs

end TxGraph.Leb128
