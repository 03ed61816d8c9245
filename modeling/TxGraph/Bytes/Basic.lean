/-!
# Byte strings

A byte string is a list of bytes. Text becomes bytes by UTF-8 and is read back only from valid
UTF-8. Numbers of a fixed width are little endian.
-/

namespace TxGraph

abbrev Bytes := List UInt8

namespace Bytes

def ofText (s : String) : Bytes :=
  s.toUTF8.data.toList

/-- The text whose UTF-8 form this is. -/
def toText? (bs : Bytes) : Option String :=
  String.fromUTF8? ⟨bs.toArray⟩

/-- The low `width` bytes of `n`, least first. -/
def ofNatLE : (width : Nat) → (n : Nat) → Bytes
  | 0, _ => []
  | width + 1, n => UInt8.ofNat (n % 256) :: ofNatLE width (n / 256)

/-- The number whose bytes, least first, are these. -/
def toNatLE : Bytes → Nat
  | [] => 0
  | b :: bs => b.toNat + 256 * toNatLE bs

/-- The first `n` bytes and the rest, when there are that many. -/
def take? (n : Nat) (bs : Bytes) : Option (Bytes × Bytes) :=
  if n ≤ bs.length then some (bs.take n, bs.drop n) else none

end Bytes

end TxGraph
