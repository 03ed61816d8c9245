import TxGraph.Bytes.Varint
import TxGraph.Proofs.Bytes

/-!
# Variable-length integers read back

A number is read off the front of whatever follows it, and not from a part of its own bytes.
-/

namespace TxGraph

theorem Bytes.take?_append {n : Nat} {bs : Bytes} (h : bs.length = n) (rest : Bytes) :
    take? n (bs ++ rest) = some (bs, rest) := by
  subst h
  simp [take?]

theorem Bytes.take?_eq_none {n : Nat} {bs : Bytes} (h : bs.length < n) : take? n bs = none :=
  if_neg (Nat.not_le_of_lt h)

namespace Varint

variable {n size : Nat}

theorem decode?_small (h : n < 251) (limit : Nat) (rest : Bytes) :
    decode? limit (UInt8.ofNat n :: rest) = some (n, rest) := by
  have hn : (UInt8.ofNat n).toNat = n := UInt8.toNat_ofNat_of_lt (by show n < 256; omega)
  rw [decode?, hn, if_pos h]

theorem not_lt_of_markedSize? {mark : Nat} (h : markedSize? mark = some size) : ¬ mark < 251 := by
  intro hlt
  simp [markedSize?, show mark ≠ 251 by omega, show mark ≠ 252 by omega,
    show mark ≠ 253 by omega] at h

theorem decode?_marked {mark : UInt8} {limit : Nat} (hsize : markedSize? mark.toNat = some size)
    (hlimit : size ≤ limit) {bs : Bytes} (hbs : bs.length = size) (rest : Bytes) :
    decode? limit (mark :: bs ++ rest) = some (bs.toNatLE, rest) := by
  have hmark := not_lt_of_markedSize? hsize
  simp [decode?, hmark, hsize, Nat.not_lt_of_le hlimit, Bytes.take?_append hbs]

theorem decode?_marked_cut {mark : UInt8} (hsize : markedSize? mark.toNat = some size)
    (limit : Nat) {bs : Bytes} (hbs : bs.length < size) : decode? limit (mark :: bs) = none := by
  have hmark := not_lt_of_markedSize? hsize
  simp [decode?, hmark, hsize, Bytes.take?_eq_none hbs]

/-- A number is one small byte, or a mark and bytes that hold the number. -/
theorem encode_cases (h : n ≤ Word.max64) :
    n < 251 ∧ encode n = [UInt8.ofNat n] ∨
      ∃ mark size, markedSize? mark.toNat = some size ∧ size ≤ 8 ∧ n < 256 ^ size ∧
        encode n = mark :: Bytes.ofNatLE size n := by
  unfold encode
  split
  case isTrue hsmall => exact .inl ⟨hsmall, rfl⟩
  case isFalse =>
    right
    split
    case isTrue h16 => exact ⟨251, 2, rfl, by decide, Nat.lt_succ_of_le h16, rfl⟩
    case isFalse =>
      split
      case isTrue h32 => exact ⟨252, 4, rfl, by decide, Nat.lt_succ_of_le h32, rfl⟩
      case isFalse => exact ⟨253, 8, rfl, by decide, Nat.lt_succ_of_le h, rfl⟩

theorem decode?_encode (h : n ≤ Word.max64) (rest : Bytes) :
    decode? 8 (encode n ++ rest) = some (n, rest) := by
  obtain ⟨hsmall, hn⟩ | ⟨mark, size, hsize, hlimit, hlt, hn⟩ := encode_cases h
  · rw [hn]
    exact decode?_small hsmall 8 rest
  · rw [hn, decode?_marked hsize hlimit (Bytes.length_ofNatLE size n),
      Bytes.toNatLE_ofNatLE hlt]

theorem decode?_cut (h : n ≤ Word.max64) (limit : Nat) {c : Bytes} (hc : c <+: encode n)
    (hne : c ≠ encode n) : decode? limit c = none := by
  cases c with
  | nil => rfl
  | cons b c =>
    obtain ⟨-, hn⟩ | ⟨mark, size, hsize, -, -, hn⟩ := encode_cases h
    · rw [hn, List.cons_prefix_cons, List.prefix_nil] at hc
      exact absurd (by rw [hn, hc.1, hc.2]) hne
    · rw [hn, List.cons_prefix_cons] at hc
      obtain ⟨rfl, hc⟩ := hc
      refine decode?_marked_cut hsize limit ?_
      have hle := hc.length_le
      rw [Bytes.length_ofNatLE] at hle
      refine Nat.lt_of_le_of_ne hle fun heq => hne ?_
      rw [hn, hc.eq_of_length (by rw [Bytes.length_ofNatLE, heq])]

theorem encode_ne_nil (n : Nat) : encode n ≠ [] := by
  unfold encode
  grind

end Varint

end TxGraph
