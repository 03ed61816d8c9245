import Mathlib.Tactic.Ring
import TxGraph.Bytes.Leb128

/-!
# Bytes and what they encode

Texts, numbers of a fixed width and lengths are read back from their bytes, whatever comes after, and
texts and numbers have no other bytes. The mark of a length is as short as it can be; no other mark
of at most nine bytes is.
-/

namespace TxGraph

namespace Bytes

theorem toText?_ofText (s : String) : toText? (ofText s) = some s := by
  have hbytes : (⟨(ofText s).toArray⟩ : ByteArray) = s.toByteArray := by
    simp [ofText]
  simp [toText?, hbytes, String.fromUTF8?, String.fromUTF8, s.isValidUTF8]

theorem length_ofNatLE (width n : Nat) : (ofNatLE width n).length = width := by
  induction width generalizing n with
  | zero => rfl
  | succ width ih => simp [ofNatLE, ih]

theorem toNatLE_ofNatLE {width n : Nat} (h : n < 256 ^ width) : toNatLE (ofNatLE width n) = n := by
  induction width generalizing n with
  | zero =>
    rw [Nat.pow_zero] at h
    simp only [ofNatLE, toNatLE]
    omega
  | succ width ih =>
    have hrest : n / 256 < 256 ^ width := by
      rw [Nat.pow_succ] at h
      exact Nat.div_lt_of_lt_mul (by omega)
    simp only [ofNatLE, toNatLE, ih hrest, UInt8.toNat_ofNat']
    omega

theorem toNatLE_lt (bs : Bytes) : bs.toNatLE < 256 ^ bs.length := by
  induction bs with
  | nil => decide
  | cons b bs ih =>
    have hb : b.toNat < 256 := b.toNat_lt
    rw [toNatLE, List.length_cons, Nat.pow_succ]
    omega

theorem ofNatLE_toNatLE (bs : Bytes) : ofNatLE bs.length bs.toNatLE = bs := by
  induction bs with
  | nil => rfl
  | cons b bs ih =>
    have hb : b.toNat < 256 := b.toNat_lt
    rw [List.length_cons, toNatLE, ofNatLE, show (b.toNat + 256 * toNatLE bs) % 256 = b.toNat by omega,
      show (b.toNat + 256 * toNatLE bs) / 256 = toNatLE bs by omega, UInt8.ofNat_toNat, ih]

theorem ofText_of_toText? {bs : Bytes} {s : String} (h : bs.toText? = some s) : ofText s = bs := by
  unfold toText? String.fromUTF8? at h
  split at h
  case isTrue hvalid =>
    cases h
    simp [ofText, String.fromUTF8]
  case isFalse => cases h

end Bytes

namespace Leb128

variable {n fuel value shift : Nat} {bs rest mark : Bytes}

theorem lt_pow_of_fuel (n : Nat) : n < 128 ^ (n.log2 / 7 + 1) := by
  have hlog : n < 2 ^ (n.log2 + 1) := Nat.lt_log2_self
  calc n < 2 ^ (n.log2 + 1) := hlog
    _ ≤ 2 ^ (7 * (n.log2 / 7 + 1)) := Nat.pow_le_pow_right (by decide) (by omega)
    _ = 128 ^ (n.log2 / 7 + 1) := by rw [Nat.pow_mul]

theorem div_lt_pow (h : n < 128 ^ (fuel + 2)) : n / 128 < 128 ^ (fuel + 1) := by
  rw [Nat.pow_succ] at h
  exact Nat.div_lt_of_lt_mul (by omega)

/-- The groups that follow are read at the next seven bits. No group is cut off while the number
fits in a word. -/
theorem decodeFrom_encodeFuel (rest : Bytes) (hfuel : n < 128 ^ (fuel + 1)) (hshift : shift < 64)
    (hword : n * 2 ^ shift < Word.max64 + 1) :
    decodeFrom value shift (encodeFuel fuel n ++ rest) = .ok (value + n * 2 ^ shift, rest) := by
  induction fuel generalizing n value shift with
  | zero =>
    have hsmall : n < 128 := by simpa using hfuel
    have hbyte : (UInt8.ofNat (n % 128)).toNat = n := by
      rw [UInt8.toNat_ofNat']
      omega
    simp only [encodeFuel, List.singleton_append, decodeFrom, hbyte, Nat.pow_eq]
    rw [if_neg (by omega), if_pos hsmall, Nat.mod_eq_of_lt hsmall, Nat.mod_eq_of_lt hword]
  | succ fuel ih =>
    simp only [encodeFuel]
    split
    case isTrue hsmall =>
      have hbyte : (UInt8.ofNat n).toNat = n := by
        rw [UInt8.toNat_ofNat']
        omega
      simp only [List.singleton_append, decodeFrom, hbyte, Nat.pow_eq]
      rw [if_neg (by omega), if_pos hsmall, Nat.mod_eq_of_lt hsmall, Nat.mod_eq_of_lt hword]
    case isFalse hlarge =>
      have hbyte : (UInt8.ofNat (n % 128 + 128)).toNat = n % 128 + 128 := by
        rw [UInt8.toNat_ofNat']
        omega
      have hpow : 2 ^ (shift + 7) = 128 * 2 ^ shift := by
        rw [Nat.pow_add]
        omega
      have hsplit : n * 2 ^ shift = n % 128 * 2 ^ shift + n / 128 * 2 ^ (shift + 7) := by
        conv_lhs => rw [← Nat.mod_add_div n 128]
        rw [hpow]
        ring
      have hnext : shift + 7 < 64 := by
        by_contra hover
        have hbig : Word.max64 + 1 ≤ 2 ^ (shift + 7) :=
          Nat.pow_le_pow_right (n := 2) (i := 64) (by decide) (by omega)
        have hmany : 2 ^ (shift + 7) ≤ n / 128 * 2 ^ (shift + 7) :=
          Nat.le_mul_of_pos_left _ (by omega)
        omega
      simp only [List.cons_append, decodeFrom, hbyte, Nat.pow_eq]
      rw [if_neg (by omega), if_neg (by omega), show (n % 128 + 128) % 128 = n % 128 by omega,
        Nat.mod_eq_of_lt (show n % 128 * 2 ^ shift < Word.max64 + 1 by omega),
        ih (div_lt_pow hfuel) hnext (by omega), hsplit, Nat.add_assoc]

theorem decode_encode (h : n ≤ Word.max64) (rest : Bytes) :
    decode (encode n ++ rest) = .ok (n, rest) := by
  have hword : n * 2 ^ 0 < Word.max64 + 1 := by omega
  have hread : decodeFrom 0 0 (encode n ++ rest) = .ok (0 + n * 2 ^ 0, rest) :=
    decodeFrom_encodeFuel rest (lt_pow_of_fuel n) (by decide) hword
  simpa [decode] using hread

theorem encodeFuel_ne_nil (fuel n : Nat) : encodeFuel fuel n ≠ [] := by
  cases fuel <;> simp only [encodeFuel]
  · simp
  · split <;> simp

theorem length_encodeFuel_le {k : Nat} (h : n < 128 ^ (k + 1)) :
    (encodeFuel fuel n).length ≤ k + 1 := by
  induction fuel generalizing n k with
  | zero => simp [encodeFuel]
  | succ fuel ih =>
    simp only [encodeFuel]
    split
    · simp
    case isFalse hlarge =>
      cases k with
      | zero => simp at h; omega
      | succ k =>
        have := ih (div_lt_pow h)
        simp only [List.length_cons]
        omega

/-- The last group of a number is empty only if the number is zero. -/
theorem getLast?_encodeFuel (hfuel : n < 128 ^ (fuel + 1)) (hn : 0 < n) :
    (encodeFuel fuel n).getLast? ≠ some 0 := by
  have hbyte {m : Nat} (hm : 0 < m) (hlt : m < 128) : UInt8.ofNat m ≠ 0 := by
    intro h
    have := congrArg UInt8.toNat h
    rw [UInt8.toNat_ofNat'] at this
    simp at this
    omega
  induction fuel generalizing n with
  | zero =>
    have hsmall : n < 128 := by simpa using hfuel
    simpa [encodeFuel, Nat.mod_eq_of_lt hsmall] using hbyte hn hsmall
  | succ fuel ih =>
    simp only [encodeFuel]
    split
    case isTrue hsmall => simpa using hbyte hn hsmall
    case isFalse hlarge =>
      rw [List.getLast?_cons_of_ne_nil (encodeFuel_ne_nil _ _)]
      exact ih (div_lt_pow hfuel) (by omega)

theorem encode_minimal (h : 1 < (encode n).length) : (encode n).getLast? ≠ some 0 := by
  refine getLast?_encodeFuel (lt_pow_of_fuel n) ?_
  rcases Nat.eq_zero_or_pos n with rfl | hn
  · simp [encode, encodeFuel] at h
  · exact hn

/-! ## Marks

A mark is what a reader takes for a length. Marks that are longer than they need to be are read too,
and so are marks with more bits than a word has.
-/

theorem exists_mark_of_decodeFrom (h : decodeFrom value shift bs = .ok (n, rest)) :
    ∃ mark, bs = mark ++ rest ∧ decodeFrom value shift mark = .ok (n, []) := by
  induction bs generalizing value shift with
  | nil => cases h
  | cons b bs ih =>
    rw [decodeFrom] at h
    split at h
    case isTrue => cases h
    case isFalse hshift =>
      dsimp only at h
      split at h
      case isTrue hlast =>
        cases h
        exact ⟨[b], rfl, by rw [decodeFrom, if_neg hshift, if_pos hlast]⟩
      case isFalse hmore =>
        obtain ⟨mark, rfl, hmark⟩ := ih h
        exact ⟨b :: mark, rfl, by rw [decodeFrom, if_neg hshift, if_neg hmore, hmark]⟩

theorem decodeFrom_append (h : decodeFrom value shift mark = .ok (n, [])) (rest : Bytes) :
    decodeFrom value shift (mark ++ rest) = .ok (n, rest) := by
  induction mark generalizing value shift with
  | nil => cases h
  | cons b mark ih =>
    rw [decodeFrom] at h
    rw [List.cons_append, decodeFrom]
    split at h
    case isTrue => cases h
    case isFalse hshift =>
      rw [if_neg hshift]
      dsimp only at h ⊢
      split at h
      case isTrue hlast =>
        cases h
        rw [if_pos hlast, List.nil_append]
      case isFalse hmore => rw [if_neg hmore, ih h]

/-- A length is a word: the bits below `shift` are known, and of those above only the ones within
the word are kept. -/
theorem le_max64_of_decodeFrom (hvalue : value < 2 ^ shift)
    (h : decodeFrom value shift bs = .ok (n, rest)) : n ≤ Word.max64 := by
  induction bs generalizing value shift with
  | nil => cases h
  | cons b bs ih =>
    rw [decodeFrom] at h
    split at h
    case isTrue => cases h
    case isFalse hshift =>
      have hpow : Word.max64 + 1 = 2 ^ shift * 2 ^ (64 - shift) := by
        rw [← Nat.pow_add, show shift + (64 - shift) = 64 by omega]
        decide
      have hmod : b.toNat % 128 * Nat.pow 2 shift % (Word.max64 + 1) =
          2 ^ shift * (b.toNat % 128 % 2 ^ (64 - shift)) := by
        rw [hpow, Nat.mul_comm, Nat.pow_eq, Nat.mul_mod_mul_left]
      have hgroup := Nat.mod_le (b.toNat % 128) (2 ^ (64 - shift))
      have hgroup' := Nat.mod_lt (b.toNat % 128) (Nat.two_pow_pos (64 - shift))
      rw [hmod] at h
      generalize b.toNat % 128 % 2 ^ (64 - shift) = group at h hgroup hgroup'
      dsimp only at h
      split at h
      case isTrue =>
        cases h
        have hbelow : 2 ^ shift * (group + 1) ≤ 2 ^ shift * 2 ^ (64 - shift) :=
          Nat.mul_le_mul_left _ hgroup'
        rw [Nat.mul_add] at hbelow
        omega
      case isFalse =>
        refine ih ?_ h
        have hseven : 2 ^ shift * (group + 1) ≤ 2 ^ shift * 128 := Nat.mul_le_mul_left _ (by omega)
        rw [Nat.pow_add, Nat.mul_add] at *
        omega

theorem le_max64_of_decode (h : decode bs = .ok (n, rest)) : n ≤ Word.max64 :=
  le_max64_of_decodeFrom (Nat.two_pow_pos 0) h

/-- A mark within the word whose last group is not empty has the groups of its number. -/
theorem eq_encodeFuel_of_decodeFrom (h : decodeFrom value shift mark = .ok (n, []))
    (hroom : shift + 7 * mark.length ≤ 64) (hlast : mark.getLast? ≠ some 0) :
    ∃ k, 0 < k ∧ n = value + k * 2 ^ shift ∧
      ∀ fuel, k < 128 ^ (fuel + 1) → mark = encodeFuel fuel k := by
  induction mark generalizing value shift with
  | nil => cases h
  | cons b mark ih =>
    have hb : b.toNat < 256 := b.toNat_lt
    rw [List.length_cons] at hroom
    have hgroup : b.toNat % 128 * Nat.pow 2 shift % (Word.max64 + 1) = b.toNat % 128 * 2 ^ shift := by
      refine Nat.mod_eq_of_lt ?_
      calc b.toNat % 128 * 2 ^ shift < 128 * 2 ^ shift :=
            Nat.mul_lt_mul_of_pos_right (Nat.mod_lt _ (by decide)) (Nat.two_pow_pos shift)
        _ = 2 ^ (shift + 7) := by rw [Nat.pow_add, Nat.mul_comm]
        _ ≤ 2 ^ 64 := Nat.pow_le_pow_right (by decide) (by omega)
    rw [decodeFrom, if_neg (by omega), hgroup] at h
    dsimp only at h
    split at h
    case isTrue hsmall =>
      cases h
      have hpos : 0 < b.toNat := by
        refine Nat.pos_of_ne_zero fun hzero => hlast ?_
        rw [List.getLast?_singleton, ← UInt8.ofNat_toNat (x := b), hzero]
        rfl
      refine ⟨b.toNat, hpos, by rw [Nat.mod_eq_of_lt hsmall], fun fuel _ => ?_⟩
      cases fuel with
      | zero => rw [encodeFuel, Nat.mod_eq_of_lt hsmall, UInt8.ofNat_toNat]
      | succ fuel => rw [encodeFuel, if_pos hsmall, UInt8.ofNat_toNat]
    case isFalse hlarge =>
      have hne : mark ≠ [] := by
        rintro rfl
        cases h
      rw [List.getLast?_cons_of_ne_nil hne] at hlast
      obtain ⟨k, hk, rfl, hencode⟩ := ih h (by omega) hlast
      refine ⟨b.toNat % 128 + 128 * k, by omega, by ring, fun fuel hfuel => ?_⟩
      cases fuel with
      | zero => omega
      | succ fuel =>
        have hk' : k < 128 ^ (fuel + 1) := by
          have := div_lt_pow hfuel
          omega
        rw [encodeFuel, if_neg (by omega), hencode fuel hk',
          show (b.toNat % 128 + 128 * k) % 128 + 128 = b.toNat by omega,
          show (b.toNat % 128 + 128 * k) / 128 = k by omega, UInt8.ofNat_toNat]

/-- A mark within the word that could not be shorter is the one that is written. -/
theorem eq_encode_of_minimal (h : decode mark = .ok (n, [])) (hroom : mark.length ≤ 9)
    (hminimal : 1 < mark.length → mark.getLast? ≠ some 0) : mark = encode n := by
  by_cases hlast : mark.getLast? = some 0
  · -- only zero is written with an empty last group
    have hone : mark.length ≤ 1 := Nat.le_of_not_lt fun hlong => hminimal hlong hlast
    obtain ⟨front, rfl⟩ := List.getLast?_eq_some_iff.mp hlast
    rw [List.length_append, List.length_singleton] at hone
    obtain rfl := List.eq_nil_of_length_eq_zero (show front.length = 0 by omega)
    cases h
    decide
  · obtain ⟨k, -, rfl, hencode⟩ := eq_encodeFuel_of_decodeFrom h (by omega) hlast
    rw [Nat.zero_add, Nat.pow_zero, Nat.mul_one]
    exact hencode _ (lt_pow_of_fuel k)

end Leb128

end TxGraph
