import TxGraph.Proofs.Text
import TxGraph.Transaction.Builder

/-!
# Addresses and their full forms

A text that is strictly an address is also normalized, to the full form of its bytes
(`normalize_of_parse?`), and a full form is read back (`parse?_format`). So the full forms that a
transaction records are left alone by further normalization.
-/

namespace TxGraph

variable {text id : String}

/-! ## Hexadecimal digits -/

namespace Hex

theorem digitValue?_lt_128 {c : Char} {v : Nat} (h : digitValue? c = some v) : c.toNat < 128 := by
  have le (a b : Char) (hab : a ≤ b) : a.toNat ≤ b.toNat := hab
  unfold digitValue? at h
  split at h
  · rename_i hc
    exact Nat.lt_of_le_of_lt (le _ _ hc.2) (by decide)
  · split at h
    · rename_i hc
      exact Nat.lt_of_le_of_lt (le _ _ hc.2) (by decide)
    · split at h
      · rename_i hc
        exact Nat.lt_of_le_of_lt (le _ _ hc.2) (by decide)
      · cases h

/-- What a digit is: below sixteen, written back in lower case, and no blank. -/
def IsDigitOf (c : Char) (v : Nat) : Prop :=
  v < 16 ∧ digit v = c.toLower ∧ Text.isBlank c = false

theorem isDigitOf_of_digitValue? {c : Char} {v : Nat} (h : digitValue? c = some v) :
    IsDigitOf c v := by
  have table : ∀ n < 128, ∀ w ∈ digitValue? (Char.ofNat n),
      w < 16 ∧ digit w = (Char.ofNat n).toLower ∧ Text.isBlank (Char.ofNat n) = false := by decide
  have hc : Char.ofNat c.toNat = c := Char.ofNat_toNat c
  have := table c.toNat (digitValue?_lt_128 h) v (by rw [hc]; exact h)
  rwa [hc] at this

theorem digitValue?_digit {n : Nat} (h : n < 16) : digitValue? (digit n) = some n := by
  have table : ∀ n < 16, digitValue? (digit n) = some n := by decide
  exact table n h

theorem digit_mem {n : Nat} (h : n < 16) : digit n ∈ "0123456789abcdef".toList := by
  have table : ∀ n < 16, digit n ∈ "0123456789abcdef".toList := by decide
  exact table n h

theorem decodeChars_encode (bs : Bytes) : decodeChars (bs.flatMap encodeByte) = some bs := by
  induction bs with
  | nil => rfl
  | cons b bs ih =>
    have hb : b.toNat < 256 := b.toNat_lt
    have hval : 16 * (b.toNat / 16) + b.toNat % 16 = b.toNat := by omega
    simp only [List.flatMap_cons, encodeByte, List.cons_append, List.nil_append, decodeChars,
      digitValue?_digit (show b.toNat / 16 < 16 by omega),
      digitValue?_digit (show b.toNat % 16 < 16 by omega), ih]
    simp only [Option.bind_eq_bind, Option.bind_some, Option.pure_def, hval, UInt8.ofNat_toNat]

/-- Digits that can be read are those of the bytes, up to case. -/
theorem encode_of_decodeChars : {cs : List Char} → {bs : Bytes} → decodeChars cs = some bs →
    bs.flatMap encodeByte = cs.map Char.toLower
  | [], bs, h => by cases h; rfl
  | [_], _, h => by cases h
  | hi :: lo :: rest, bs, h => by
    simp only [decodeChars, Option.bind_eq_bind, Option.bind_eq_some_iff, Option.pure_def] at h
    obtain ⟨high, hhigh, low, hlow, bytes, hrest, heq⟩ := h
    obtain ⟨hh, hhd, -⟩ := isDigitOf_of_digitValue? hhigh
    obtain ⟨hl, hld, -⟩ := isDigitOf_of_digitValue? hlow
    cases heq
    have hb : (UInt8.ofNat (16 * high + low)).toNat = 16 * high + low :=
      UInt8.toNat_ofNat_of_lt (by show _ < 256; omega)
    simp only [List.flatMap_cons, encodeByte, hb, List.map_cons, encode_of_decodeChars hrest,
      List.cons_append, List.nil_append]
    rw [show (16 * high + low) / 16 = high by omega, show (16 * high + low) % 16 = low by omega,
      hhd, hld]

theorem isDigitOf_of_decodeChars : {cs : List Char} → {bs : Bytes} → decodeChars cs = some bs →
    ∀ c ∈ cs, ∃ v, digitValue? c = some v
  | [], _, _, c, hc => by cases hc
  | [_], _, h, _, _ => by cases h
  | hi :: lo :: rest, bs, h, c, hc => by
    simp only [decodeChars, Option.bind_eq_bind, Option.bind_eq_some_iff, Option.pure_def] at h
    obtain ⟨high, hhigh, low, hlow, bytes, hrest, -⟩ := h
    rcases List.mem_cons.mp hc with rfl | hc
    · exact ⟨high, hhigh⟩
    · rcases List.mem_cons.mp hc with rfl | hc
      · exact ⟨low, hlow⟩
      · exact isDigitOf_of_decodeChars hrest c hc

theorem length_of_decodeChars : {cs : List Char} → {bs : Bytes} → decodeChars cs = some bs →
    cs.length = 2 * bs.length
  | [], _, h => by cases h; rfl
  | [_], _, h => by cases h
  | hi :: lo :: rest, bs, h => by
    simp only [decodeChars, Option.bind_eq_bind, Option.bind_eq_some_iff, Option.pure_def] at h
    obtain ⟨high, -, low, -, bytes, hrest, heq⟩ := h
    cases heq
    have := length_of_decodeChars hrest
    simp only [List.length_cons]
    omega

end Hex

/-! ## Normalization -/

namespace Address

variable {cs : List Char} {c : Char} {bs : Bytes} {s : String}

def AllDigits (cs : List Char) : Prop :=
  ∀ c ∈ cs, ∃ v, Hex.digitValue? c = some v

theorem AllDigits.lt_128 (h : AllDigits cs) : ∀ c ∈ cs, c.toNat < 128 := by
  intro c hc
  obtain ⟨v, hv⟩ := h c hc
  exact Hex.digitValue?_lt_128 hv

theorem lowerFrom_ascii (h : ∀ c ∈ cs, c.toNat < 128) (before : List Char) :
    Text.lowerFrom before cs = cs.map Char.toLower := by
  induction cs generalizing before with
  | nil => rfl
  | cons c cs ih =>
    simp only [Text.lowerFrom, Text.lowerChar, if_pos (h c (by simp)),
      ih fun d hd => h d (by simp [hd]), List.map_cons, List.cons_append, List.nil_append]

theorem utf8Size_of_lt_128 (h : c.toNat < 128) : c.utf8Size = 1 := by
  have hv : c.val ≤ 127 := by
    rw [UInt32.le_iff_toNat_le]
    exact Nat.le_of_lt_succ h
  simp [Char.utf8Size, hv]

theorem toLower_lt_128 (h : c.toNat < 128) : c.toLower.toNat < 128 := by
  have table : ∀ n < 128, (Char.ofNat n).toLower.toNat < 128 := by decide
  have := table c.toNat h
  rwa [Char.ofNat_toNat] at this

theorem byteLength_cons (c : Char) (cs : List Char) :
    byteLength (c :: cs) = c.utf8Size + byteLength cs := by
  have go (cs : List Char) (n : Nat) : cs.foldl (fun n c => n + c.utf8Size) n =
      n + cs.foldl (fun n c => n + c.utf8Size) 0 := by
    induction cs generalizing n with
    | nil => rfl
    | cons c cs ih =>
      rw [List.foldl_cons, List.foldl_cons, ih (n + c.utf8Size), ih (0 + c.utf8Size)]
      omega
  simpa [byteLength] using go cs c.utf8Size

theorem byteLength_eq (h : ∀ c ∈ cs, c.toNat < 128) : byteLength cs = cs.length := by
  induction cs with
  | nil => rfl
  | cons c cs ih =>
    rw [byteLength_cons, ih fun d hd => h d (by simp [hd]), utf8Size_of_lt_128 (h c (by simp)),
      List.length_cons, Nat.add_comm]

theorem takeBytes?_length (h : ∀ c ∈ cs, c.toNat < 128) : takeBytes? cs.length cs = some cs := by
  induction cs with
  | nil => rfl
  | cons c cs ih =>
    have hc := utf8Size_of_lt_128 (h c (by simp))
    simp [takeBytes?, hc, ih fun d hd => h d (by simp [hd])]

theorem length_pad (h : cs.length ≤ fullLength) : (pad cs).length = fullLength := by
  simp only [pad, List.length_append, List.length_replicate]
  omega

theorem map_toLower_pad (cs : List Char) : (pad cs).map Char.toLower = pad (cs.map Char.toLower) := by
  simp only [pad, List.map_append, List.map_replicate, List.length_map]
  rfl

theorem toList_format (bs : Bytes) :
    (format bs).toList = '0' :: 'x' :: bs.flatMap Hex.encodeByte := by
  simp [format, Hex.encode]

theorem format_inj {bs' : Bytes} : format bs = format bs' ↔ bs = bs' := by
  constructor
  · intro h
    have hchars := congrArg String.toList h
    simp only [toList_format, List.cons.injEq, true_and] at hchars
    have hdecoded := Hex.decodeChars_encode bs
    rw [hchars, Hex.decodeChars_encode] at hdecoded
    exact (Option.some.inj hdecoded).symm
  · exact fun h => h ▸ rfl

/-- The strict reading of a text, taken apart. -/
theorem parse?_eq_some (h : parse? s = some bs) :
    AllDigits (digits s) ∧ 0 < (digits s).length ∧ (digits s).length ≤ fullLength ∧
      Hex.decodeChars (pad (digits s)) = some bs := by
  unfold parse? at h
  simp only at h
  split at h
  · cases h
  · rename_i hlen
    have hdigits : AllDigits (digits s) := fun c hc =>
      Hex.isDigitOf_of_decodeChars h c (List.mem_append_right _ hc)
    have hbytes : byteLength (digits s) = (digits s).length :=
      byteLength_eq hdigits.lt_128
    simp only [Bool.or_eq_true, List.isEmpty_iff, decide_eq_true_eq, not_or, hbytes] at hlen
    exact ⟨hdigits, List.length_pos_iff.mpr hlen.1, Nat.le_of_not_lt hlen.2, h⟩

theorem length_of_parse? (h : parse? s = some bs) : bs.length = 32 := by
  obtain ⟨-, -, hlen, hdec⟩ := parse?_eq_some h
  have h1 := Hex.length_of_decodeChars hdec
  rw [length_pad hlen] at h1
  have : fullLength = 64 := rfl
  omega

theorem normalize_of_parse? (h : parse? s = some bs) : normalize s = .ok (format bs) := by
  obtain ⟨hdigits, -, hlen, hdec⟩ := parse?_eq_some h
  have hlow : ∀ c ∈ (digits s).map Char.toLower, c.toNat < 128 := by
    intro c hc
    obtain ⟨d, hd, rfl⟩ := List.mem_map.mp hc
    exact toLower_lt_128 (hdigits.lt_128 d hd)
  have hfull : format bs = String.ofList ('0' :: 'x' :: pad ((digits s).map Char.toLower)) := by
    rw [← map_toLower_pad, ← Hex.encode_of_decodeChars hdec, ← toList_format, String.ofList_toList]
  simp only [normalize, lowerFrom_ascii hdigits.lt_128, byteLength_eq hlow, List.length_map, hfull]
  split
  · rfl
  · rename_i hge
    have heq : ((digits s).map Char.toLower).length = fullLength := by
      rw [List.length_map]
      omega
    have htake := takeBytes?_length hlow
    rw [heq] at htake
    rw [htake]
    simp [pad, heq]

theorem encodeByte_digits (b : UInt8) : ∀ c ∈ Hex.encodeByte b, ∃ v, Hex.digitValue? c = some v := by
  have hb : b.toNat < 256 := b.toNat_lt
  intro c hc
  rcases List.mem_cons.mp hc with rfl | hc
  · exact ⟨_, Hex.digitValue?_digit (by omega)⟩
  · obtain rfl := List.mem_singleton.mp hc
    exact ⟨_, Hex.digitValue?_digit (by omega)⟩

theorem trim_format (bs : Bytes) : Text.trim (format bs) = format bs := by
  have hblank : ∀ c ∈ (format bs).toList, Text.isBlank c = false := by
    intro c hc
    rw [toList_format] at hc
    rcases List.mem_cons.mp hc with rfl | hc
    · rfl
    · rcases List.mem_cons.mp hc with rfl | hc
      · rfl
      · obtain ⟨b, -, hb⟩ := List.mem_flatMap.mp hc
        obtain ⟨v, hv⟩ := encodeByte_digits b c hb
        exact (Hex.isDigitOf_of_digitValue? hv).2.2
  exact Text.trim_eq_self hblank

theorem digits_format (bs : Bytes) : digits (format bs) = bs.flatMap Hex.encodeByte := by
  unfold digits
  rw [trim_format, toList_format]
  rfl

theorem length_flatMap_encodeByte (bs : Bytes) :
    (bs.flatMap Hex.encodeByte).length = 2 * bs.length := by
  induction bs with
  | nil => rfl
  | cons b bs ih =>
    simp only [List.flatMap_cons, List.length_append, List.length_cons, ih, Hex.encodeByte]
    simp
    omega

theorem mem_hexDigits_of_mem_encodeByte {b : UInt8} (h : c ∈ Hex.encodeByte b) :
    c ∈ "0123456789abcdef".toList := by
  have hb : b.toNat < 256 := b.toNat_lt
  simp only [Hex.encodeByte, List.mem_cons, List.not_mem_nil, or_false] at h
  rcases h with rfl | rfl
  · exact Hex.digit_mem (by omega)
  · exact Hex.digit_mem (by omega)

theorem parse?_format (h : bs.length = 32) : parse? (format bs) = some bs := by
  have hlen : (bs.flatMap Hex.encodeByte).length = fullLength := by
    rw [length_flatMap_encodeByte, h]
    rfl
  have hbytes : byteLength (bs.flatMap Hex.encodeByte) = fullLength := by
    rw [← hlen]
    refine byteLength_eq fun c hc => ?_
    obtain ⟨b, -, hb⟩ := List.mem_flatMap.mp hc
    obtain ⟨v, hv⟩ := encodeByte_digits b c hb
    exact Hex.digitValue?_lt_128 hv
  have hne : (bs.flatMap Hex.encodeByte).isEmpty = false := by
    rw [List.isEmpty_eq_false_iff, ← List.length_pos_iff, hlen]
    decide
  simp only [parse?, digits_format, hne, hbytes, Bool.false_or, decide_eq_true_eq]
  rw [if_neg (Nat.lt_irrefl _)]
  simp [pad, hlen, Hex.decodeChars_encode]

end Address

/-- A full address is the strict reading of some text, in full form. -/
theorem Transaction.Builder.fullAddress_eq_ok (h : Transaction.Builder.fullAddress text = .ok id) :
    ∃ bs, Address.parse? text = some bs ∧ id = Address.format bs := by
  unfold fullAddress PureValue.encodeAddress at h
  cases hp : Address.parse? text with
  | none => rw [hp] at h; cases h
  | some bs =>
    rw [hp] at h
    cases h
    exact ⟨bs, rfl, rfl⟩

theorem Transaction.Builder.parse?_fullAddress (h : Transaction.Builder.fullAddress text = .ok id) :
    ∃ bs, Address.parse? text = some bs ∧ Address.parse? id = some bs ∧ id = Address.format bs := by
  obtain ⟨bs, hp, rfl⟩ := fullAddress_eq_ok h
  exact ⟨bs, hp, Address.parse?_format (Address.length_of_parse? hp), rfl⟩

theorem Transaction.Builder.fullAddress_of_parse? {bs : Bytes} (h : Address.parse? text = some bs) :
    Transaction.Builder.fullAddress text = .ok (Address.format bs) := by
  unfold fullAddress PureValue.encodeAddress
  rw [h]
  rfl

/-- The text is `0x` and 64 digits in lower case. -/
def Address.IsFull (id : String) : Prop :=
  ∃ digits : List Char, id.toList = '0' :: 'x' :: digits ∧ digits.length = 64 ∧
    ∀ c ∈ digits, c ∈ "0123456789abcdef".toList

theorem Transaction.Builder.isFull_fullAddress (h : Transaction.Builder.fullAddress text = .ok id) :
    Address.IsFull id := by
  obtain ⟨bs, hp, rfl⟩ := fullAddress_eq_ok h
  refine ⟨_, Address.toList_format bs, ?_, fun c hc => ?_⟩
  · rw [Address.length_flatMap_encodeByte, Address.length_of_parse? hp]
  · obtain ⟨b, -, hb⟩ := List.mem_flatMap.mp hc
    exact Address.mem_hexDigits_of_mem_encodeByte hb

theorem Transaction.Builder.fullAddress_fullAddress
    (h : Transaction.Builder.fullAddress text = .ok id) :
    Transaction.Builder.fullAddress id = .ok id := by
  obtain ⟨bs, -, hid, rfl⟩ := parse?_fullAddress h
  exact fullAddress_of_parse? hid

theorem Transaction.Builder.normalize_fullAddress
    (h : Transaction.Builder.fullAddress text = .ok id) : Address.normalize id = .ok id := by
  obtain ⟨bs, -, hid, rfl⟩ := parse?_fullAddress h
  exact Address.normalize_of_parse? hid

end TxGraph
