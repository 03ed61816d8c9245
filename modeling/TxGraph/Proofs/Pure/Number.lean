import TxGraph.Proofs.Pure.Kind
import TxGraph.Proofs.Pure.Written

/-!
# Numbers are encoded exactly

The digits of a number become bytes in two ways: by long multiplication at the greatest width, and
by way of a 128-bit word at the others. Both accept exactly the numbers below the power of two of
the width, however many digits they have, and both give their bytes (`digitBytes?_eq`).
-/

namespace TxGraph

theorem Text.all_isDigit {cs : List Char} (h : isDigits cs = true) : ∀ c ∈ cs, c.isDigit = true := by
  rw [isDigits, Bool.and_eq_true] at h
  exact List.all_eq_true.mp h.2

theorem Text.natUpTo?_of_isDigits {limit : Nat} {cs : List Char} (h : isDigits cs = true) :
    natUpTo? limit cs = if digitsToNat cs ≤ limit then some (digitsToNat cs) else none := by
  unfold natUpTo?
  split
  case h_1 => exact absurd (all_isDigit h '+' List.mem_cons_self) (by decide)
  case h_2 => simp [h]

theorem Bytes.take_ofNatLE {size width : Nat} (h : width ≤ size) (n : Nat) :
    (ofNatLE size n).take width = ofNatLE width n := by
  induction width generalizing size n with
  | zero => rfl
  | succ width ih =>
    obtain ⟨size, rfl⟩ : ∃ m, size = m + 1 := ⟨size - 1, by omega⟩
    rw [ofNatLE, List.take_succ_cons, ih (Nat.le_of_succ_le_succ h), ofNatLE]

/-- The bytes of a number are its digits to the base 256, least first, filled up with zeros. -/
theorem Bytes.map_toNat_ofNatLE {width n : Nat} (h : n < 256 ^ width) :
    (ofNatLE width n).map UInt8.toNat = Nat.digitsAppend 256 width n := by
  have hvalue : Nat.ofDigits 256 ((ofNatLE width n).map UInt8.toNat) = n :=
    (toNatLE_eq_digitsValue _).symm.trans (toNatLE_ofNatLE h)
  refine Nat.ofDigits_inj_of_len_eq (b := 256) (by decide) ?_ ?_ ?_ ?_
  · rw [List.length_map, length_ofNatLE, Nat.length_digitsAppend (by decide) _ h]
  · exact List.forall_mem_map.mpr (byte_lt _)
  · exact fun d hd => Nat.lt_of_mem_digitsAppend (by decide) _ _ hd
  · rw [hvalue, Nat.digitsAppend, Nat.ofDigits_append_replicate_zero, Nat.ofDigits_digits]

namespace PureValue

variable {digits : List Char}

theorem byteSize_pow (width : Width) : 256 ^ width.byteSize = Nat.pow 2 width.bits := by
  cases width <;> rfl

/-- The bytes of a number that is below the power of two of the width. -/
def exactBytes? (width : Width) (n : Nat) : Option Bytes :=
  if n < Nat.pow 2 width.bits then some (Bytes.ofNatLE width.byteSize n) else none

theorem wordBytes?_eq {width : Width} (hwidth : width ≠ .u256)
    (hdigits : Text.isDigits digits = true) :
    wordBytes? width digits = exactBytes? width (Text.digitsToNat digits) := by
  have hbits : width.bits ≤ 128 := by cases width <;> first | decide | exact absurd rfl hwidth
  have hsize : width.byteSize ≤ 16 := by cases width <;> first | decide | exact absurd rfl hwidth
  have hword : Nat.pow 2 width.bits ≤ Word.max128 + 1 :=
    Nat.pow_le_pow_right (n := 2) (by decide) hbits
  rw [wordBytes?, Text.natUpTo?_of_isDigits hdigits, exactBytes?]
  generalize Text.digitsToNat digits = n
  have hshift : n >>> width.bits = 0 ↔ n < Nat.pow 2 width.bits := by
    rw [Nat.shiftRight_eq_div_pow, Nat.div_eq_zero_iff_lt (Nat.two_pow_pos _)]
    rfl
  by_cases hlt : n < Nat.pow 2 width.bits
  · rw [if_pos (show n ≤ Word.max128 by omega), if_pos hlt]
    simp [hshift.mpr hlt, Bytes.take_ofNatLE hsize]
  · rw [if_neg hlt]
    by_cases hle : n ≤ Word.max128
    · have hsmall : width.bits < 128 := by
        refine Nat.lt_of_le_of_ne hbits fun heq => ?_
        rw [heq] at hlt
        exact hlt (Nat.lt_succ_of_le hle)
      rw [if_pos hle]
      simp [hsmall, mt hshift.mp hlt]
    · rw [if_neg hle]

/-- Long multiplication and words agree on what they both can hold. -/
theorem ofDecimal?_byteSize (width : Width) (hdigits : Text.isDigits digits = true) :
    Bytes.ofDecimal? width.byteSize digits = exactBytes? width (Text.digitsToNat digits) := by
  rw [Bytes.ofDecimal?_eq _ (Text.all_isDigit hdigits), byteSize_pow, exactBytes?]

theorem digitBytes?_eq (width : Width) (hdigits : Text.isDigits digits = true) :
    digitBytes? width digits = exactBytes? width (Text.digitsToNat digits) := by
  unfold digitBytes?
  split
  case isTrue hwidth =>
    subst hwidth
    exact ofDecimal?_byteSize .u256 hdigits
  case isFalse hwidth => exact wordBytes?_eq hwidth hdigits

/-- **What becomes of the text of a number.** -/
theorem encodeNumber_eq (width : Width) (text : String) :
    encodeNumber width text =
      if Text.isDigits (numberDigits text) = true ∧
          Text.digitsToNat (numberDigits text) < Nat.pow 2 width.bits then
        .ok (Bytes.ofNatLE width.byteSize (Text.digitsToNat (numberDigits text)))
      else .error (.invalidNumber text width) := by
  rw [encodeNumber]
  by_cases hdigits : Text.isDigits (numberDigits text) = true
  · rw [if_pos hdigits, digitBytes?_eq width hdigits, exactBytes?]
    by_cases hlt : Text.digitsToNat (numberDigits text) < Nat.pow 2 width.bits
    · rw [if_pos hlt, if_pos ⟨hdigits, hlt⟩]
    · rw [if_neg hlt, if_neg fun h => hlt h.2]
  · rw [if_neg hdigits, if_neg fun h => hdigits h.1]

theorem encode_number (width : Width) (text : String) :
    encode (.integer width) (.number text) =
      (encodeNumber width text).map fun bs => ⟨some width.name, bs⟩ := by
  have hbytes : encodeAs (.integer width) (.number text) = encodeNumber width text := by
    rw [encodeAs]
  simp only [encode, effectiveKind, bind, Except.bind, hbytes]
  cases encodeNumber width text <;> rfl

theorem encode_number_eq_ok {width : Width} {text : String} {found : PureValue} :
    encode (.integer width) (.number text) = .ok found ↔
      Text.isDigits (numberDigits text) = true ∧
        Text.digitsToNat (numberDigits text) < Nat.pow 2 width.bits ∧
        found = ⟨some width.name,
          Bytes.ofNatLE width.byteSize (Text.digitsToNat (numberDigits text))⟩ := by
  rw [encode_number, encodeNumber_eq]
  split
  case isTrue h =>
    rw [Except.map, Except.ok.injEq, eq_comm]
    exact ⟨fun hfound => ⟨h.1, h.2, hfound⟩, fun hfound => hfound.2.2⟩
  case isFalse h => exact ⟨nofun, fun hfound => absurd ⟨hfound.1, hfound.2.1⟩ h⟩

/-- **Numbers are encoded exactly at every width.** The text of a number is encoded if it has digits
only, blanks around them and underscores apart, and their number is below the power of two of the
width; any other text is reported as it is. The bytes are the digits of the number to the base 256,
and they are decoded into its decimal text. Long multiplication and the way over a word do the same,
and no word of theirs overflows. -/
theorem number_exact (width : Width) (text : String) :
    (∀ found, encode (.integer width) (.number text) = .ok found ↔
      Text.isDigits (numberDigits text) = true ∧
        Text.digitsToNat (numberDigits text) < 2 ^ width.bits ∧
        found.type = some width.name ∧
        found.bytes.map UInt8.toNat =
          Nat.digitsAppend 256 width.byteSize (Text.digitsToNat (numberDigits text))) ∧
    (∀ e, encode (.integer width) (.number text) = .error e → e = .invalidNumber text width) ∧
    (∀ found, encode (.integer width) (.number text) = .ok found →
      decode width.name found.bytes =
        .ok (.str (Text.digitsToNat (numberDigits text)).repr)) ∧
    (∀ digits, Text.isDigits digits = true →
      Bytes.ofDecimal? width.byteSize digits = exactBytes? width (Text.digitsToNat digits) ∧
      (width ≠ .u256 → wordBytes? width digits = exactBytes? width (Text.digitsToNat digits)) ∧
      ∀ size, ∀ m ∈ Bytes.ofDecimalProducts (List.replicate size 0) digits, m < 2 ^ 32) ∧
    ∀ bs, ∀ m ∈ Bytes.toDecimalProducts bs, m < 2 ^ 32 := by
  refine ⟨fun found => ?_, fun e h => ?_, fun found h => ?_, fun digits hdigits => ?_,
    Bytes.toDecimalProducts_lt⟩
  · rw [encode_number_eq_ok]
    refine and_congr_right fun _ => and_congr_right fun hlt => ?_
    rw [← byteSize_pow] at hlt
    rw [← Bytes.map_toNat_ofNatLE hlt, List.map_inj_right fun _ _ => UInt8.toNat_inj.mp]
    cases found
    simp
  · rw [encode_number, encodeNumber_eq] at h
    split at h
    case isTrue => cases h
    case isFalse =>
      cases h
      rfl
  · obtain ⟨-, hlt, rfl⟩ := encode_number_eq_ok.mp h
    rw [← byteSize_pow] at hlt
    have htype : DataType.ofMove width.name = .integer width :=
      ParamKind.ofMove_pureType (show (ParamKind.integer width).pureType? = some width.name from rfl)
    rw [decode_eq_ok_iff, htype]
    refine ⟨Bytes.length_ofNatLE _ _, ?_⟩
    rw [Bytes.toNatLE_ofNatLE hlt]
  · refine ⟨ofDecimal?_byteSize width hdigits, fun hwidth => wordBytes?_eq hwidth hdigits, ?_⟩
    exact fun size => Bytes.ofDecimalProducts_lt _ (Text.all_isDigit hdigits)

theorem number_exact_greatest :
    encode (.integer .u256) (.number (" 000_115792089237316195423570985008687907853269984665640564" ++
      "039457584007913129639935")) = .ok ⟨some "u256", List.replicate 32 255⟩ ∧
    decode "u256" (List.replicate 32 255) = .ok (.str (Text.digitsToNat (numberDigits
      (" 000_115792089237316195423570985008687907853269984665640564" ++
        "039457584007913129639935"))).repr) := by
  have h : encode (.integer .u256) (.number
      (" 000_115792089237316195423570985008687907853269984665640564" ++
        "039457584007913129639935")) = .ok ⟨some "u256", List.replicate 32 255⟩ :=
    encode_number_eq_ok.mpr (by decide +kernel)
  exact ⟨h, (number_exact .u256 _).2.2.1 _ h⟩

end PureValue

end TxGraph
