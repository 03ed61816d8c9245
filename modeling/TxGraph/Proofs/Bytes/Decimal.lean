import Mathlib.Data.Nat.Digits.Lemmas
import TxGraph.Bytes.Decimal
import TxGraph.Proofs.Bytes
import TxGraph.Proofs.Text

/-!
# Long multiplication is exact

A pass of long multiplication keeps its carry below the factor, so no product is beyond a word
(`products_lt`) and nothing is lost (`scaled_scale`). Reading decimal digits into bytes therefore
gives their number exactly if the bytes have room for it (`ofDecimal?_eq`), and the decimal text of
bytes is that of their number (`toDecimal_eq`).
-/

namespace TxGraph.Bytes

variable {c : Char} {cs : List Char} {digits : List UInt8} {n : Nat}

/-! ## A pass -/

/-- The number of digits that stand least first. -/
def digitsValue (base : Nat) (digits : List UInt8) : Nat :=
  Nat.ofDigits base (digits.map UInt8.toNat)

@[simp]
theorem digitsValue_nil (base : Nat) : digitsValue base [] = 0 := rfl

@[simp]
theorem digitsValue_cons (base : Nat) (d : UInt8) (ds : List UInt8) :
    digitsValue base (d :: ds) = d.toNat + base * digitsValue base ds := by
  simp [digitsValue, Nat.ofDigits_cons]

theorem digitsValue_append (base : Nat) (ds es : List UInt8) :
    digitsValue base (ds ++ es) = digitsValue base ds + base ^ ds.length * digitsValue base es := by
  simp [digitsValue, Nat.ofDigits_append]

theorem toNatLE_eq_digitsValue (bs : Bytes) : bs.toNatLE = digitsValue 256 bs := by
  induction bs with
  | nil => rfl
  | cons b bs ih => rw [toNatLE, digitsValue_cons, ih]

/-- What a pass computes at each digit, as exact numbers. -/
def products (base factor : UInt32) : (carry : UInt32) → (digits : List UInt8) → List Nat
  | _, [] => []
  | carry, digit :: digits =>
    (digit.toNat * factor.toNat + carry.toNat) ::
      products base factor (product factor carry digit / base) digits

theorem toNat_pos_of_ne_zero {n : UInt32} (h : n ≠ 0) : 0 < n.toNat :=
  Nat.pos_of_ne_zero fun hzero => h (UInt32.toNat_inj.mp hzero)

/-- Digits of the base are bytes, and a word has room for one times the factor. -/
structure Fits (base factor : UInt32) : Prop where
  pos : 0 < base.toNat
  byte : base.toNat ≤ 256
  word : base.toNat * factor.toNat < 2 ^ 32

theorem fits_bytes : Fits 256 10 := ⟨by decide, by decide, by decide⟩

theorem fits_decimal : Fits 10 256 := ⟨by decide, by decide, by decide⟩

section

variable {base factor carry : UInt32} {digit : UInt8} {digits : List UInt8}

theorem product_lt (hdigit : digit.toNat < base.toNat) (hcarry : carry.toNat < factor.toNat) :
    digit.toNat * factor.toNat + carry.toNat < base.toNat * factor.toNat :=
  calc digit.toNat * factor.toNat + carry.toNat
      < digit.toNat * factor.toNat + factor.toNat := Nat.add_lt_add_left hcarry _
    _ = (digit.toNat + 1) * factor.toNat := by rw [Nat.add_mul, Nat.one_mul]
    _ ≤ base.toNat * factor.toNat := Nat.mul_le_mul_right _ hdigit

theorem toNat_product (h : Fits base factor) (hdigit : digit.toNat < base.toNat)
    (hcarry : carry.toNat < factor.toNat) :
    (product factor carry digit).toNat = digit.toNat * factor.toNat + carry.toNat := by
  have hlt := (product_lt hdigit hcarry).trans h.word
  rw [product, UInt32.toNat_add, UInt32.toNat_mul, UInt8.toNat_toUInt32]
  omega

theorem toNat_nextCarry_lt (h : Fits base factor) (hdigit : digit.toNat < base.toNat)
    (hcarry : carry.toNat < factor.toNat) :
    (product factor carry digit / base).toNat < factor.toNat := by
  rw [UInt32.toNat_div, toNat_product h hdigit hcarry]
  exact Nat.div_lt_of_lt_mul (product_lt hdigit hcarry)

/-- **No product of a pass is beyond a word.** -/
theorem products_lt (h : Fits base factor) (hdigits : ∀ d ∈ digits, d.toNat < base.toNat)
    (hcarry : carry.toNat < factor.toNat) : ∀ n ∈ products base factor carry digits, n < 2 ^ 32 := by
  induction digits generalizing carry with
  | nil => nofun
  | cons d ds ih =>
    obtain ⟨hd, hds⟩ := List.forall_mem_cons.mp hdigits
    refine List.forall_mem_cons.mpr ⟨(product_lt hd hcarry).trans h.word, ?_⟩
    exact ih hds (toNat_nextCarry_lt h hd hcarry)

structure Scaled (base factor carry : UInt32) (digits : List UInt8)
    (found : List UInt8 × UInt32) : Prop where
  length : found.1.length = digits.length
  digit_lt : ∀ d ∈ found.1, d.toNat < base.toNat
  carry_lt : found.2.toNat < factor.toNat
  value : digitsValue base.toNat found.1 + base.toNat ^ digits.length * found.2.toNat =
    factor.toNat * digitsValue base.toNat digits + carry.toNat

/-- **A pass loses nothing.** -/
theorem scaled_scale (h : Fits base factor) (hdigits : ∀ d ∈ digits, d.toNat < base.toNat)
    (hcarry : carry.toNat < factor.toNat) :
    Scaled base factor carry digits (scale base factor carry digits) := by
  induction digits generalizing carry with
  | nil => exact ⟨rfl, nofun, hcarry, by simp [scale]⟩
  | cons d ds ih =>
    obtain ⟨hd, hds⟩ := List.forall_mem_cons.mp hdigits
    have hrest := ih hds (toNat_nextCarry_lt h hd hcarry)
    have hlow : (product factor carry d % base).toUInt8.toNat =
        (d.toNat * factor.toNat + carry.toNat) % base.toNat := by
      have hmod := Nat.mod_lt (d.toNat * factor.toNat + carry.toNat) h.pos
      have hbyte := h.byte
      rw [UInt32.toNat_toUInt8, UInt32.toNat_mod, toNat_product h hd hcarry]
      omega
    have hvalue := hrest.value
    rw [UInt32.toNat_div, toNat_product h hd hcarry] at hvalue
    refine ⟨congrArg Nat.succ hrest.length, ?_, hrest.carry_lt, ?_⟩
    · refine List.forall_mem_cons.mpr ⟨?_, hrest.digit_lt⟩
      rw [hlow]
      exact Nat.mod_lt _ h.pos
    · have hsplit := Nat.mod_add_div (d.toNat * factor.toNat + carry.toNat) base.toNat
      simp only [scale, digitsValue_cons, hlow, List.length_cons, pow_succ]
      generalize scale base factor (product factor carry d / base) ds = rest at hvalue ⊢
      generalize (d.toNat * factor.toNat + carry.toNat) % base.toNat = low at hsplit ⊢
      generalize (d.toNat * factor.toNat + carry.toNat) / base.toNat = high at hsplit hvalue
      calc low + base.toNat * digitsValue base.toNat rest.1 +
            base.toNat ^ ds.length * base.toNat * rest.2.toNat
          = low + base.toNat *
              (digitsValue base.toNat rest.1 + base.toNat ^ ds.length * rest.2.toNat) := by ring
        _ = (low + base.toNat * high) + base.toNat * (factor.toNat * digitsValue base.toNat ds) := by
            rw [hvalue]
            ring
        _ = factor.toNat * (d.toNat + base.toNat * digitsValue base.toNat ds) + carry.toNat := by
            rw [hsplit]
            ring

end

/-! ## From decimal digits to bytes -/

theorem digit_lt_ten (h : c.isDigit = true) : c.toNat - '0'.toNat < 10 := by
  have hrange : 48 ≤ c.toNat ∧ c.toNat ≤ 57 := by
    simpa [Char.isDigit, UInt32.le_iff_toNat_le] using h
  have hzero : '0'.toNat = 48 := rfl
  omega

theorem toNat_ofNat_digit (h : c.isDigit = true) :
    (UInt32.ofNat (c.toNat - '0'.toNat)).toNat = c.toNat - '0'.toNat :=
  UInt32.toNat_ofNat_of_lt' ((digit_lt_ten h).trans (by decide))

theorem byte_lt (bs : Bytes) : ∀ b ∈ bs, b.toNat < (256 : UInt32).toNat :=
  fun b _ => b.toNat_lt

theorem le_ofDigitChars (cs : List Char) (n : Nat) : n ≤ Nat.ofDigitChars 10 cs n := by
  rw [Nat.ofDigitChars_eq_ofDigitChars_zero]
  exact (Nat.le_mul_of_pos_left n (Nat.pow_pos (by decide))).trans (Nat.le_add_right _ _)

/-- One digit more: the bytes hold the new number, or there is a carry since it has no room. -/
theorem scale_digit (bs : Bytes) (hc : c.isDigit = true) :
    let next := scale 256 10 (UInt32.ofNat (c.toNat - '0'.toNat)) bs
    next.1.length = bs.length ∧
      toNatLE next.1 + 256 ^ bs.length * next.2.toNat = 10 * bs.toNatLE + (c.toNat - '0'.toNat) := by
  have hscaled : Scaled 256 10 (UInt32.ofNat (c.toNat - '0'.toNat)) bs _ :=
    scaled_scale fits_bytes (byte_lt bs) (by rw [toNat_ofNat_digit hc]; exact digit_lt_ten hc)
  have hvalue := hscaled.value
  rw [toNat_ofNat_digit hc] at hvalue
  refine ⟨hscaled.length, ?_⟩
  rw [toNatLE_eq_digitsValue, toNatLE_eq_digitsValue]
  exact hvalue

theorem ofDecimalFrom?_eq (bs : Bytes) (hcs : ∀ c ∈ cs, c.isDigit = true) :
    ofDecimalFrom? bs cs =
      if Nat.ofDigitChars 10 cs bs.toNatLE < 256 ^ bs.length then
        some (ofNatLE bs.length (Nat.ofDigitChars 10 cs bs.toNatLE))
      else none := by
  induction cs generalizing bs with
  | nil =>
    rw [ofDecimalFrom?, Nat.ofDigitChars_nil, if_pos (toNatLE_lt bs), ofNatLE_toNatLE]
  | cons c cs ih =>
    obtain ⟨hc, hcs⟩ := List.forall_mem_cons.mp hcs
    obtain ⟨hlength, hvalue⟩ := scale_digit bs hc
    rw [ofDecimalFrom?, Nat.ofDigitChars_cons]
    generalize scale 256 10 (UInt32.ofNat (c.toNat - '0'.toNat)) bs = next at hlength hvalue ⊢
    by_cases hcarry : next.2 = 0
    · rw [if_pos hcarry, ih next.1 hcs, hlength]
      rw [hcarry, UInt32.toNat_zero, Nat.mul_zero, Nat.add_zero] at hvalue
      rw [hvalue]
    · -- the number has outgrown the bytes already
      have hroom : 256 ^ bs.length ≤ 256 ^ bs.length * next.2.toNat :=
        Nat.le_mul_of_pos_right _ (toNat_pos_of_ne_zero hcarry)
      have hmore := le_ofDigitChars cs (10 * bs.toNatLE + (c.toNat - '0'.toNat))
      rw [if_neg hcarry, if_neg (by omega)]

theorem toNatLE_replicate_zero (width : Nat) : toNatLE (List.replicate width 0) = 0 := by
  induction width with
  | zero => rfl
  | succ width ih => rw [List.replicate_succ, toNatLE, ih]; rfl

/-- **Decimal digits are read into bytes exactly** if the bytes have room for their number. -/
theorem ofDecimal?_eq (width : Nat) (hcs : ∀ c ∈ cs, c.isDigit = true) :
    ofDecimal? width cs =
      if Text.digitsToNat cs < 256 ^ width then some (ofNatLE width (Text.digitsToNat cs))
      else none := by
  rw [ofDecimal?, ofDecimalFrom?_eq _ hcs, toNatLE_replicate_zero, List.length_replicate,
    Text.digitsToNat_eq_ofDigitChars]

def ofDecimalProducts (bs : Bytes) : List Char → List Nat
  | [] => []
  | c :: cs =>
    let digit := UInt32.ofNat (c.toNat - '0'.toNat)
    let next := scale 256 10 digit bs
    products 256 10 digit bs ++ if next.2 = 0 then ofDecimalProducts next.1 cs else []

theorem ofDecimalProducts_lt (bs : Bytes) (hcs : ∀ c ∈ cs, c.isDigit = true) :
    ∀ n ∈ ofDecimalProducts bs cs, n < 2 ^ 32 := by
  induction cs generalizing bs with
  | nil => nofun
  | cons c cs ih =>
    obtain ⟨hc, hcs⟩ := List.forall_mem_cons.mp hcs
    have hpass : ∀ n ∈ products 256 10 (UInt32.ofNat (c.toNat - '0'.toNat)) bs, n < 2 ^ 32 :=
      products_lt fits_bytes (byte_lt bs) (by rw [toNat_ofNat_digit hc]; exact digit_lt_ten hc)
    intro n hn
    rw [ofDecimalProducts] at hn
    rcases List.mem_append.mp hn with hn | hn
    · exact hpass n hn
    · split at hn
      · exact ih _ hcs n hn
      · cases hn

/-! ## From bytes to decimal digits -/

/-- The decimal digits of a number, least first, without a zero in front. -/
structure IsDecimal (digits : List UInt8) (n : Nat) : Prop where
  value : digitsValue 10 digits = n
  digit_lt : ∀ d ∈ digits, d.toNat < 10
  length_pos : 0 < digits.length
  length : digits.length = 1 ∨ 10 ^ (digits.length - 1) ≤ n

theorem isDecimal_zero : IsDecimal [0] 0 :=
  ⟨rfl, List.forall_mem_singleton.mpr (by decide), Nat.one_pos, .inl rfl⟩

theorem IsDecimal.pow_le (h : IsDecimal digits n) (hn : 0 < n) : 10 ^ (digits.length - 1) ≤ n := by
  obtain hone | hmany := h.length
  · rw [hone]
    exact hn
  · exact hmany

/-- Digits of lower places. -/
theorem IsDecimal.append {low : List UInt8} (hlow : ∀ d ∈ low, d.toNat < 10)
    (h : IsDecimal digits n) (hn : 0 < n) :
    IsDecimal (low ++ digits) (digitsValue 10 low + 10 ^ low.length * n) where
  value := by rw [digitsValue_append, h.value]
  digit_lt := List.forall_mem_append.mpr ⟨hlow, h.digit_lt⟩
  length_pos := by
    have := h.length_pos
    rw [List.length_append]
    omega
  length := by
    right
    have hplaces : (low ++ digits).length - 1 = low.length + (digits.length - 1) := by
      have := h.length_pos
      rw [List.length_append]
      omega
    calc 10 ^ ((low ++ digits).length - 1) = 10 ^ low.length * 10 ^ (digits.length - 1) := by
          rw [hplaces, pow_add]
      _ ≤ 10 ^ low.length * n := Nat.mul_le_mul_left _ (h.pow_le hn)
      _ ≤ digitsValue 10 low + 10 ^ low.length * n := Nat.le_add_left _ _

theorem IsDecimal.map_digitChar (h : IsDecimal digits n) :
    digits.reverse.map (fun d => Nat.digitChar d.toNat) = Nat.toDigits 10 n := by
  induction digits generalizing n with
  | nil => exact absurd h.length_pos (Nat.lt_irrefl 0)
  | cons d ds ih =>
    obtain ⟨hd, hds⟩ := List.forall_mem_cons.mp h.digit_lt
    have hvalue : d.toNat + 10 * digitsValue 10 ds = n := by rw [← digitsValue_cons, h.value]
    cases ds with
    | nil =>
      rw [digitsValue_nil] at hvalue
      rw [Nat.toDigits_of_lt_base (show n < 10 by omega), show n = d.toNat by omega]
      rfl
    | cons e es =>
      -- with another digit in front the number is at least ten
      have hlarge : 10 ^ es.length * 10 ≤ n := by
        obtain hlen | hlen := h.length
        · simp at hlen
        · simpa [pow_succ] using hlen
      have hten : 0 < 10 ^ es.length := Nat.pow_pos (by decide)
      have hfront : IsDecimal (e :: es) (n / 10) := by
        refine ⟨by omega, hds, Nat.succ_pos _, .inr ?_⟩
        simpa using (Nat.le_div_iff_mul_le (by decide)).mpr hlarge
      rw [Nat.toDigits_of_base_le (by decide) (by omega), ← ih hfront, List.reverse_cons,
        List.map_append, show n % 10 = d.toNat by omega]
      rfl

theorem carryDigits_zero (atMost : Nat) : carryDigits atMost 0 = [] := by
  cases atMost <;> rfl

theorem isDecimal_carryDigits {atMost : Nat} {carry : UInt32} (hpos : 0 < carry.toNat)
    (h : carry.toNat < 10 ^ atMost) : IsDecimal (carryDigits atMost carry) carry.toNat := by
  induction atMost generalizing carry with
  | zero => exact absurd hpos (Nat.not_lt.mpr (Nat.le_of_lt_succ h))
  | succ atMost ih =>
    have hne : carry ≠ 0 := by
      rintro rfl
      exact Nat.lt_irrefl 0 hpos
    have hlow : (carry % 10).toUInt8.toNat = carry.toNat % 10 := by
      rw [UInt32.toNat_toUInt8, UInt32.toNat_mod, show (10 : UInt32).toNat = 10 from rfl]
      omega
    have hhigh : (carry / 10).toNat = carry.toNat / 10 := UInt32.toNat_div _ _
    rw [carryDigits, if_neg hne]
    have hdigit : ∀ d ∈ [(carry % 10).toUInt8], d.toNat < 10 := by
      rw [List.forall_mem_singleton, hlow]
      exact Nat.mod_lt _ (by decide)
    by_cases hlast : carry / 10 = 0
    · have hsmall : carry.toNat / 10 = 0 := by rw [← hhigh, hlast]; rfl
      rw [hlast, carryDigits_zero]
      refine ⟨?_, hdigit, Nat.one_pos, .inl rfl⟩
      rw [digitsValue_cons, digitsValue_nil, hlow]
      omega
    · have hfrontPos := toNat_pos_of_ne_zero hlast
      have hfrontLt : (carry / 10).toNat < 10 ^ atMost := by
        rw [hhigh]
        exact Nat.div_lt_of_lt_mul (by rwa [pow_succ, Nat.mul_comm] at h)
      have happend := IsDecimal.append hdigit (ih hfrontPos hfrontLt) hfrontPos
      rwa [digitsValue_cons, digitsValue_nil, hlow, hhigh, List.length_singleton, pow_one,
        Nat.mul_zero, Nat.add_zero, Nat.mod_add_div] at happend

theorem isDecimal_decimalStep (h : IsDecimal digits n) (b : UInt8) :
    IsDecimal (decimalStep b digits) (b.toNat + 256 * n) := by
  have hscaled : Scaled 10 256 b.toUInt32 digits _ :=
    scaled_scale fits_decimal h.digit_lt (by rw [UInt8.toNat_toUInt32]; exact b.toNat_lt)
  have hvalue : digitsValue 10 (scale 10 256 b.toUInt32 digits).1 +
      10 ^ digits.length * (scale 10 256 b.toUInt32 digits).2.toNat = b.toNat + 256 * n := by
    have hexact := hscaled.value
    rw [UInt8.toNat_toUInt32, Nat.add_comm _ b.toNat] at hexact
    rw [← h.value]
    exact hexact
  rw [decimalStep]
  generalize scale 10 256 b.toUInt32 digits = next at hscaled hvalue ⊢
  by_cases hcarry : next.2 = 0
  · -- no new place: the number is not less than before
    rw [hcarry, UInt32.toNat_zero, Nat.mul_zero, Nat.add_zero] at hvalue
    rw [hcarry, carryDigits_zero, List.append_nil]
    refine ⟨hvalue, hscaled.digit_lt, hscaled.length ▸ h.length_pos, ?_⟩
    rw [hscaled.length]
    exact h.length.imp_right fun hle => by omega
  · have hpos := toNat_pos_of_ne_zero hcarry
    have hsmall : next.2.toNat < 10 ^ 10 := next.2.toNat_lt.trans (by decide)
    have happend := IsDecimal.append hscaled.digit_lt (isDecimal_carryDigits hpos hsmall) hpos
    rwa [hscaled.length, hvalue] at happend

theorem isDecimal_decimalDigits (bs : Bytes) : IsDecimal bs.decimalDigits bs.toNatLE := by
  induction bs with
  | nil => exact isDecimal_zero
  | cons b bs ih => exact isDecimal_decimalStep ih b

/-- **The decimal text of bytes is that of their number.** -/
theorem toDecimal_eq (bs : Bytes) : bs.toDecimal = bs.toNatLE.repr := by
  rw [toDecimal, (isDecimal_decimalDigits bs).map_digitChar, ← Nat.toList_repr, String.ofList_toList]

def toDecimalProducts : Bytes → List Nat
  | [] => []
  | b :: bs => toDecimalProducts bs ++ products 10 256 b.toUInt32 (decimalDigits bs)

theorem toDecimalProducts_lt (bs : Bytes) : ∀ n ∈ toDecimalProducts bs, n < 2 ^ 32 := by
  induction bs with
  | nil => nofun
  | cons b bs ih =>
    refine List.forall_mem_append.mpr ⟨ih, ?_⟩
    refine products_lt fits_decimal (isDecimal_decimalDigits bs).digit_lt ?_
    rw [UInt8.toNat_toUInt32]
    exact b.toNat_lt

end TxGraph.Bytes
