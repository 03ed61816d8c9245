import TxGraph.Proofs.Address.Cut

/-!
# Keys of addresses

The key of an id is its normalized form. If the id has no more digits than an address, its key does
not end in a blank, and a key that is an address is then the full form of that address
(`IsKey.eq_format`). Cutting a longer id can leave a key that ends in blanks, and such a key is
the same address written in another way.
-/

namespace TxGraph

/-! ## Lower case -/

namespace Text

variable {c d : Char} {before after cs : List Char}

def blankRanges : Ranges :=
  [(0x09, 0x0D), (0x20, 0x20), (0x85, 0x85), (0xA0, 0xA0), (0x1680, 0x1680), (0x2000, 0x200A),
    (0x2028, 0x2029), (0x202F, 0x202F), (0x205F, 0x205F), (0x3000, 0x3000)]

theorem isBlank_iff : isBlank c = true ↔ ∃ r ∈ blankRanges, r.1 ≤ c.toNat ∧ c.toNat ≤ r.2 := by
  simp only [isBlank, blankRanges, List.mem_cons, List.not_mem_nil, or_false, exists_eq_or_imp,
    exists_eq_left, Bool.or_eq_true, Bool.and_eq_true, decide_eq_true_eq, beq_iff_eq]
  omega

/-- The table leads neither to capital letters of ASCII nor to blanks. -/
theorem lowerRuns_targets : ∀ run ∈ lowerRuns, 0x61 ≤ run.2.2.2 ∧ ∀ r ∈ blankRanges,
    r.2 < run.2.2.2 ∨ run.2.2.2 + (run.2.1 - run.1) < r.1 := by decide +kernel

/-- A letter is its own lower-case form or is sent into the range of a run. -/
theorem lowerCode_cases (n : Nat) : lowerCode n = n ∨ ∃ run ∈ lowerRuns,
    run.2.2.2 ≤ lowerCode n ∧ lowerCode n ≤ run.2.2.2 + (run.2.1 - run.1) := by
  unfold lowerCode
  split
  case h_1 lo hi step target hfound =>
    have hrun := List.find?_some hfound
    simp only [Bool.and_eq_true, decide_eq_true_eq] at hrun
    exact .inr ⟨_, List.mem_of_find?_eq_some hfound, by simp only; omega, by simp only; omega⟩
  case h_2 => exact .inl rfl

theorem toLower_eq_self (h : c.toNat < 0x41 ∨ 0x5A < c.toNat) : c.toLower = c := by
  unfold Char.toLower
  split
  case isTrue hcapital =>
    have hge : 0x41 ≤ c.toNat := UInt32.le_iff_toNat_le.mp hcapital.1
    have hle : c.toNat ≤ 0x5A := UInt32.le_iff_toNat_le.mp hcapital.2
    omega
  case isFalse => rfl

theorem toNat_ofNat_cases (n : Nat) : (Char.ofNat n).toNat = n ∨ (Char.ofNat n).toNat = 0 := by
  by_cases h : n.isValidChar
  · left
    rw [Char.ofNat, dif_pos h]
    rfl
  · right
    rw [Char.ofNat, dif_neg h]
    rfl

/-- What the lower-case form of a character holds: by ASCII, one of the special forms, or by the
table. -/
theorem mem_lowerChar (h : d ∈ lowerChar before c after) :
    c.toNat < 128 ∧ d = c.toLower ∨ d ∈ ['\u03C2', '\u03C3', 'i', '\u0307'] ∨
      128 ≤ c.toNat ∧ d = Char.ofNat (lowerCode c.toNat) := by
  unfold lowerChar at h
  grind

theorem toLower_of_mem_lowerChar (h : d ∈ lowerChar before c after) : d.toLower = d := by
  rcases mem_lowerChar h with ⟨hascii, rfl⟩ | hspecial | ⟨hwide, rfl⟩
  · have table : ∀ n < 128, (Char.ofNat n).toLower.toLower = (Char.ofNat n).toLower := by decide
    have := table c.toNat hascii
    rwa [Char.ofNat_toNat] at this
  · simp only [List.mem_cons, List.not_mem_nil, or_false] at hspecial
    rcases hspecial with rfl | rfl | rfl | rfl <;> rfl
  · refine toLower_eq_self ?_
    rcases toNat_ofNat_cases (lowerCode c.toNat) with hcode | hcode
    · rcases lowerCode_cases c.toNat with hself | ⟨run, hrun, hlow, -⟩
      · omega
      · have := (lowerRuns_targets run hrun).1
        omega
    · omega

theorem isBlank_of_mem_lowerChar (h : d ∈ lowerChar before c after) (hc : isBlank c = false) :
    isBlank d = false := by
  rcases mem_lowerChar h with ⟨hascii, rfl⟩ | hspecial | ⟨-, rfl⟩
  · have table : ∀ n < 128, isBlank (Char.ofNat n) = false →
        isBlank (Char.ofNat n).toLower = false := by decide
    have := table c.toNat hascii
    rw [Char.ofNat_toNat] at this
    exact this hc
  · simp only [List.mem_cons, List.not_mem_nil, or_false] at hspecial
    rcases hspecial with rfl | rfl | rfl | rfl <;> rfl
  · rw [Bool.eq_false_iff] at hc ⊢
    intro hblank
    obtain ⟨r, hr, hlo, hhi⟩ := isBlank_iff.mp hblank
    rcases toNat_ofNat_cases (lowerCode c.toNat) with hcode | hcode
    · rcases lowerCode_cases c.toNat with hself | ⟨run, hrun, hlow, hhigh⟩
      · exact hc (isBlank_iff.mpr ⟨r, hr, by omega, by omega⟩)
      · have := (lowerRuns_targets run hrun).2 r hr
        omega
    · have hpos : ∀ r ∈ blankRanges, 0 < r.1 := by decide
      have := hpos r hr
      omega

theorem toLower_of_mem_lowerFrom (h : d ∈ lowerFrom before cs) : d.toLower = d := by
  induction cs generalizing before with
  | nil => cases h
  | cons c cs ih =>
    rw [lowerFrom, List.mem_append] at h
    exact h.elim toLower_of_mem_lowerChar ih

theorem lowerChar_ne_nil (before : List Char) (c : Char) (after : List Char) :
    lowerChar before c after ≠ [] := by
  unfold lowerChar
  grind

/-- What does not end in a blank does not in lower case either. -/
theorem isBlank_getLast_lowerFrom (h : ∀ c ∈ cs.getLast?, isBlank c = false) :
    ∀ d ∈ (lowerFrom before cs).getLast?, isBlank d = false := by
  induction cs generalizing before with
  | nil => exact h
  | cons c cs ih =>
    intro d hd
    rw [lowerFrom, List.getLast?_append, Option.mem_def, Option.or_eq_some_iff] at hd
    cases cs with
    | nil =>
      simp only [lowerFrom, List.getLast?_nil, reduceCtorEq, true_and, false_or] at hd
      exact isBlank_of_mem_lowerChar (List.mem_of_getLast? hd) (h c rfl)
    | cons c' cs =>
      rcases hd with hd | ⟨hnone, -⟩
      · exact ih (by simpa using h) d hd
      · rw [List.getLast?_eq_none_iff, lowerFrom, List.append_eq_nil_iff] at hnone
        exact absurd hnone.1 (lowerChar_ne_nil _ _ _)

theorem isBlank_getLast_trim (s : String) :
    ∀ c ∈ (trim s).toList.getLast?, isBlank c = false := by
  intro c hc
  rw [trim, String.toList_ofList, trimRight, List.getLast?_reverse] at hc
  have := List.head?_dropWhile_not isBlank (trimLeft s.toList).reverse
  rw [Option.mem_def.mp hc] at this
  exact this

end Text

/-! ## Keys -/

namespace Address

variable {key : String}

/-- The key under which an id is filed that has no more digits than an address. -/
def IsKey (key : String) : Prop :=
  ∃ id, byteLength (lowered id) ≤ fullLength ∧ normalize id = .ok key

theorem isBlank_getLast_digits (id : String) :
    ∀ c ∈ (digits id).getLast?, Text.isBlank c = false := by
  have hlast := Text.isBlank_getLast_trim id
  intro c hc
  have hsuffix : digits id <:+ (Text.trim id).toList := by
    unfold digits
    split
    case h_1 rest heq => exact heq ▸ ⟨['0', 'x'], rfl⟩
    case h_2 rest heq => exact heq ▸ ⟨['0', 'X'], rfl⟩
    case h_3 => exact List.suffix_rfl
  obtain ⟨front, hfront⟩ := hsuffix
  refine hlast c ?_
  rw [← hfront, List.getLast?_append, Option.mem_def.mp hc]
  rfl

theorem length_le_byteLength (cs : List Char) : cs.length ≤ byteLength cs := by
  induction cs with
  | nil => exact Nat.le_refl 0
  | cons c cs ih =>
    have := c.utf8Size_pos
    rw [byteLength_cons, List.length_cons]
    omega

theorem byteLength_append (cs ds : List Char) :
    byteLength (cs ++ ds) = byteLength cs + byteLength ds := by
  induction cs with
  | nil => exact (Nat.zero_add _).symm
  | cons c cs ih => rw [List.cons_append, byteLength_cons, byteLength_cons, ih, Nat.add_assoc]

theorem digits_of_toList {s : String} {cs : List Char}
    (h : (Text.trim s).toList = '0' :: 'x' :: cs) : digits s = cs := by
  rw [digits, h]
  rfl

/-- A key is the digits of its id, behind zeros and at least as long as an address. -/
theorem IsKey.exists_toList (h : IsKey key) : ∃ id n,
    key.toList = '0' :: 'x' :: (List.replicate n '0' ++ lowered id) ∧
      fullLength ≤ byteLength (List.replicate n '0' ++ lowered id) := by
  obtain ⟨id, hlength, hkey⟩ := h
  obtain ⟨cs, hchars, hcs⟩ := normalize_eq_ok hkey
  rcases hcs with ⟨-, hpad⟩ | ⟨hfront, hfull⟩
  · refine ⟨id, fullLength - (lowered id).length, by rw [hchars, hpad, pad], ?_⟩
    refine Nat.le_trans ?_ (length_le_byteLength _)
    rw [List.length_append, List.length_replicate]
    omega
  · -- with 64 bytes already, nothing is left behind the cut
    obtain ⟨rest, hrest⟩ := hfront
    have hnil : rest = [] := by
      refine eq_nil_of_byteLength ?_
      rw [← hrest, byteLength_append] at hlength
      omega
    rw [hnil, List.append_nil] at hrest
    refine ⟨id, 0, by rw [hchars, hrest, List.replicate_zero, List.nil_append], ?_⟩
    rw [List.replicate_zero, List.nil_append, ← hrest, hfull]

theorem IsKey.trim_eq_self (h : IsKey key) : Text.trim key = key := by
  obtain ⟨id, n, hchars, -⟩ := h.exists_toList
  refine Text.trim_eq_self_of_ends ?_ ?_
  · rw [hchars]
    intro c hc
    obtain rfl := Option.some.inj hc
    rfl
  · intro c hc
    -- the last character is a digit of the id, or the zeros or the mark if it has none
    have hback : key.toList = ('0' :: 'x' :: List.replicate n '0') ++ lowered id := hchars
    rw [hback, List.getLast?_append, Option.mem_def, Option.or_eq_some_iff] at hc
    rcases hc with hlast | ⟨-, hfront⟩
    · rw [lowered] at hlast
      exact Text.isBlank_getLast_lowerFrom (isBlank_getLast_digits id) c hlast
    · have hmem := List.mem_of_getLast? hfront
      simp only [List.mem_cons, List.mem_replicate] at hmem
      rcases hmem with rfl | rfl | ⟨-, rfl⟩ <;> rfl

theorem IsKey.eq_format {bs : Bytes} (h : IsKey key) (hp : parse? key = some bs) :
    key = format bs := by
  obtain ⟨id, n, hchars, hlength⟩ := h.exists_toList
  have hdigits : digits key = List.replicate n '0' ++ lowered id :=
    digits_of_toList (by rw [h.trim_eq_self, hchars])
  obtain ⟨hall, -, hmax, hdecode⟩ := parse?_eq_some hp
  rw [hdigits] at hall hmax hdecode
  rw [byteLength_eq hall.lt_128] at hlength
  have hlower : (List.replicate n '0' ++ lowered id).map Char.toLower =
      List.replicate n '0' ++ lowered id := by
    have hid : (lowered id).map Char.toLower = lowered id :=
      (List.map_congr_left fun _ hc => Text.toLower_of_mem_lowerFrom hc).trans (List.map_id _)
    rw [List.map_append, List.map_replicate, hid, Text.toLower_eq_self (.inl (by decide))]
  rw [pad, Nat.sub_eq_zero_of_le hlength, List.replicate_zero, List.nil_append] at hdecode
  have hcs := Hex.encode_of_decodeChars hdecode
  rw [hlower] at hcs
  rw [← String.toList_inj, toList_format, hcs, hchars]

theorem isKey_format {id : String} {bs : Bytes} (h : parse? id = some bs) : IsKey (format bs) := by
  refine ⟨id, ?_, normalize_of_parse? h⟩
  obtain ⟨hall, -, hmax, -⟩ := parse?_eq_some h
  rw [lowered, lowerFrom_ascii hall.lt_128, byteLength_eq, List.length_map]
  · exact hmax
  · intro c hc
    obtain ⟨d, hd, rfl⟩ := List.mem_map.mp hc
    exact toLower_lt_128 (hall.lt_128 d hd)

end Address

end TxGraph
