import TxGraph.Proofs.Address

/-!
# Addresses that can be cut to length

Normalization counts bytes: a text of 64 bytes or more is cut after the first 64. That is possible
if no character lies across the cut (`exists_normalize_iff`). A shorter text is filled up to 64
characters, so what normalization gives can be longer than 64 bytes, and cannot always be cut again.
With ASCII alone, where a character is a byte, both always work.
-/

namespace TxGraph.Address

variable {s key : String}

/-! ## Bytes -/

theorem eq_nil_of_byteLength {cs : List Char} (h : byteLength cs = 0) : cs = [] := by
  cases cs with
  | nil => rfl
  | cons c cs =>
    have := c.utf8Size_pos
    rw [byteLength_cons] at h
    omega

theorem takeBytes?_eq_some_iff {n : Nat} {cs front : List Char} (h : n ≤ byteLength cs) :
    takeBytes? n cs = some front ↔ front <+: cs ∧ byteLength front = n := by
  induction n, cs using takeBytes?.induct generalizing front with
  | case1 cs =>
    rw [takeBytes?]
    constructor
    · intro hfront
      cases hfront
      exact ⟨List.nil_prefix, rfl⟩
    · rintro ⟨-, hzero⟩
      rw [eq_nil_of_byteLength hzero]
  | case2 n => exact absurd h (Nat.not_succ_le_zero n)
  | case3 n c cs hfits ih =>
    rw [byteLength_cons] at h
    rw [takeBytes?, if_pos hfits, Option.map_eq_some_iff]
    constructor
    · rintro ⟨rest, hrest, rfl⟩
      obtain ⟨hfront, hbytes⟩ := (ih (by omega)).mp hrest
      exact ⟨List.cons_prefix_cons.mpr ⟨rfl, hfront⟩, by rw [byteLength_cons]; omega⟩
    · rintro ⟨hfront, hbytes⟩
      cases front with
      | nil => cases hbytes
      | cons d rest =>
        obtain ⟨rfl, hrest⟩ := List.cons_prefix_cons.mp hfront
        rw [byteLength_cons] at hbytes
        exact ⟨rest, (ih (by omega)).mpr ⟨hrest, by omega⟩, rfl⟩
  | case4 n c cs hlarge =>
    rw [takeBytes?, if_neg hlarge]
    constructor
    · intro hnone
      cases hnone
    · rintro ⟨hfront, hbytes⟩
      cases front with
      | nil => cases hbytes
      | cons d rest =>
        obtain ⟨rfl, -⟩ := List.cons_prefix_cons.mp hfront
        rw [byteLength_cons] at hbytes
        omega

/-! ## Cutting -/

def lowered (s : String) : List Char :=
  Text.lowerFrom [] (digits s)

/-- The text can be cut to length: it has less than 64 bytes, or a front of exactly 64. -/
def Cuts (s : String) : Prop :=
  byteLength (lowered s) < fullLength ∨
    ∃ front, front <+: lowered s ∧ byteLength front = fullLength

/-- What an address is normalized to: a short one is filled up, another is cut. -/
theorem normalize_eq_ok (h : normalize s = .ok key) :
    ∃ cs, key.toList = '0' :: 'x' :: cs ∧
      (byteLength (lowered s) < fullLength ∧ cs = pad (lowered s) ∨
        cs <+: lowered s ∧ byteLength cs = fullLength) := by
  unfold normalize at h
  rw [← lowered] at h
  dsimp only at h
  split at h
  case isTrue hshort =>
    obtain rfl := Except.ok.inj h
    exact ⟨_, String.toList_ofList, .inl ⟨hshort, rfl⟩⟩
  case isFalse hlong =>
    split at h
    case h_1 front htaken =>
      obtain rfl := Except.ok.inj h
      exact ⟨_, String.toList_ofList,
        .inr ((takeBytes?_eq_some_iff (Nat.le_of_not_lt hlong)).mp htaken)⟩
    case h_2 => cases h

theorem exists_normalize_iff : (∃ key, normalize s = .ok key) ↔ Cuts s := by
  constructor
  · rintro ⟨key, h⟩
    obtain ⟨cs, -, ⟨hshort, -⟩ | hcut⟩ := normalize_eq_ok h
    · exact .inl hshort
    · exact .inr ⟨cs, hcut⟩
  · intro h
    unfold normalize
    rw [← lowered]
    dsimp only
    split
    case isTrue => exact ⟨_, rfl⟩
    case isFalse hlong =>
      obtain ⟨front, hfront⟩ := h.resolve_left hlong
      rw [(takeBytes?_eq_some_iff (Nat.le_of_not_lt hlong)).mpr hfront]
      exact ⟨_, rfl⟩

theorem not_cuts_of_normalize {cause : Uncut} (h : normalize s = .error cause) : ¬ Cuts s := by
  rw [← exists_normalize_iff, h]
  exact nofun

instance (s : String) : Decidable (Cuts s) :=
  decidable_of_iff ((normalize s).toOption.isSome = true) (by
    rw [← exists_normalize_iff]
    cases normalize s <;> simp [Except.toOption])

theorem cuts_trim (s : String) : Cuts (Text.trim s) ↔ Cuts s := by
  have hlowered : lowered (Text.trim s) = lowered s := by
    simp only [lowered, digits, Text.trim_trim]
  rw [Cuts, Cuts, hlowered]

/-! ## ASCII -/

def IsAscii (s : String) : Prop :=
  ∀ c ∈ s.toList, c.toNat < 128

theorem mem_of_mem_digits {c : Char} (h : c ∈ digits s) : c ∈ s.toList := by
  have htrim : c ∈ (Text.trim s).toList := by
    unfold digits at h
    split at h <;> simp_all
  rw [Text.trim, String.toList_ofList, Text.trimRight, List.mem_reverse] at htrim
  have hleft := List.mem_reverse.mp ((List.dropWhile_suffix _).subset htrim)
  exact (List.dropWhile_suffix _).subset hleft

theorem IsAscii.lowered_lt (h : IsAscii s) : ∀ c ∈ lowered s, c.toNat < 128 := by
  have hdigits : ∀ c ∈ digits s, c.toNat < 128 := fun c hc => h c (mem_of_mem_digits hc)
  intro c hc
  rw [lowered, lowerFrom_ascii hdigits] at hc
  obtain ⟨d, hd, rfl⟩ := List.mem_map.mp hc
  exact toLower_lt_128 (hdigits d hd)

theorem IsAscii.cuts (h : IsAscii s) : Cuts s := by
  by_cases hshort : byteLength (lowered s) < fullLength
  · exact .inl hshort
  · have hfront := List.take_prefix fullLength (lowered s)
    refine .inr ⟨_, hfront, ?_⟩
    rw [byteLength_eq h.lowered_lt] at hshort
    rw [byteLength_eq fun c hc => h.lowered_lt c (hfront.subset hc), List.length_take]
    omega

theorem IsAscii.normalize (h : IsAscii s) (hkey : normalize s = .ok key) : IsAscii key := by
  obtain ⟨cs, hchars, hcs⟩ := normalize_eq_ok hkey
  have hmem : ∀ c ∈ cs, c = '0' ∨ c ∈ lowered s := by
    intro c hc
    rcases hcs with ⟨-, hpad⟩ | ⟨hfront, -⟩
    · rw [hpad, pad] at hc
      exact (List.mem_append.mp hc).imp_left List.eq_of_mem_replicate
    · exact .inr (hfront.subset hc)
  intro c hc
  rw [hchars, List.mem_cons, List.mem_cons] at hc
  rcases hc with rfl | rfl | hc
  · decide
  · decide
  · rcases hmem c hc with rfl | hc
    · decide
    · exact h.lowered_lt c hc

end TxGraph.Address
