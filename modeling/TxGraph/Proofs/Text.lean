import Mathlib.Data.List.DropRight
import TxGraph.Text.Basic

/-!
# Trimmed texts and decimal texts

Trimming a text twice is trimming it once. The text of a number has digits only and reads back as
the number.
-/

namespace TxGraph.Text

variable {c : Char} {n : Nat}

/-! ## Blanks -/

theorem trim_eq_self_of_ends {s : String} (hhead : ∀ c ∈ s.toList.head?, isBlank c = false)
    (hlast : ∀ c ∈ s.toList.getLast?, isBlank c = false) : trim s = s := by
  have drop (cs : List Char) (h : ∀ c ∈ cs.head?, isBlank c = false) :
      cs.dropWhile isBlank = cs := by
    cases cs with
    | nil => rfl
    | cons c cs => exact List.dropWhile_cons_of_neg (by simp [h c rfl])
  rw [trim, trimLeft, drop _ hhead, trimRight, drop _ (by rwa [List.head?_reverse]),
    List.reverse_reverse, String.ofList_toList]

theorem trim_eq_self {s : String} (h : ∀ c ∈ s.toList, isBlank c = false) : trim s = s :=
  trim_eq_self_of_ends (fun c hc => h c (List.mem_of_head? hc))
    fun c hc => h c (List.mem_of_getLast? hc)

/-- What is cut off at the end does not uncover a blank at the front. -/
theorem dropWhile_front {cs ds : List Char} (hcs : cs.dropWhile isBlank = cs) (h : ds <+: cs) :
    ds.dropWhile isBlank = ds := by
  cases ds with
  | nil => rfl
  | cons d ds =>
    obtain ⟨rest, rfl⟩ := h
    cases hd : isBlank d with
    | false => simp [hd]
    | true =>
      have hlen := congrArg List.length hcs
      have hle := (List.dropWhile_suffix isBlank (l := ds ++ rest)).length_le
      rw [List.cons_append, List.dropWhile_cons_of_pos hd, List.length_cons] at hlen
      omega

@[simp]
theorem trim_trim (s : String) : trim (trim s) = trim s := by
  have hright (cs : List Char) : trimRight cs = cs.rdropWhile isBlank := rfl
  have hleft (cs : List Char) : trimLeft (trimRight (trimLeft cs)) = trimRight (trimLeft cs) := by
    have hfront : (trimLeft cs).dropWhile isBlank = trimLeft cs := List.dropWhile_idempotent _ _
    refine dropWhile_front hfront ?_
    rw [hright]
    exact List.rdropWhile_prefix _ _
  rw [trim, trim, String.toList_ofList, hleft, hright, hright, List.rdropWhile_idempotent]

theorem exists_toList_trim {s : String} {cs : List Char} (hs : s.toList = c :: cs)
    (hc : isBlank c = false) : ∃ rest, (trim s).toList = c :: rest := by
  have htrim : (trim s).toList = (c :: cs).rdropWhile isBlank := by
    rw [trim, String.toList_ofList, hs, trimLeft, List.dropWhile_cons_of_neg (by simp [hc])]
    rfl
  have hfront := List.rdropWhile_prefix isBlank (c :: cs)
  rw [← htrim] at hfront
  cases hchars : (trim s).toList with
  | nil =>
    rw [hchars] at htrim
    have hblank := List.rdropWhile_eq_nil_iff.mp htrim.symm c List.mem_cons_self
    simp [hc] at hblank
  | cons d rest =>
    rw [hchars] at hfront
    exact ⟨rest, by rw [(List.cons_prefix_cons.mp hfront).1]⟩

/-! ## Numbers -/

theorem digitsToNat_eq_ofDigitChars (cs : List Char) :
    digitsToNat cs = Nat.ofDigitChars 10 cs 0 := by
  simp only [digitsToNat, Nat.ofDigitChars_eq_foldl, Nat.mul_comm 10]

@[simp]
theorem digitsToNat_repr (n : Nat) : digitsToNat n.repr.toList = n := by
  rw [digitsToNat_eq_ofDigitChars, Nat.toList_repr, Nat.ofDigitChars_ten_toDigits]

theorem isDigit_of_mem_repr (h : c ∈ n.repr.toList) : c.isDigit = true := by
  rw [Nat.toList_repr] at h
  exact Nat.isDigit_of_mem_toDigits (by decide) (by decide) h

theorem isBlank_of_mem_repr (h : c ∈ n.repr.toList) : isBlank c = false := by
  have hdigit : 48 ≤ c.toNat ∧ c.toNat ≤ 57 := by
    simpa [Char.isDigit, UInt32.le_iff_toNat_le] using isDigit_of_mem_repr h
  simp only [isBlank, Bool.or_eq_false_iff, Bool.and_eq_false_iff, beq_eq_false_iff_ne,
    decide_eq_false_iff_not]
  omega

theorem trim_repr (n : Nat) : trim n.repr = n.repr :=
  trim_eq_self fun _ => isBlank_of_mem_repr

@[simp]
theorem isDigits_repr (n : Nat) : isDigits n.repr.toList = true := by
  have hne : n.repr.toList ≠ [] := by
    rw [Nat.toList_repr]
    exact Nat.toDigits_ne_nil
  simp only [isDigits, Bool.and_eq_true, Bool.not_eq_true', List.isEmpty_eq_false_iff]
  exact ⟨hne, List.all_eq_true.mpr fun _ => isDigit_of_mem_repr⟩

@[simp]
theorem repr_inj {m : Nat} : m.repr = n.repr ↔ m = n := by
  refine ⟨fun h => ?_, fun h => h ▸ rfl⟩
  rw [← digitsToNat_repr m, h, digitsToNat_repr]

end TxGraph.Text
