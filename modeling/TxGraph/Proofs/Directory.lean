import TxGraph.Basic

/-!
# Looking up in directories

What a look-up finds after an insertion. The order of the keys is not needed for it. A sorted
directory is the one that its entries build, in whatever order they are inserted.
-/

namespace TxGraph

theorem lookup_eq_some_of_mem {κ α : Type} [BEq κ] [LawfulBEq κ] {l : List (κ × α)}
    (hkeys : (l.map Prod.fst).Nodup) {key : κ} {value : α} (h : (key, value) ∈ l) :
    l.lookup key = some value := by
  induction l with
  | nil => cases h
  | cons e rest ih =>
    rw [List.map_cons, List.nodup_cons] at hkeys
    rcases List.mem_cons.mp h with rfl | h
    · simp
    · have hne : (key == e.1) = false :=
        beq_eq_false_iff_ne.mpr fun heq => hkeys.1 (List.mem_map.mpr ⟨_, h, heq⟩)
      rw [List.lookup_cons, hne]
      exact ih hkeys.2 h

theorem lookup_eq_none_of_not_mem {κ α : Type} [BEq κ] [LawfulBEq κ] {l : List (κ × α)} {key : κ}
    (h : key ∉ l.map Prod.fst) : l.lookup key = none := by
  refine List.lookup_eq_none_iff.mpr fun e he => ?_
  simp only [bne_iff_ne]
  exact fun heq => h (List.mem_map.mpr ⟨e, he, heq.symm⟩)

namespace Directory

variable {α : Type}

theorem get?_insert (key other : String) (value : α) (d : Directory α) :
    get? (insert key value d) other = if key = other then some value else get? d other := by
  induction d with
  | nil => grind [insert, get?]
  | cons e rest ih =>
    obtain ⟨k, v⟩ := e
    simp only [get?] at ih
    simp only [insert, get?]
    split
    · grind
    · split
      · grind
      · grind

/-- Of several entries for a key the last one counts. -/
theorem get?_ofEntries (entries : List (String × α)) (key : String) :
    get? (ofEntries entries) key = entries.reverse.lookup key := by
  -- the directory so far is put behind the entries that are still to be inserted
  have go (d : Directory α) : get? (entries.foldl (fun d e => insert e.1 e.2 d) d) key =
      (entries.reverse.lookup key).or (get? d key) := by
    induction entries generalizing d with
    | nil => simp
    | cons e rest ih =>
      rw [List.foldl_cons, ih, get?_insert, List.reverse_cons, List.lookup_append]
      cases rest.reverse.lookup key with
      | some v => simp
      | none => by_cases h : e.1 = key <;> grind
  simpa [ofEntries, get?] using go []

/-! ## Sorted directories -/

def Sorted (d : Directory α) : Prop :=
  d.Pairwise fun a b => a.1 < b.1

instance (d : Directory α) : Decidable d.Sorted :=
  inferInstanceAs (Decidable (d.Pairwise fun a b => a.1 < b.1))

theorem mem_insert {d : Directory α} {key : String} {value : α} {e : String × α}
    (h : e ∈ insert key value d) : e = (key, value) ∨ e ∈ d := by
  induction d with
  | nil => exact .inl (List.mem_singleton.mp h)
  | cons f d ih =>
    rw [insert] at h
    split at h
    · exact List.mem_cons.mp h
    · split at h
      · exact (List.mem_cons.mp h).imp_right (List.mem_cons_of_mem f)
      · rcases List.mem_cons.mp h with rfl | h
        · exact .inr List.mem_cons_self
        · exact (ih h).imp_right (List.mem_cons_of_mem f)

theorem Sorted.insert {d : Directory α} (h : Sorted d) (key : String) (value : α) :
    Sorted (d.insert key value) := by
  induction d with
  | nil => exact List.pairwise_singleton _ _
  | cons f d ih =>
    obtain ⟨hf, hd⟩ := List.pairwise_cons.mp h
    rw [Directory.insert]
    split
    case isTrue hlt =>
      refine List.pairwise_cons.mpr ⟨fun e he => ?_, h⟩
      rcases List.mem_cons.mp he with rfl | he
      · exact hlt
      · exact String.lt_trans hlt (hf e he)
    case isFalse hge =>
      split
      case isTrue heq => exact List.pairwise_cons.mpr ⟨fun e he => heq ▸ hf e he, hd⟩
      case isFalse hne =>
        refine List.pairwise_cons.mpr ⟨fun e he => ?_, ih hd⟩
        rcases mem_insert he with rfl | he
        · exact Std.lt_of_le_of_ne (String.not_lt.mp hge) (Ne.symm hne)
        · exact hf e he

theorem insert_perm {d : Directory α} {key : String} (h : key ∉ d.map Prod.fst) (value : α) :
    (d.insert key value).Perm ((key, value) :: d) := by
  induction d with
  | nil => exact .refl _
  | cons f d ih =>
    obtain ⟨hne, hd⟩ := not_or.mp (mt List.mem_cons.mpr h)
    rw [Directory.insert, if_neg hne]
    split
    · exact .refl _
    · exact ((ih hd).cons f).trans (.swap _ _ d)

/-- Entries of new keys are inserted one after the other. None is lost, and the order is kept. -/
theorem foldl_insert {entries : List (String × α)} {front : Directory α} (hfront : Sorted front)
    (hkeys : ((front ++ entries).map Prod.fst).Nodup) :
    Sorted (entries.foldl (fun d e => d.insert e.1 e.2) front) ∧
      (entries.foldl (fun d e => d.insert e.1 e.2) front).Perm (front ++ entries) := by
  induction entries generalizing front with
  | nil => exact ⟨hfront, by simp⟩
  | cons e entries ih =>
    have hswap : (front ++ e :: entries).Perm (e :: front ++ entries) := List.perm_middle
    rw [(hswap.map Prod.fst).nodup_iff, List.cons_append, List.map_cons, List.nodup_cons] at hkeys
    have hnew : e.1 ∉ front.map Prod.fst := fun hmem =>
      hkeys.1 (by rw [List.map_append]; exact List.mem_append_left _ hmem)
    have hinsert := (insert_perm hnew e.2).append_right entries
    obtain ⟨hsorted, hrest⟩ := ih (hfront.insert e.1 e.2)
      ((hinsert.map Prod.fst).nodup_iff.mpr (List.nodup_cons.mpr hkeys))
    exact ⟨hsorted, hrest.trans (hinsert.trans hswap.symm)⟩

/-- **The directory of entries in any order.** -/
theorem ofEntries_of_perm {entries : List (String × α)} {d : Directory α} (hperm : entries.Perm d)
    (h : Sorted d) : ofEntries entries = d := by
  have hkeys : (entries.map Prod.fst).Nodup := by
    rw [(hperm.map Prod.fst).nodup_iff, List.Nodup, List.pairwise_map]
    exact h.imp String.ne_of_lt
  obtain ⟨hsorted, hall⟩ := foldl_insert (show Sorted [] from List.Pairwise.nil) hkeys
  refine List.Perm.eq_of_pairwise (fun a b _ _ hab hba => ?_) hsorted h (hall.trans hperm)
  exact absurd hba (String.lt_asymm hab)

end Directory

end TxGraph
