import Mathlib.Data.List.Count
import Mathlib.Data.List.Find
import Mathlib.Data.List.Sort
import TxGraph.Graph.Flow

/-!
# Counting down

The counts of a run through links are the numbers of links from ids that are not yet taken, so none
is ever negative. What is ready stands in the queue in the order of the ids, in whatever order the
ids are found and the links are listed. Hence each id that is taken is the first of those that wait
for nothing, which is how `Takes` describes a run without counts and queue.
-/

namespace TxGraph.Flow

/-- The id is not yet taken, and every other from which a link leads to it is. -/
def Ready (ids : List String) (links : Links) (taken : List String) (id : String) : Prop :=
  id ∉ taken ∧ ∀ u ∈ ids, (u, id) ∈ links → u ∈ taken

instance (ids : List String) (links : Links) (taken : List String) (id : String) :
    Decidable (Ready ids links taken id) :=
  inferInstanceAs (Decidable (_ ∧ ∀ u ∈ ids, _))

def firstReady? (ids : List String) (links : Links) (taken : List String) : Option String :=
  ids.find? fun id => Ready ids links taken id

section

variable {ids taken : List String} {links : Links}

theorem firstReady?_eq_none :
    firstReady? ids links taken = none ↔ ∀ id ∈ ids, ¬ Ready ids links taken id := by
  simp [firstReady?]

theorem ready_of_firstReady? {id : String} (h : firstReady? ids links taken = some id) :
    id ∈ ids ∧ Ready ids links taken id :=
  ⟨List.mem_of_find?_eq_some h, by simpa using List.find?_some h⟩

/-- Neither the order of links and of what is taken nor their number matters. -/
theorem firstReady?_congr {taken' : List String} {links' : Links}
    (htaken : ∀ u, u ∈ taken ↔ u ∈ taken')
    (hlinks : ∀ u ∈ ids, ∀ v ∈ ids, (u, v) ∈ links ↔ (u, v) ∈ links') :
    firstReady? ids links taken = firstReady? ids links' taken' := by
  refine List.find?_congr fun id hid => decide_eq_decide.mpr ?_
  refine and_congr (not_congr (htaken id)) (forall₂_congr fun u hu => ?_)
  exact imp_congr (hlinks u hu id hid) (htaken u)

end

/-- When some ids are taken, the others are taken in this order: always the first that is ready,
until none is. -/
inductive Takes (ids : List String) (links : Links) : (taken order : List String) → Prop
  | done {taken : List String} (h : firstReady? ids links taken = none) : Takes ids links taken []
  | take {taken order : List String} {id : String} (h : firstReady? ids links taken = some id)
      (rest : Takes ids links (id :: taken) order) : Takes ids links taken (id :: order)

namespace Countdown

variable {ids : List String} {links : Links}
variable {ready taken : List String} {id : String} {c : Countdown}

/-! ## The queue -/

theorem filter_mem_of_sublist (hids : ids.Nodup) (h : ready.Sublist ids) :
    ids.filter (· ∈ ready) = ready := by
  induction h with
  | slnil => rfl
  | cons id h ih =>
    obtain ⟨hid, hids⟩ := List.nodup_cons.mp hids
    rw [List.filter_cons_of_neg (by simpa using fun hmem => hid (h.subset hmem)), ih hids]
  | @cons_cons ready ids id h ih =>
    obtain ⟨hid, hids⟩ := List.nodup_cons.mp hids
    have hsame : ids.filter (· ∈ id :: ready) = ids.filter (· ∈ ready) := by
      refine List.filter_congr fun a ha => ?_
      have hne : a ≠ id := fun heq => hid (heq ▸ ha)
      simp [hne]
    rw [List.filter_cons_of_pos (by simp), hsame, ih hids]

theorem pairwise_idxOf (hids : ids.Nodup) : ids.Pairwise fun a b => ids.idxOf a < ids.idxOf b := by
  rw [List.pairwise_iff_getElem]
  intro i j hi hj hij
  rwa [hids.idxOf_getElem, hids.idxOf_getElem]

theorem sorted_eq_insertionSort (ready : List String) :
    sorted ids ready = ready.insertionSort fun a b => ids.idxOf a ≤ ids.idxOf b := by
  have hinsert (id : String) (queue : List String) : enqueue ids id queue =
      queue.orderedInsert (fun a b => ids.idxOf a ≤ ids.idxOf b) id := by
    induction queue with
    | nil => rfl
    | cons first rest ih => rw [enqueue, ih, List.orderedInsert_cons]
  induction ready with
  | nil => rfl
  | cons id ready ih =>
    rw [List.insertionSort_cons, ← ih, ← hinsert, sorted, List.foldr_cons, sorted]

/-- Sorting brings ids into the order of all. -/
theorem sorted_eq_filter (hids : ids.Nodup) (hready : ready.Nodup) (h : ready ⊆ ids) :
    sorted ids ready = ids.filter (· ∈ ready) := by
  rw [sorted_eq_insertionSort]
  have hperm : (ready.insertionSort fun a b => ids.idxOf a ≤ ids.idxOf b).Perm
      (ids.filter (· ∈ ready)) := by
    refine (List.perm_insertionSort _ ready).trans ?_
    refine (List.perm_ext_iff_of_nodup hready (hids.filter _)).mpr fun a => ?_
    simpa using @h a
  have htotal : Std.Total fun a b : String => ids.idxOf a ≤ ids.idxOf b :=
    ⟨fun _ _ => Nat.le_total _ _⟩
  have htrans : IsTrans String fun a b => ids.idxOf a ≤ ids.idxOf b :=
    ⟨fun _ _ _ => Nat.le_trans⟩
  have hfilter := ((pairwise_idxOf hids).imp Nat.le_of_lt).sublist
    (List.filter_sublist (p := (· ∈ ready)))
  refine List.Perm.eq_of_pairwise (fun a b _ hb hab hba => ?_) (List.pairwise_insertionSort _ ready)
    hfilter hperm
  exact ((List.idxOf_inj (List.mem_filter.mp hb).1).mp (Nat.le_antisymm hba hab)).symm

/-- The queue stays in the order of the ids, though it is sorted only when something is released. -/
theorem queue_eq_filter {released : List String} (hids : ids.Nodup) (hready : ready.Sublist ids)
    (hreleased : released.Nodup) (h : released ⊆ ids) (hnew : ready.Disjoint released) :
    (if released.isEmpty then ready else sorted ids (ready ++ released)) =
      ids.filter (· ∈ ready ++ released) := by
  cases released with
  | nil => simpa using (filter_mem_of_sublist hids hready).symm
  | cons =>
    refine sorted_eq_filter hids ?_ (List.append_subset.mpr ⟨hready.subset, h⟩)
    exact List.nodup_append'.mpr ⟨hids.sublist hready, hreleased, hnew⟩

/-! ## The counts -/

theorem drop_map (count : String → Int) (target : String) :
    drop (ids.map fun id => (id, count id)) target =
      ids.map fun id => (id, if id = target then count id - 1 else count id) := by
  rw [drop, List.map_map]
  refine List.map_congr_left fun id _ => ?_
  by_cases h : id = target <;> simp [h]

theorem lookup_map (count : String → Int) (target : String) :
    (ids.map fun id => (id, count id)).lookup target =
      if target ∈ ids then some (count target) else none := by
  induction ids with
  | nil => rfl
  | cons id ids ih =>
    rw [List.map_cons, List.lookup_cons, ih]
    by_cases h : target = id
    · simp [h]
    · simp [h, beq_false_of_ne h]

/-- Each target is counted down once for each time that it occurs. -/
theorem release_waits (count : String → Int) (targets : List String) :
    (release targets (ids.map fun id => (id, count id))).1 =
      ids.map fun id => (id, count id - targets.count id) := by
  induction targets generalizing count with
  | nil => simp [release]
  | cons target targets ih =>
    simp only [release, drop_map, ih]
    refine List.map_congr_left fun id _ => ?_
    rw [List.count_cons]
    by_cases h : id = target
    · simp only [h, if_pos, beq_self_eq_true]
      congr 1
      push_cast
      omega
    · simp [h, Ne.symm h]

/-- A target is released once if its count comes down to zero, and not otherwise. -/
theorem count_released (count : String → Int) (targets : List String) (id : String) :
    (release targets (ids.map fun id => (id, count id))).2.count id =
      if id ∈ ids ∧ 1 ≤ count id ∧ count id ≤ targets.count id then 1 else 0 := by
  induction targets generalizing count with
  | nil =>
    have hnone : ¬ (id ∈ ids ∧ 1 ≤ count id ∧ count id ≤ ([] : List String).count id) := by
      rintro ⟨-, hpos, hle⟩
      rw [List.count_nil] at hle
      omega
    rw [if_neg hnone]
    rfl
  | cons target targets ih =>
    have hmore := ih fun id => if id = target then count id - 1 else count id
    simp only [release, drop_map, lookup_map, if_pos]
    by_cases hid : id = target
    · -- the count reaches zero with this link or with a later one
      subst hid
      simp only [if_pos] at hmore
      by_cases hmem : id ∈ ids
      · simp only [hmem, true_and, if_true, Option.some.injEq] at hmore ⊢
        rw [List.count_cons_self]
        split
        case isTrue hlast =>
          rw [List.count_cons_self, hmore, if_neg (by omega), if_pos (by omega)]
        case isFalse hlast =>
          rw [hmore]
          exact if_congr (by omega) rfl rfl
      · simp [hmem, hmore]
    · have hother (released : List String) (c : Prop) [Decidable c] :
          (if c then target :: released else released).count id = released.count id := by
        split
        · exact List.count_cons_of_ne (Ne.symm hid)
        · rfl
      simp only [hother, hmore, if_neg hid, List.count_cons_of_ne (Ne.symm hid)]

theorem nodup_released (count : String → Int) (targets : List String) :
    (release targets (ids.map fun id => (id, count id))).2.Nodup := by
  refine List.nodup_iff_count_le_one.mpr fun id => ?_
  rw [count_released]
  split <;> omega

theorem mem_released {count : String → Int} {targets : List String} :
    id ∈ (release targets (ids.map fun id => (id, count id))).2 ↔
      id ∈ ids ∧ 1 ≤ count id ∧ count id ≤ targets.count id := by
  rw [← List.count_pos_iff, count_released]
  split
  case isTrue h => exact ⟨fun _ => h, fun _ => Nat.one_pos⟩
  case isFalse h => exact ⟨fun hpos => absurd hpos (Nat.lt_irrefl 0), fun hin => absurd hin h⟩

/-! ## What is counted -/

/-- The number of links to an id from those that are not yet taken. -/
def waitsFor (ids : List String) (links : Links) (taken : List String) (id : String) : Nat :=
  links.countP fun l => l.1 ∈ ids && l.1 ∉ taken && l.2 == id

theorem waitsFor_eq_zero : waitsFor ids links taken id = 0 ↔
    ∀ u ∈ ids, (u, id) ∈ links → u ∈ taken := by
  simp only [waitsFor, List.countP_eq_zero, Bool.and_eq_true, decide_eq_true_eq, beq_iff_eq]
  constructor
  · intro h u hu hlink
    exact Decidable.not_not.mp fun hnot => h _ hlink ⟨⟨hu, hnot⟩, rfl⟩
  · rintro h ⟨u, v⟩ hlink ⟨⟨hu, hnot⟩, rfl⟩
    exact hnot (h u hu hlink)

theorem ready_iff : Ready ids links taken id ↔ id ∉ taken ∧ waitsFor ids links taken id = 0 := by
  rw [Ready, waitsFor_eq_zero]

theorem waitsFor_take (links : Links) {x : String} (hx : x ∈ ids) (hnew : x ∉ taken) (id : String) :
    waitsFor ids links taken id =
      (links.after x).count id + waitsFor ids links (x :: taken) id := by
  have hfrom : (links.filter fun l => l.1 == x).countP
      (fun l => l.1 ∈ ids && l.1 ∉ taken && l.2 == id) = (links.after x).count id := by
    rw [Links.after, List.count_eq_countP, List.countP_map]
    refine List.countP_congr fun l hl => ?_
    have hl : l.1 = x := by simpa using (List.mem_filter.mp hl).2
    simp [hl, hx, hnew]
  have hothers : (links.filter fun l => !(l.1 == x)).countP
      (fun l => l.1 ∈ ids && l.1 ∉ taken && l.2 == id) = waitsFor ids links (x :: taken) id := by
    rw [waitsFor, List.countP_filter]
    refine List.countP_congr fun l _ => ?_
    by_cases hl : l.1 = x <;> simp [hl]
  rw [waitsFor, List.countP_eq_countP_filter_add _ _ fun l : String × String => l.1 == x, hfrom,
    hothers]

/-- The state is that of a run that has taken some ids. -/
structure Tracks (ids : List String) (links : Links) (taken : List String) (c : Countdown) :
    Prop where
  waits : ∃ found : List String, found.Perm ids ∧
    c.waits = found.map fun id => (id, (waitsFor ids links taken id : Int))
  ready : c.ready = ids.filter fun id => Ready ids links taken id
  /-- Nothing that was taken waits. -/
  settled : ∀ id ∈ taken, waitsFor ids links taken id = 0

/-- The first sort brings what is ready into order. -/
theorem tracks_start (hids : ids.Nodup) {found : List String} (hfound : found.Perm ids) :
    Tracks ids links [] (start ids found links) := by
  have hcount (id : String) : (links.countP fun l => l.1 ∈ ids && l.2 == id) =
      waitsFor ids links [] id := by
    simp [waitsFor]
  have hready : ((found.map fun id => (id, (waitsFor ids links [] id : Int))).filter
      fun w => w.2 = 0).map Prod.fst = found.filter fun id => Ready ids links [] id := by
    rw [List.filter_map, List.map_map]
    simp [Function.comp_def, ready_iff]
  refine ⟨⟨found, hfound, by simp only [start, hcount]⟩, ?_, fun id hid => absurd hid List.not_mem_nil⟩
  simp only [start, hcount, hready]
  rw [sorted_eq_filter hids ((hfound.nodup_iff.mpr hids).filter _)
    (List.Subset.trans (List.filter_subset_self _) hfound.subset)]
  refine List.filter_congr fun id hid => decide_eq_decide.mpr ?_
  rw [List.mem_filter, hfound.mem_iff, decide_eq_true_eq, and_iff_right hid]

namespace Tracks

variable {taken : List String} {c : Countdown} (h : Tracks ids links taken c)
variable {id : String}

include h

theorem head?_ready : c.ready.head? = firstReady? ids links taken := by
  rw [h.ready, List.head?_filter, firstReady?]

variable {x : String} {ready : List String} (hready : c.ready = x :: ready)

include hready

theorem sublist_ready : (x :: ready).Sublist ids := by
  rw [← hready, h.ready]
  exact List.filter_sublist

theorem mem_ready : id ∈ x :: ready ↔ id ∈ ids ∧ Ready ids links taken id := by
  rw [← hready, h.ready, List.mem_filter, decide_eq_true_eq]

/-- What is released by taking the next id waits for nothing else. -/
theorem mem_released : id ∈ (release (links.after x) c.waits).2 ↔
    id ∈ ids ∧ waitsFor ids links taken id ≠ 0 ∧ waitsFor ids links (x :: taken) id = 0 := by
  obtain ⟨hx, hnew, -⟩ := (h.mem_ready hready).mp List.mem_cons_self
  have htake := waitsFor_take links hx hnew id
  obtain ⟨found, hfound, hwaits⟩ := h.waits
  rw [hwaits, Countdown.mem_released, hfound.mem_iff]
  refine and_congr_right fun _ => ?_
  omega

/-- Once the next id is taken, what is ready was so before or is released. -/
theorem mem_queue (hids : ids.Nodup) :
    id ∈ ready ++ (release (links.after x) c.waits).2 ↔
      id ∈ ids ∧ Ready ids links (x :: taken) id := by
  obtain ⟨hx, hnew, hfree⟩ := (h.mem_ready hready).mp List.mem_cons_self
  obtain ⟨hxready, -⟩ := List.nodup_cons.mp (hids.sublist (h.sublist_ready hready))
  have hxzero := waitsFor_eq_zero.mpr hfree
  have htake := waitsFor_take links hx hnew id
  have hmem : id ∈ x :: ready ↔ _ := h.mem_ready hready
  rw [ready_iff] at hmem
  rw [List.mem_append, h.mem_released hready, ready_iff, List.mem_cons, not_or]
  constructor
  · rintro (hid | ⟨hid, hwaits, hzero⟩)
    · obtain ⟨hids, hout, hzero⟩ := hmem.mp (List.mem_cons_of_mem _ hid)
      exact ⟨hids, ⟨fun heq => hxready (heq ▸ hid), hout⟩, by omega⟩
    · exact ⟨hid, ⟨fun heq => hwaits (heq ▸ hxzero), fun hout => hwaits (h.settled id hout)⟩, hzero⟩
  · rintro ⟨hid, ⟨hne, hout⟩, hzero⟩
    by_cases hwaits : waitsFor ids links taken id = 0
    · exact .inl ((List.mem_cons.mp (hmem.mpr ⟨hid, hout, hwaits⟩)).resolve_left hne)
    · exact .inr ⟨hid, hwaits, hzero⟩

/-- When the next id is taken, the counts and the queue follow. -/
theorem take (hids : ids.Nodup) : Tracks ids links (x :: taken) (c.take ids links x ready) := by
  obtain ⟨hx, hnew, hfree⟩ := (h.mem_ready hready).mp List.mem_cons_self
  have htake := waitsFor_take links hx hnew
  have hmem {id : String} : id ∈ (release (links.after x) c.waits).2 ↔ _ := h.mem_released hready
  obtain ⟨found, hfound, hwaits⟩ := h.waits
  unfold Countdown.take
  refine ⟨⟨found, hfound, ?_⟩, ?_, ?_⟩
  · dsimp only
    rw [hwaits, release_waits]
    refine List.map_congr_left fun id _ => ?_
    rw [htake id]
    congr 1
    omega
  · have hsub : ready.Sublist ids := (List.sublist_cons_self x ready).trans (h.sublist_ready hready)
    have hnodup : (release (links.after x) c.waits).2.Nodup := by
      rw [hwaits]
      exact nodup_released _ _
    have hdisjoint : ready.Disjoint (release (links.after x) c.waits).2 := fun id hid hrel =>
      (hmem.mp hrel).2.1
        (ready_iff.mp ((h.mem_ready hready).mp (List.mem_cons_of_mem _ hid)).2).2
    dsimp only
    rw [queue_eq_filter hids hsub hnodup (fun id hid => (hmem.mp hid).1) hdisjoint]
    refine List.filter_congr fun id hid => ?_
    rw [decide_eq_decide, h.mem_queue hready hids, and_iff_right hid]
  · intro id hid
    have hzero : waitsFor ids links taken id = 0 := by
      rcases List.mem_cons.mp hid with rfl | hid
      · exact waitsFor_eq_zero.mpr hfree
      · exact h.settled id hid
    have := htake id
    omega

omit hready

/-- **One step of a run.** It takes the first id that is ready. -/
theorem next? (hids : ids.Nodup) {c' : Countdown} (hnext : c.next? ids links = some (x, c')) :
    firstReady? ids links taken = some x ∧ Tracks ids links (x :: taken) c' := by
  unfold Countdown.next? at hnext
  split at hnext
  · cases hnext
  case h_2 ready hready =>
    cases hnext
    exact ⟨by rw [← h.head?_ready, hready]; rfl, h.take hready hids⟩

theorem next?_eq_none (hnext : c.next? ids links = none) : firstReady? ids links taken = none := by
  unfold Countdown.next? at hnext
  split at hnext
  case h_1 hready => rw [← h.head?_ready, hready]; rfl
  · cases hnext

end Tracks

/-! ## Runs -/

inductive Reached (ids : List String) (links : Links) : Countdown → Prop
  | start {found : List String} (h : found.Perm ids) :
      Reached ids links (Countdown.start ids found links)
  | next {c c' : Countdown} {x : String} (h : Reached ids links c)
      (hnext : c.next? ids links = some (x, c')) : Reached ids links c'

theorem Reached.tracks (h : Reached ids links c) (hids : ids.Nodup) :
    ∃ taken, Tracks ids links taken c := by
  induction h with
  | start hfound => exact ⟨[], tracks_start hids hfound⟩
  | next _ hnext ih =>
    obtain ⟨taken, htracks⟩ := ih
    exact ⟨_ :: taken, (htracks.next? hids hnext).2⟩

/-- No count is negative, neither now nor after any number of the links from the id that is taken
next. -/
def Bounded (links : Links) (c : Countdown) : Prop :=
  (∀ w ∈ c.waits, 0 ≤ w.2) ∧
    ∀ x ∈ c.ready.head?, ∀ targets, targets <+: links.after x →
      ∀ w ∈ (release targets c.waits).1, 0 ≤ w.2

/-- **Counts never go below zero.** -/
theorem Reached.bounded (h : Reached ids links c) (hids : ids.Nodup) : c.Bounded links := by
  obtain ⟨taken, htracks⟩ := h.tracks hids
  obtain ⟨found, -, hwaits⟩ := htracks.waits
  constructor
  · rw [hwaits]
    intro w hw
    obtain ⟨id, -, rfl⟩ := List.mem_map.mp hw
    exact Int.natCast_nonneg _
  · intro x hx targets htargets
    obtain ⟨ready, hready⟩ : ∃ ready, c.ready = x :: ready := List.head?_eq_some_iff.mp hx
    obtain ⟨hx, hnew, -⟩ := (htracks.mem_ready hready).mp List.mem_cons_self
    rw [hwaits, release_waits]
    intro w hw
    obtain ⟨id, -, rfl⟩ := List.mem_map.mp hw
    have htake := waitsFor_take links hx hnew id
    have hle := htargets.sublist.count_le id
    exact Int.sub_nonneg.mpr (Int.ofNat_le.mpr (by omega))

/-- A run with fuel for all that is not taken goes on until nothing is ready. -/
theorem Tracks.run (h : Tracks ids links taken c) (hids : ids.Nodup) {fuel : Nat}
    (hfuel : (ids.filter (· ∉ taken)).length ≤ fuel) :
    Takes ids links taken (c.run ids links fuel) := by
  induction fuel generalizing taken c with
  | zero =>
    refine .done (firstReady?_eq_none.mpr fun id hid hready => ?_)
    have hnone : ids.filter (· ∉ taken) = [] := List.eq_nil_of_length_eq_zero (by omega)
    have hout := List.filter_eq_nil_iff.mp hnone id hid
    exact hout (by simpa using hready.1)
  | succ fuel ih =>
    rw [Countdown.run]
    cases hnext : c.next? ids links with
    | none => exact .done (h.next?_eq_none hnext)
    | some step =>
      obtain ⟨x, c'⟩ := step
      obtain ⟨hfirst, htracks⟩ := h.next? hids hnext
      obtain ⟨hx, hnew, -⟩ := ready_of_firstReady? hfirst
      have hless : (ids.filter (· ∉ x :: taken)).length < (ids.filter (· ∉ taken)).length := by
        have hsplit : ids.filter (· ∉ x :: taken) = (ids.filter (· ∉ taken)).filter (· ≠ x) := by
          rw [List.filter_filter]
          refine List.filter_congr fun id _ => ?_
          simp
        rw [hsplit, List.length_filter_lt_length_iff_exists]
        exact ⟨x, by simp [hx, hnew], by simp⟩
      exact .take hfirst (ih htracks (by omega))

end Countdown

variable {ids : List String} {links : Links}

/-- **The sequence takes the first ready id as long as there is one.** -/
theorem takes_sequence (hids : ids.Nodup) (links : Links) :
    Takes ids links [] (sequence ids links) :=
  (Countdown.tracks_start hids (.refl ids)).run hids (List.length_filter_le _ _)

namespace Takes

variable {taken order : List String}

theorem unique {other : List String} (h : Takes ids links taken order)
    (hother : Takes ids links taken other) : order = other := by
  induction h generalizing other with
  | done hnone =>
    cases hother with
    | done => rfl
    | take hsome => rw [hnone] at hsome; cases hsome
  | take hsome _ ih =>
    cases hother with
    | done hnone => rw [hnone] at hsome; cases hsome
    | take hsome' hrest =>
      rw [hsome] at hsome'
      cases hsome'
      rw [ih hrest]

theorem mem (h : Takes ids links taken order) {id : String} (hid : id ∈ order) :
    id ∈ ids ∧ id ∉ taken := by
  induction h with
  | done => cases hid
  | take hsome _ ih =>
    rcases List.mem_cons.mp hid with rfl | hid
    · obtain ⟨hid, hnew, -⟩ := ready_of_firstReady? hsome
      exact ⟨hid, hnew⟩
    · obtain ⟨hids, hnew⟩ := ih hid
      exact ⟨hids, fun hmem => hnew (List.mem_cons_of_mem _ hmem)⟩

theorem nodup (h : Takes ids links taken order) : order.Nodup := by
  induction h with
  | done => exact List.nodup_nil
  | take _ hrest ih =>
    exact List.nodup_cons.mpr ⟨fun hid => (hrest.mem hid).2 List.mem_cons_self, ih⟩

theorem congr {links' : Links} (h : Takes ids links taken order)
    (hlinks : ∀ u ∈ ids, ∀ v ∈ ids, (u, v) ∈ links ↔ (u, v) ∈ links') :
    Takes ids links' taken order := by
  induction h with
  | done hnone => exact .done ((firstReady?_congr (fun _ => Iff.rfl) hlinks).symm.trans hnone)
  | take hsome _ ih =>
    exact .take ((firstReady?_congr (fun _ => Iff.rfl) hlinks).symm.trans hsome) ih

end Takes

theorem mem_of_mem_sequence (hids : ids.Nodup) {id : String} (h : id ∈ sequence ids links) :
    id ∈ ids :=
  ((takes_sequence hids links).mem h).1

theorem sequence_eq (hids : ids.Nodup) {order : List String} (h : Takes ids links [] order) :
    sequence ids links = order :=
  (takes_sequence hids links).unique h

/-- It does not matter in which order the ids are found. -/
theorem run_start_eq_sequence (hids : ids.Nodup) {found : List String} (hfound : found.Perm ids) :
    (Countdown.start ids found links).run ids links ids.length = sequence ids links :=
  ((Countdown.tracks_start hids hfound).run hids (List.length_filter_le _ _)).unique
    (takes_sequence hids links)

/-- Neither the order of links nor their number matters. -/
theorem sequence_congr (hids : ids.Nodup) {links' : Links}
    (hlinks : ∀ u ∈ ids, ∀ v ∈ ids, (u, v) ∈ links ↔ (u, v) ∈ links') :
    sequence ids links = sequence ids links' :=
  (sequence_eq hids ((takes_sequence hids links).congr hlinks)).symm

end TxGraph.Flow
