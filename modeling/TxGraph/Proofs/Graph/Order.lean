import Mathlib.Data.Fintype.Pigeonhole
import TxGraph.Proofs.Graph.Flow
import TxGraph.Proofs.Graph.Reach

/-!
# The order of execution

A run takes an active id when all active ids from which a flow edge leads to it are taken. What is
never taken has a predecessor that is never taken either, and among finitely many ids such a chain
closes to a cycle. So the order holds the active commands that no cycle reaches, each after those
that come before it in the flow.
-/

namespace TxGraph

namespace Flow

variable {r : String → String → Prop}

/-- In a finite set in which all have a predecessor, all are behind a cycle. -/
theorem exists_cycle {ids : List String} (h : ∀ v ∈ ids, ∃ u ∈ ids, r u v) {v : String}
    (hv : v ∈ ids) : ∃ u, Relation.TransGen r u u ∧ Relation.ReflTransGen r u v := by
  choose before hmem hbefore using h
  let back : { v // v ∈ ids } → { v // v ∈ ids } := fun v => ⟨before v v.2, hmem v v.2⟩
  have hback (w : { v // v ∈ ids }) : r (back w) w := hbefore w w.2
  have hwalk (n : Nat) (w : { v // v ∈ ids }) : Relation.ReflTransGen r (back^[n] w) w := by
    induction n with
    | zero => exact .refl
    | succ n ih =>
      rw [Function.iterate_succ_apply']
      exact .head (hback _) ih
  -- of infinitely many steps back two lead to the same id
  obtain ⟨m, n, hne, hsame⟩ := Finite.exists_ne_map_eq_of_infinite fun n => back^[n] ⟨v, hv⟩
  wlog hlt : m < n generalizing m n
  · exact this n m hne.symm hsame.symm (by omega)
  obtain ⟨k, rfl⟩ : ∃ k, n = k + 1 + m := ⟨n - m - 1, by omega⟩
  refine ⟨back^[m] ⟨v, hv⟩, ?_, hwalk m ⟨v, hv⟩⟩
  have hround : Relation.TransGen r (back^[k + 1] (back^[m] ⟨v, hv⟩)) (back^[m] ⟨v, hv⟩).1 := by
    rw [Function.iterate_succ_apply']
    exact .head' (hback _) (hwalk k _)
  rwa [← Function.iterate_add_apply, ← hsame] at hround

variable {ids : List String} {links : Links}

namespace Takes

variable {taken order : List String}

/-- Each id of a run is the first of those that are ready after the ones before it. -/
theorem firstReady? {pre post : List String} {x : String}
    (h : Takes ids links taken (pre ++ x :: post)) :
    firstReady? ids links (taken ++ pre) = some x := by
  induction pre generalizing taken with
  | nil =>
    cases h with
    | take hfirst _ => rwa [List.append_nil]
  | cons y pre ih =>
    cases h with
    | take _ hrest =>
      rw [← ih hrest]
      exact firstReady?_congr (fun u => by simp [or_left_comm]) fun _ _ _ _ => Iff.rfl

/-- A run goes on until nothing is ready. -/
theorem firstReady?_append (h : Takes ids links taken order) :
    Flow.firstReady? ids links (taken ++ order) = none := by
  induction h with
  | done hnone => rwa [List.append_nil]
  | take _ _ ih =>
    rw [← ih]
    exact firstReady?_congr (fun u => by simp [or_left_comm]) fun _ _ _ _ => Iff.rfl

end Takes

/-- What is ready comes after the first that is. -/
theorem sublist_of_firstReady? {taken : List String} {x y : String}
    (h : firstReady? ids links taken = some x) (hy : y ∈ ids) (hready : Ready ids links taken y) :
    y = x ∨ [x, y].Sublist ids := by
  obtain ⟨-, before, after, rfl, hbefore⟩ := List.find?_eq_some_iff_append.mp h
  rcases List.mem_append.mp hy with hmem | hmem
  · have hnot := hbefore y hmem
    simp [hready] at hnot
  · refine (List.mem_cons.mp hmem).imp_right fun hmem => ?_
    exact ((List.singleton_sublist.mpr hmem).cons_cons x).trans (List.sublist_append_right _ _)

/-- Of two lists that part the one that goes on with the lesser entry is the lesser. -/
theorem eq_or_lex {order other : List String}
    (h : ∀ pre x post y post', order = pre ++ x :: post → other = pre ++ y :: post' → x = y ∨ r x y)
    (hend : ∀ pre x post, order = pre ++ x :: post → other ≠ pre) :
    order = other ∨ List.Lex r order other := by
  induction order generalizing other with
  | nil =>
    cases other with
    | nil => exact .inl rfl
    | cons y other => exact .inr .nil
  | cons x order ih =>
    cases other with
    | nil => exact absurd rfl (hend [] x order rfl)
    | cons y other =>
      rcases h [] x order y other rfl rfl with rfl | hless
      · have hrest : order = other ∨ List.Lex r order other := by
          refine ih (fun pre x' post y' post' hx hy => ?_) fun pre x' post hx hy => ?_
          · exact h (x :: pre) x' post y' post' (by rw [hx]; rfl) (by rw [hy]; rfl)
          · exact hend (x :: pre) x' post (by rw [hx]; rfl) (by rw [hy])
        exact hrest.imp (congrArg (x :: ·)) .cons
      · exact .inr (.rel hless)

end Flow

namespace Graph

/-! ## The active graph -/

def Arc (g : Graph) (u v : String) : Prop :=
  u ∈ g.flow.active ∧ v ∈ g.flow.active ∧ g.FlowsTo u v

/-- A cycle of active ids, perhaps of a single one, leads to the id. -/
def BehindCycle (g : Graph) (v : String) : Prop :=
  ∃ u, Relation.TransGen g.Arc u u ∧ Relation.ReflTransGen g.Arc u v

def Ready (g : Graph) (taken : List String) (id : String) : Prop :=
  id ∈ g.flow.active ∧ id ∉ taken ∧ ∀ u, g.Arc u id → u ∈ taken

/-- The active ids in the order in which they are taken, markers included. -/
def sequence (g : Graph) : List String :=
  Flow.sequence g.flow.active g.links

variable {g : Graph}
variable {v u : String}
variable {pre post : List String}

theorem ready_iff {taken : List String} {id : String} : g.Ready taken id ↔
    id ∈ g.flow.active ∧ Flow.Ready g.flow.active g.links taken id := by
  refine and_congr_right fun hid => and_congr_right fun _ => ?_
  simp only [Arc, mem_links]
  exact ⟨fun h u hu hlink => h u ⟨hu, hid, hlink⟩, fun h u hu => h u hu.1 hu.2.2⟩

theorem active_nodup (g : Graph) : g.flow.active.Nodup := by
  unfold flow
  split
  · exact activeIds_nodup _ _ _
  · exact List.nodup_nil

theorem order_eq_filter (g : Graph) :
    g.flow.order = g.sequence.filter fun id => (g.node? id).any Node.isCommand := by
  unfold sequence flow
  split <;> rfl

theorem takes_sequence (g : Graph) : Flow.Takes g.flow.active g.links [] g.sequence :=
  Flow.takes_sequence g.active_nodup g.links

theorem ready_of_sequence {x : String} (h : g.sequence = pre ++ x :: post) : g.Ready pre x :=
  ready_iff.mpr (Flow.ready_of_firstReady? (h ▸ g.takes_sequence).firstReady?)

theorem not_ready_sequence (id : String) : ¬ g.Ready g.sequence id := fun h =>
  Flow.firstReady?_eq_none.mp g.takes_sequence.firstReady?_append id h.1 (ready_iff.mp h).2

/-! ## Cycles -/

/-- All that leads to an id is taken before it. -/
theorem mem_of_leads (h : Relation.TransGen g.Arc u v) (hsplit : g.sequence = pre ++ v :: post) :
    u ∈ pre := by
  induction h generalizing pre post with
  | single harc => exact (ready_of_sequence hsplit).2.2 u harc
  | @tail w v _ harc ih =>
    obtain ⟨pre₁, pre₂, rfl⟩ := List.append_of_mem ((ready_of_sequence hsplit).2.2 w harc)
    rw [List.append_assoc] at hsplit
    exact List.mem_append_left _ (ih hsplit)

/-- **Taken is what no cycle leads to.** -/
theorem mem_sequence_iff : v ∈ g.sequence ↔ v ∈ g.flow.active ∧ ¬ g.BehindCycle v := by
  constructor
  · intro hv
    refine ⟨(g.takes_sequence.mem hv).1, ?_⟩
    rintro ⟨u, hcycle, hwalk⟩
    have hu : u ∈ g.sequence := by
      obtain ⟨pre, post, hsplit⟩ := List.append_of_mem hv
      rcases Relation.reflTransGen_iff_eq_or_transGen.mp hwalk with rfl | hleads
      · exact hv
      · rw [hsplit]
        exact List.mem_append_left _ (mem_of_leads hleads hsplit)
    obtain ⟨pre, post, hsplit⟩ := List.append_of_mem hu
    exact (ready_of_sequence hsplit).2.1 (mem_of_leads hcycle hsplit)
  · rintro ⟨hactive, hfree⟩
    by_contra hv
    have hback : ∀ v ∈ g.flow.active.filter (· ∉ g.sequence),
        ∃ u ∈ g.flow.active.filter (· ∉ g.sequence), g.Arc u v := by
      intro v hv
      obtain ⟨hactive, hout⟩ := List.mem_filter.mp hv
      have hnot : ¬ ∀ u, g.Arc u v → u ∈ g.sequence := fun hall =>
        not_ready_sequence v ⟨hactive, of_decide_eq_true hout, hall⟩
      obtain ⟨u, hu⟩ := not_forall.mp hnot
      obtain ⟨harc, hunot⟩ := Classical.not_imp.mp hu
      exact ⟨u, List.mem_filter.mpr ⟨harc.1, decide_eq_true hunot⟩, harc⟩
    exact hfree (Flow.exists_cycle hback (List.mem_filter.mpr ⟨hactive, decide_eq_true hv⟩))

theorem sublist_sequence_of_arc (hv : v ∈ g.sequence) (h : g.Arc u v) :
    [u, v].Sublist g.sequence := by
  obtain ⟨pre, post, hsplit⟩ := List.append_of_mem hv
  have hu : u ∈ pre := (ready_of_sequence hsplit).2.2 u h
  rw [hsplit]
  exact (List.singleton_sublist.mpr hu).append (List.singleton_sublist.mpr List.mem_cons_self)

theorem mem_order_iff : v ∈ g.flow.order ↔
    v ∈ g.sequence ∧ ∃ c, g.node? v = some (.command v c) := by
  constructor
  · intro h
    refine ⟨?_, command_of_mem_order h⟩
    rw [order_eq_filter] at h
    exact (List.mem_filter.mp h).1
  · rintro ⟨hv, c, hc⟩
    rw [order_eq_filter]
    exact List.mem_filter.mpr ⟨hv, by simp [hc, Node.isCommand]⟩

/-- **The order of execution is the part of the active flow that is not behind a cycle.** It names
each command once and after all commands from which a flow edge leads to it, and no count of links
is ever negative while it is made. -/
theorem order_exact (g : Graph) :
    g.flow.order.Nodup ∧
    (∀ v, v ∈ g.flow.order ↔
      v ∈ g.flow.active ∧ (∃ c, g.node? v = some (.command v c)) ∧ ¬ g.BehindCycle v) ∧
    (∀ u v, v ∈ g.flow.order → g.Arc u v → (∃ c, g.node? u = some (.command u c)) →
      [u, v].Sublist g.flow.order) ∧
    ∀ c, Flow.Countdown.Reached g.flow.active g.links c → c.Bounded g.links := by
  refine ⟨g.order_nodup, fun v => ?_, fun u v hv harc hu => ?_, fun c hc => hc.bounded g.active_nodup⟩
  · rw [mem_order_iff, mem_sequence_iff, and_assoc, and_comm (a := ¬ _)]
  · obtain ⟨hv, c, hc⟩ := mem_order_iff.mp hv
    obtain ⟨d, hd⟩ := hu
    have hsub := (sublist_sequence_of_arc hv harc).filter fun id => (g.node? id).any Node.isCommand
    rw [order_eq_filter]
    simpa [hc, hd, Node.isCommand] using hsub

/-! ## The choice among ready ids -/

def position (g : Graph) (id : String) : Nat :=
  (g.nodes.map Node.id).idxOf id

/-- The first id goes before the second where both are ready: it is the start, or declared
earlier. -/
def Earlier (g : Graph) (start a b : String) : Prop :=
  b ≠ start ∧ (a = start ∨ g.position a < g.position b)

/-- Each id of the order is ready when its turn comes, and in the end none is. -/
structure Runs (g : Graph) (order : List String) : Prop where
  ready : ∀ pre x post, order = pre ++ x :: post → g.Ready pre x
  done : ∀ id, ¬ g.Ready order id

/-- The order goes on with an id as soon as it is ready. -/
def Prompt (g : Graph) (id : String) (order : List String) : Prop :=
  ∀ pre x post, order = pre ++ x :: post → g.Ready pre id → x = id

theorem runs_sequence : g.Runs g.sequence :=
  ⟨fun _ _ _ => ready_of_sequence, not_ready_sequence⟩

theorem pairwise_startFirst (hids : (g.nodes.map Node.id).Nodup) (start : String)
    {active : List String} (hsub : active.Sublist (g.nodes.map Node.id)) :
    (active.filter (· == start) ++ active.filter (· != start)).Pairwise (g.Earlier start) := by
  have hstart {id : String} (h : id ∈ active.filter (· == start)) : id = start :=
    beq_iff_eq.mp (List.mem_filter.mp h).2
  have hother {id : String} (h : id ∈ active.filter (· != start)) : id ≠ start :=
    bne_iff_ne.mp (List.mem_filter.mp h).2
  refine List.pairwise_append.mpr ⟨?_, ?_, fun a ha b hb => ⟨hother hb, .inl (hstart ha)⟩⟩
  · refine ((hids.sublist hsub).filter _).imp_of_mem fun ha hb hne => ?_
    exact absurd ((hstart ha).trans (hstart hb).symm) hne
  · have hdeclared := (Flow.Countdown.pairwise_idxOf hids).sublist
      (List.filter_sublist.trans hsub : (active.filter (· != start)).Sublist _)
    exact hdeclared.imp_of_mem fun _ hb hless => ⟨hother hb, .inr hless⟩

theorem pairwise_activeIds (hids : (g.nodes.map Node.id).Nodup) (start finish : String) :
    (g.activeIds start finish).Pairwise (g.Earlier start) := by
  rw [activeIds, Flow.keepLast_of_nodup hids]
  exact pairwise_startFirst hids start List.filter_sublist

section

variable {start finish : Node} (hids : (g.nodes.map Node.id).Nodup) (hstart : g.start? = some start)
  (hfinish : g.finish? = some finish)
variable {pre post other : List String} {x y : String}

include hids hstart hfinish

/-- What is taken goes before all else that is ready. -/
theorem earlier_of_sequence (hsplit : g.sequence = pre ++ x :: post) (hy : g.Ready pre y) :
    y = x ∨ g.Earlier start.id x y := by
  have hfirst := (hsplit ▸ g.takes_sequence).firstReady?
  refine (Flow.sublist_of_firstReady? hfirst hy.1 (ready_iff.mp hy).2).imp_right fun hsub => ?_
  rw [active_eq hstart hfinish] at hsub
  exact List.pairwise_pair.mp ((pairwise_activeIds hids start.id finish.id).sublist hsub)

theorem prompt_sequence : g.Prompt start.id g.sequence := by
  intro pre x post hsplit hready
  rcases earlier_of_sequence hids hstart hfinish hsplit hready with heq | hearlier
  · exact heq.symm
  · exact absurd rfl hearlier.1

/-- Where the start is not ready, what was declared first is taken. -/
theorem position_le_of_sequence (hsplit : g.sequence = pre ++ x :: post)
    (hnot : ¬ g.Ready pre start.id) (hy : g.Ready pre y) : g.position x ≤ g.position y := by
  rcases earlier_of_sequence hids hstart hfinish hsplit hy with rfl | ⟨-, rfl | hless⟩
  · exact Nat.le_refl _
  · exact absurd (ready_of_sequence hsplit) hnot
  · exact Nat.le_of_lt hless

/-- **No other order of the same flow comes before the sequence.** -/
theorem eq_or_lex_of_runs (hother : g.Runs other) :
    g.sequence = other ∨ List.Lex (g.Earlier start.id) g.sequence other := by
  refine Flow.eq_or_lex (fun pre x post y post' hx hy => ?_) fun pre x post hx hend => ?_
  · exact (earlier_of_sequence hids hstart hfinish hx (hother.ready _ _ _ hy)).imp_left Eq.symm
  · exact hother.done x (hend ▸ ready_of_sequence hx)

/-- Of the orders that take the start as soon as it is ready, none comes before the sequence by
declaration alone. -/
theorem eq_or_lex_position_of_prompt (hother : g.Runs other) (hprompt : g.Prompt start.id other) :
    g.sequence = other ∨ List.Lex (fun a b => g.position a < g.position b) g.sequence other := by
  refine Flow.eq_or_lex (fun pre x post y post' hx hy => ?_) fun pre x post hx hend => ?_
  · have hready := ready_of_sequence hx
    rcases earlier_of_sequence hids hstart hfinish hx (hother.ready _ _ _ hy) with heq | hearlier
    · exact .inl heq.symm
    · rcases hearlier.2 with rfl | hless
      · exact absurd (hprompt _ _ _ hy hready) hearlier.1
      · exact .inr hless
  · exact hother.done x (hend ▸ ready_of_sequence hx)

end

end Graph

end TxGraph
