import Mathlib.Data.List.Basic
import Mathlib.Logic.Relation
import TxGraph.Graph.Flow

/-!
# Walks along the flow

A search from a root finds the ids to which a walk along links leads. Links that are not yet
followed pay for what is put on the stack, so the fuel lasts until the stack is empty. The active
nodes are those on a walk from start to end, and they stay so when a node on no such walk is taken
out. A walk may pass ids that are not nodes.
-/

namespace TxGraph

namespace Flow

variable {links : Links} {a b id : String} {fuel : Nat} {stack seen : List String}

def Links.Walk (links : Links) : String → String → Prop :=
  Relation.ReflTransGen fun a b => (a, b) ∈ links

theorem Links.mem_after : b ∈ links.after a ↔ (a, b) ∈ links := by
  simp [Links.after]

theorem Links.walk_flip : links.flip.Walk a b ↔ links.Walk b a := by
  have hflip : (fun a b => (a, b) ∈ links.flip) = Function.swap fun a b => (a, b) ∈ links := by
    funext a b
    simp [Links.flip, Function.swap]
  rw [Links.Walk, hflip]
  exact Relation.reflTransGen_swap

theorem Links.Walk.mono {more : Links} (h : links ⊆ more) (hwalk : links.Walk a b) :
    more.Walk a b :=
  Relation.ReflTransGen.mono (fun _ _ hab => h hab) _ _ hwalk

/-! ## Searching -/

/-- The links that lead on from what is not yet seen. -/
def pending (links : Links) (seen : List String) : Links :=
  links.filter fun l => l.1 ∉ seen

/-- Seeing one more id uses up the links from it. -/
theorem length_pending (links : Links) (h : id ∉ seen) :
    (pending links seen).length = (links.after id).length + (pending links (id :: seen)).length := by
  have hfrom : (pending links seen).filter (fun l => l.1 == id) =
      links.filter fun l => l.1 == id := by
    rw [pending, List.filter_filter]
    refine List.filter_congr fun l _ => ?_
    by_cases hl : l.1 = id <;> simp [hl, h]
  have hrest : (pending links seen).filter (fun l => !(l.1 == id)) = pending links (id :: seen) := by
    rw [pending, List.filter_filter]
    refine List.filter_congr fun l _ => ?_
    by_cases hl : l.1 = id <;> simp [hl]
  rw [List.length_eq_length_filter_add fun l : String × String => l.1 == id, hfrom, hrest,
    Links.after, List.length_map]

/-- A search without fuel: after a number of rounds its stack is empty, and it has found these ids. -/
inductive Empties (links : Links) : (rounds : Nat) → (stack seen found : List String) → Prop
  | done (seen : List String) : Empties links 0 [] seen seen
  | known {n : Nat} {id : String} {stack seen found : List String} (h : id ∈ seen)
      (rest : Empties links n stack seen found) : Empties links (n + 1) (id :: stack) seen found
  | new {n : Nat} {id : String} {stack seen found : List String} (h : id ∉ seen)
      (rest : Empties links n (links.after id ++ stack) (id :: seen) found) :
      Empties links (n + 1) (id :: stack) seen found

/-- The stack is empty when the fuel for it and the pending links is used up. -/
theorem empties_search (hfuel : stack.length + (pending links seen).length ≤ fuel) :
    ∃ rounds ≤ fuel, Empties links rounds stack seen (search links fuel stack seen) := by
  induction fuel generalizing stack seen with
  | zero =>
    have hstack : stack = [] := List.eq_nil_of_length_eq_zero (by omega)
    subst hstack
    exact ⟨0, Nat.le_refl 0, .done seen⟩
  | succ fuel ih =>
    cases stack with
    | nil => exact ⟨0, Nat.zero_le _, .done seen⟩
    | cons first stack =>
      rw [List.length_cons] at hfuel
      rw [search]
      split
      case isTrue hseen =>
        have hless : stack.length + (pending links seen).length ≤ fuel := by omega
        obtain ⟨rounds, hrounds, hempties⟩ := ih hless
        exact ⟨rounds + 1, Nat.succ_le_succ hrounds, .known hseen hempties⟩
      case isFalse hnew =>
        have hpay := length_pending links hnew
        have hless : (links.after first ++ stack).length +
            (pending links (first :: seen)).length ≤ fuel := by
          rw [List.length_append]
          omega
        obtain ⟨rounds, hrounds, hempties⟩ := ih hless
        exact ⟨rounds + 1, Nat.succ_le_succ hrounds, .new hnew hempties⟩

namespace Empties

variable {rounds : Nat} {found : List String}

/-- What a search finds was seen or is reached from the stack. -/
theorem walk (h : Empties links rounds stack seen found) (hid : id ∈ found) :
    id ∈ seen ∨ ∃ root ∈ stack, links.Walk root id := by
  induction h with
  | done seen => exact .inl hid
  | known _ _ ih =>
    refine (ih hid).imp_right ?_
    rintro ⟨root, hroot, hwalk⟩
    exact ⟨root, List.mem_cons_of_mem _ hroot, hwalk⟩
  | @new _ first _ _ _ _ _ ih =>
    rcases ih hid with hseen | ⟨root, hroot, hwalk⟩
    · rcases List.mem_cons.mp hseen with rfl | hseen
      · exact .inr ⟨id, List.mem_cons_self, .refl⟩
      · exact .inl hseen
    · rcases List.mem_append.mp hroot with hroot | hroot
      · exact .inr ⟨first, List.mem_cons_self, .head (Links.mem_after.mp hroot) hwalk⟩
      · exact .inr ⟨root, List.mem_cons_of_mem _ hroot, hwalk⟩

/-- It finds what is on the stack and all that is reached from it. -/
theorem closed (h : Empties links rounds stack seen found)
    (hnext : ∀ a ∈ seen, ∀ b, (a, b) ∈ links → b ∈ seen ∨ b ∈ stack) :
    seen ⊆ found ∧ stack ⊆ found ∧ ∀ a ∈ found, ∀ b, (a, b) ∈ links → b ∈ found := by
  induction h with
  | done seen =>
    exact ⟨fun _ h => h, nofun, fun a ha b hab => (hnext a ha b hab).resolve_right List.not_mem_nil⟩
  | known hseen _ ih =>
    obtain ⟨hkeep, hstack, hclosed⟩ := ih (by grind)
    exact ⟨hkeep, List.cons_subset.mpr ⟨hkeep hseen, hstack⟩, hclosed⟩
  | new _ _ ih =>
    obtain ⟨hkeep, hstack, hclosed⟩ := ih (by grind [Links.mem_after])
    obtain ⟨hfirst, hkeep⟩ := List.cons_subset.mp hkeep
    exact ⟨hkeep, List.cons_subset.mpr ⟨hfirst, (List.append_subset.mp hstack).2⟩, hclosed⟩

end Empties

theorem empties_reachable (links : Links) (root : String) :
    ∃ rounds ≤ links.length + 1, Empties links rounds [root] [] (reachable links root) := by
  have hpending : (pending links []).length ≤ links.length := List.length_filter_le _ links
  exact empties_search (by rw [List.length_singleton]; omega)

/-- **What is reachable is at the end of a walk.** -/
theorem mem_reachable_iff {root : String} : id ∈ reachable links root ↔ links.Walk root id := by
  obtain ⟨rounds, -, hempties⟩ := empties_reachable links root
  constructor
  · intro h
    rcases hempties.walk h with hseen | ⟨start, hstart, hwalk⟩
    · cases hseen
    · rwa [List.mem_singleton.mp hstart] at hwalk
  · intro hwalk
    obtain ⟨-, hroot, hclosed⟩ := hempties.closed nofun
    induction hwalk with
    | refl => exact hroot List.mem_cons_self
    | tail _ hab ih => exact hclosed _ ih _ hab

/-! ## Walks around a node -/

def Links.without (links : Links) (id : String) : Links :=
  links.filter fun l => l.1 != id && l.2 != id

theorem Links.mem_without : (a, b) ∈ links.without id ↔ (a, b) ∈ links ∧ a ≠ id ∧ b ≠ id := by
  simp [Links.without]

/-- A walk between two nodes that cannot pass a third does not use its links. -/
theorem Links.Walk.avoid (hwalk : links.Walk a b) (h : links.Walk a id → ¬ links.Walk id b) :
    (links.without id).Walk a b := by
  induction hwalk with
  | refl => exact .refl
  | @tail c b hac hcb ih =>
    have hc : links.Walk a id → ¬ links.Walk id c := fun hid hidc => h hid (hidc.tail hcb)
    refine (ih hc).tail (Links.mem_without.mpr ⟨hcb, ?_, ?_⟩)
    · rintro rfl
      exact h hac (.single hcb)
    · rintro rfl
      exact h (hac.tail hcb) .refl

end Flow

/-! ## Active nodes -/

namespace Graph

variable {g : Graph}

theorem mem_activeIds_iff {start finish id : String} :
    id ∈ g.activeIds start finish ↔
      id ∈ g.nodes.map Node.id ∧ g.links.Walk start id ∧ g.links.Walk id finish := by
  have hids : id ∈ Flow.keepLast (g.nodes.map Node.id) ↔ id ∈ g.nodes.map Node.id := by
    simp [Flow.keepLast]
  have hsplit (active : List String) :
      id ∈ active.filter (· == start) ++ active.filter (· != start) ↔ id ∈ active := by
    by_cases heq : id = start <;> simp [heq]
  rw [activeIds, hsplit, List.mem_filter, hids, Bool.and_eq_true, decide_eq_true_eq,
    decide_eq_true_eq, Flow.mem_reachable_iff, Flow.mem_reachable_iff, Flow.Links.walk_flip]

/-- Two graphs of which one has, in their order, the ids of the other that are on walks between two
ids, have the same active ids. -/
theorem activeIds_congr {g' : Graph} {start finish : String} {p : String → Bool}
    (hids : Flow.keepLast (g'.nodes.map Node.id) = (Flow.keepLast (g.nodes.map Node.id)).filter p)
    (h : ∀ id, (g'.links.Walk start id ∧ g'.links.Walk id finish) ∧ p id = true ↔
      g.links.Walk start id ∧ g.links.Walk id finish) :
    g'.activeIds start finish = g.activeIds start finish := by
  have hactive : (Flow.keepLast (g'.nodes.map Node.id)).filter (fun id =>
        id ∈ Flow.reachable g'.links start && id ∈ Flow.reachable g'.links.flip finish) =
      (Flow.keepLast (g.nodes.map Node.id)).filter fun id =>
        id ∈ Flow.reachable g.links start && id ∈ Flow.reachable g.links.flip finish := by
    rw [hids, List.filter_filter]
    refine List.filter_congr fun id _ => ?_
    rw [Bool.eq_iff_iff]
    simpa only [Bool.and_eq_true, decide_eq_true_eq, Flow.mem_reachable_iff, Flow.Links.walk_flip]
      using h id
  rw [activeIds, activeIds]
  simp only [hactive]

def FlowsTo (g : Graph) (a b : String) : Prop :=
  ∃ e ∈ g.edges, e.isFlow = true ∧ e.source = a ∧ e.target = b

theorem mem_links {a b : String} : (a, b) ∈ g.links ↔ g.FlowsTo a b := by
  simp [links, FlowsTo, and_assoc]

theorem walk_links {a b : String} : g.links.Walk a b ↔ Relation.ReflTransGen g.FlowsTo a b := by
  have hsame : (fun a b => (a, b) ∈ g.links) = g.FlowsTo := by
    funext a b
    exact propext mem_links
  rw [Flow.Links.Walk, hsame]

theorem active_eq {start finish : Node} (hstart : g.start? = some start)
    (hfinish : g.finish? = some finish) : g.flow.active = g.activeIds start.id finish.id := by
  unfold flow
  rw [hstart, hfinish]

/-- **The active ids are those of nodes on walks from start to end, and every search ends.** A search
needs at most one round for each link and one for its root. -/
theorem mem_active_iff_walks {g : Graph} {start finish : Node} (hstart : g.start? = some start)
    (hfinish : g.finish? = some finish) :
    (∀ id, id ∈ g.flow.active ↔ (∃ n ∈ g.nodes, n.id = id) ∧
      Relation.ReflTransGen g.FlowsTo start.id id ∧ Relation.ReflTransGen g.FlowsTo id finish.id) ∧
    ∀ (links : Flow.Links) (root : String), ∃ rounds ≤ links.length + 1,
      Flow.Empties links rounds [root] [] (Flow.reachable links root) := by
  refine ⟨fun id => ?_, Flow.empties_reachable⟩
  rw [active_eq hstart hfinish, mem_activeIds_iff, walk_links, walk_links, List.mem_map]

/-- The flow reaches a loop through an id that is not a node, and leaves it for the end and for a
command from which nothing follows. -/
def detour : Graph where
  nodes := [.start "s", .command "a" (.splitCoins 1), .command "b" (.splitCoins 1),
    .command "lost" (.splitCoins 1), .finish "e"]
  edges := [.flow "s" "nowhere", .flow "nowhere" "a", .flow "a" "b", .flow "b" "a", .flow "b" "lost",
    .flow "b" "e"]

theorem mem_active_iff_walks_detour : detour.start? = some (.start "s") ∧
    detour.finish? = some (.finish "e") ∧ "a" ∈ detour.flow.active ∧ "lost" ∉ detour.flow.active ∧
    ∃ rounds ≤ 7, Flow.Empties detour.links rounds ["s"] [] (Flow.reachable detour.links "s") := by
  obtain ⟨hactive, hends⟩ := mem_active_iff_walks (g := detour) rfl rfl
  have hstep {a b : String} (h : Edge.flow a b ∈ detour.edges) : detour.FlowsTo a b :=
    ⟨_, h, rfl, rfl, rfl⟩
  have hfrom : Relation.ReflTransGen detour.FlowsTo "s" "a" :=
    .tail (.single (hstep (by decide : Edge.flow "s" "nowhere" ∈ _))) (hstep (by decide))
  have hto : Relation.ReflTransGen detour.FlowsTo "a" "e" :=
    .tail (.single (hstep (by decide : Edge.flow "a" "b" ∈ _))) (hstep (by decide))
  have hlost : ¬ Relation.ReflTransGen detour.FlowsTo "lost" "e" := by
    intro hwalk
    rcases hwalk.cases_head with heq | ⟨next, ⟨e, he, -, hsource, -⟩, -⟩
    · exact absurd heq (by decide)
    · exact absurd hsource ((by decide : ∀ e ∈ detour.edges, e.source ≠ "lost") e he)
  have hnode : ∃ n ∈ detour.nodes, n.id = "a" := by decide
  exact ⟨rfl, rfl, (hactive "a").mpr ⟨hnode, hfrom, hto⟩,
    fun hmem => hlost ((hactive "lost").mp hmem).2.2, hends detour.links "s"⟩

end Graph

end TxGraph
