import Mathlib.Data.List.Chain
import TxGraph.Proofs.Graph.Flow

/-!
# Flow along a path

A graph whose flow edges form one path from start to end runs its commands in the order of the path.
Searching the path from either end reaches all of it, and only the first node of what is left of it
is ready.
-/

namespace TxGraph

namespace Flow

variable {links : Links} {a root id : String} {path : List String}

def steps : List String → Links
  | a :: b :: rest => (a, b) :: steps (b :: rest)
  | _ => []

theorem map_fst_steps : (path : List String) → (steps path).map Prod.fst = path.dropLast
  | [] => rfl
  | [_] => rfl
  | a :: b :: rest => by rw [steps, List.map_cons, map_fst_steps (b :: rest), List.dropLast_cons_cons]

theorem map_snd_steps : (path : List String) → (steps path).map Prod.snd = path.tail
  | [] => rfl
  | [_] => rfl
  | a :: b :: rest => by rw [steps, List.map_cons, map_snd_steps (b :: rest)]; rfl

theorem length_steps (path : List String) : (steps path).length = path.length - 1 := by
  rw [← List.length_map Prod.snd, map_snd_steps, List.length_tail]

theorem isChain_steps (path : List String) : path.IsChain fun a b => (a, b) ∈ steps path := by
  have go : (path : List String) → (more : Links) → steps path ⊆ more →
      path.IsChain fun a b => (a, b) ∈ more := by
    intro path
    induction path with
    | nil => exact fun _ _ => .nil
    | cons a rest ih =>
      intro more hmore
      cases rest with
      | nil => exact .singleton a
      | cons b rest =>
        obtain ⟨hfirst, hrest⟩ := List.cons_subset.mp hmore
        exact List.isChain_cons_cons.mpr ⟨hfirst, ih more hrest⟩
  exact go path _ (List.Subset.refl _)

/-- What comes after a node from which one step goes. -/
theorem after_of_mem (h : (links.map Prod.fst).Nodup) {b : String} (hab : (a, b) ∈ links) :
    links.after a = [b] := by
  induction links with
  | nil => cases hab
  | cons l rest ih =>
    obtain ⟨hl, hrest⟩ := List.nodup_cons.mp h
    rcases List.mem_cons.mp hab with rfl | hab
    · have hnone : rest.filter (fun l => l.1 == a) = [] := by
        refine List.filter_eq_nil_iff.mpr fun l hmem heq => hl ?_
        exact List.mem_map.mpr ⟨l, hmem, beq_iff_eq.mp heq⟩
      simp [Links.after, hnone]
    · have hne : l.1 ≠ a := by
        rintro rfl
        exact hl (List.mem_map.mpr ⟨_, hab, rfl⟩)
      rw [Links.after, List.filter_cons_of_neg (by simpa using hne)]
      exact ih hrest hab

theorem after_of_not_mem (h : a ∉ links.map Prod.fst) : links.after a = [] := by
  rw [Links.after, List.map_eq_nil_iff, List.filter_eq_nil_iff]
  intro l hl heq
  exact h (beq_iff_eq.mp heq ▸ List.mem_map_of_mem hl)

/-! ## Searching -/

/-- A search along a path reaches all of it. -/
theorem search_path (hchain : path.IsChain fun a b => links.after a = [b])
    (hlast : ∀ a ∈ path.getLast?, links.after a = []) (hnodup : path.Nodup) :
    ∀ {seen : List String}, (∀ a ∈ path, a ∉ seen) →
    search links path.length path.head?.toList seen = path.reverse ++ seen := by
  induction path with
  | nil => intro seen _; rfl
  | cons a rest ih =>
    intro seen hseen
    obtain ⟨ha, hrest⟩ := List.nodup_cons.mp hnodup
    have hnext : links.after a = rest.head?.toList := by
      cases rest with
      | nil => exact hlast a rfl
      | cons b rest => exact (List.isChain_cons_cons.mp hchain).1
    have hlast' : ∀ b ∈ rest.getLast?, links.after b = [] := by
      intro b hb
      cases rest with
      | nil => cases hb
      | cons c rest => exact hlast b (by rwa [List.getLast?_cons_cons])
    have hnew : ∀ b ∈ rest, b ∉ a :: seen := by
      intro b hb hmem
      rcases List.mem_cons.mp hmem with rfl | hmem
      · exact ha hb
      · exact hseen b (List.mem_cons_of_mem _ hb) hmem
    have hstep : search links (rest.length + 1) [a] seen =
        search links rest.length (links.after a ++ []) (a :: seen) :=
      if_neg (hseen a List.mem_cons_self)
    rw [List.length_cons, List.head?_cons, Option.toList_some, hstep, List.append_nil, hnext,
      ih hchain.tail hlast' hrest hnew]
    simp

theorem mem_reachable (hroot : path.head? = some root) (hsize : links.length + 1 = path.length)
    (hfst : (links.map Prod.fst).Nodup) (hchain : path.IsChain fun a b => (a, b) ∈ links)
    (hlast : ∀ a ∈ path.getLast?, a ∉ links.map Prod.fst) (hnodup : path.Nodup) :
    id ∈ reachable links root ↔ id ∈ path := by
  have hfound := search_path (hchain.imp fun _ _ hab => after_of_mem hfst hab)
    (fun a ha => after_of_not_mem (hlast a ha)) hnodup fun _ _ => List.not_mem_nil
  rw [hroot, Option.toList_some] at hfound
  rw [reachable, hsize, hfound, List.append_nil, List.mem_reverse]

theorem getLast?_not_mem_dropLast (hnodup : path.Nodup) :
    ∀ a ∈ path.getLast?, a ∉ path.dropLast := by
  intro a ha hmem
  rw [← List.dropLast_append_getLast? a ha] at hnodup
  exact (List.nodup_append.mp hnodup).2.2 a hmem a (by simp) rfl

theorem mem_reachable_steps (hroot : path.head? = some root) (hnodup : path.Nodup) :
    id ∈ reachable (steps path) root ↔ id ∈ path := by
  have hpos : 0 < path.length := by
    cases path with
    | nil => cases hroot
    | cons a rest => exact Nat.succ_pos _
  refine mem_reachable hroot ?_ ?_ (isChain_steps path) ?_ hnodup
  · rw [length_steps]
    omega
  · rw [map_fst_steps]
    exact hnodup.sublist (List.dropLast_sublist _)
  · rw [map_fst_steps]
    exact getLast?_not_mem_dropLast hnodup

theorem map_fst_flip (links : Links) : links.flip.map Prod.fst = links.map Prod.snd := by
  simp [Links.flip]

theorem mem_reachable_flip (hroot : path.getLast? = some root) (hnodup : path.Nodup) :
    id ∈ reachable (steps path).flip root ↔ id ∈ path := by
  have hpos : 0 < path.length := by
    cases path with
    | nil => cases hroot
    | cons a rest => exact Nat.succ_pos _
  have hsnd : (steps path).flip.map Prod.fst = path.tail := by
    rw [map_fst_flip, map_snd_steps]
  have hroot' : path.reverse.head? = some root := by rwa [List.head?_reverse]
  refine (mem_reachable hroot' ?_ ?_ ?_ ?_ (List.nodup_reverse.mpr hnodup)).trans List.mem_reverse
  · rw [Links.flip, List.length_map, length_steps, List.length_reverse]
    omega
  · rw [hsnd]
    exact hnodup.sublist (List.tail_sublist _)
  · refine List.isChain_reverse.mpr ((isChain_steps path).imp fun a b hab => ?_)
    exact List.mem_map.mpr ⟨(a, b), hab, rfl⟩
  · rw [hsnd, List.getLast?_reverse]
    intro a ha hmem
    cases path with
    | nil => cases ha
    | cons b rest =>
      cases ha
      exact (List.nodup_cons.mp hnodup).1 hmem

/-! ## Scheduling -/

theorem filter_steps {rest : List String} (h : (a :: rest).Nodup) :
    (steps (a :: rest)).filter (fun l => l.1 != a) = steps rest := by
  have hkeep : (steps rest).filter (fun l => l.1 != a) = steps rest := by
    refine List.filter_eq_self.mpr fun l hl => bne_iff_ne.mpr ?_
    rintro rfl
    have hmem : l.1 ∈ rest.dropLast := map_fst_steps rest ▸ List.mem_map_of_mem hl
    exact (List.nodup_cons.mp h).1 ((List.dropLast_sublist _).subset hmem)
  cases rest with
  | nil => rfl
  | cons b rest => rw [steps, List.filter_cons_of_neg (by simp), hkeep]

/-- Of what is left of a path only the first is ready. -/
theorem takes_steps {ids : List String} (hnodup : path.Nodup) :
    ∀ {taken : List String}, (∀ id, id ∈ path ↔ id ∈ ids ∧ id ∉ taken) →
    (links.filter fun l => l.1 ∉ taken) = steps path → Takes ids links taken path := by
  induction path with
  | nil =>
    intro taken hleft _
    refine .done (firstReady?_eq_none.mpr fun id hid hready => ?_)
    exact List.not_mem_nil ((hleft id).mpr ⟨hid, hready.1⟩)
  | cons a rest ih =>
    intro taken hleft hlinks
    obtain ⟨ha, hrest⟩ := List.nodup_cons.mp hnodup
    -- the links that still count are the steps, so that all but the first wait
    have hwaits {id : String} : (∃ u, (u, id) ∈ links ∧ u ∉ taken) ↔ id ∈ rest := by
      have hsnd := map_snd_steps (a :: rest)
      rw [List.tail_cons, ← hlinks] at hsnd
      rw [← hsnd]
      simp
    have hready {id : String} (hid : id ∈ ids) : Ready ids links taken id ↔ id = a := by
      constructor
      · intro h
        refine (List.mem_cons.mp ((hleft id).mpr ⟨hid, h.1⟩)).resolve_right fun hmem => ?_
        obtain ⟨u, hlink, hu⟩ := hwaits.mpr hmem
        have hsource : u ∈ (a :: rest).dropLast := by
          rw [← map_fst_steps, ← hlinks]
          exact List.mem_map.mpr ⟨(u, id), List.mem_filter.mpr ⟨hlink, by simpa using hu⟩, rfl⟩
        exact hu (h.2 u ((hleft u).mp ((List.dropLast_sublist _).subset hsource)).1 hlink)
      · rintro rfl
        refine ⟨((hleft id).mp List.mem_cons_self).2, fun u _ hlink => ?_⟩
        exact Decidable.not_not.mp fun hu => ha (hwaits.mp ⟨u, hlink, hu⟩)
    have hfirst : firstReady? ids links taken = some a := by
      obtain ⟨hmem, -⟩ := (hleft a).mp List.mem_cons_self
      cases hcase : firstReady? ids links taken with
      | none => exact absurd ((hready hmem).mpr rfl) (firstReady?_eq_none.mp hcase a hmem)
      | some id =>
        obtain ⟨hid, hfree⟩ := ready_of_firstReady? hcase
        rw [(hready hid).mp hfree]
    refine .take hfirst (ih hrest (fun id => ?_) ?_)
    · have hmem := hleft id
      rw [List.mem_cons] at hmem
      rw [List.mem_cons, not_or, and_left_comm, ← hmem]
      constructor
      · exact fun hid => ⟨fun heq => ha (heq ▸ hid), .inr hid⟩
      · rintro ⟨hne, hid⟩
        exact hid.resolve_left hne
    · rw [← filter_steps hnodup, ← hlinks, List.filter_filter]
      refine List.filter_congr fun l _ => ?_
      by_cases hl : l.1 = a <;> simp [hl]

end Flow

namespace Graph

/-- The flow edges of the graph are one path from the start through commands to the end. -/
structure FlowsAlong (g : Graph) (start finish : String) (commands : List String) : Prop where
  ids : (g.nodes.map Node.id).Nodup
  starts : g.start? = some (.start start)
  ends : g.finish? = some (.finish finish)
  links : g.links = Flow.steps (start :: (commands ++ [finish]))
  nodup : (start :: (commands ++ [finish])).Nodup
  nodes : ∀ id ∈ commands, ∃ c, g.node? id = some (.command id c)

namespace FlowsAlong

variable {g : Graph} {start finish : String} {commands : List String}
  (h : g.FlowsAlong start finish commands)

include h

theorem node?_start : g.node? start = some (.start start) :=
  node?_eq_some_of_mem h.ids (List.mem_of_find?_eq_some h.starts)

theorem node?_finish : g.node? finish = some (.finish finish) :=
  node?_eq_some_of_mem h.ids (List.mem_of_find?_eq_some h.ends)

theorem mem_activeIds {id : String} :
    id ∈ g.activeIds start finish ↔ id ∈ start :: (commands ++ [finish]) := by
  have hlast : (start :: (commands ++ [finish])).getLast? = some finish := by
    rw [← List.cons_append, List.getLast?_concat]
  have hnode : id ∈ start :: (commands ++ [finish]) → id ∈ g.nodes.map Node.id := by
    intro hid
    have hfound : ∃ n, g.node? id = some n := by
      rcases List.mem_cons.mp hid with rfl | hid
      · exact ⟨_, h.node?_start⟩
      · rcases List.mem_append.mp hid with hid | hid
        · obtain ⟨c, hc⟩ := h.nodes id hid
          exact ⟨_, hc⟩
        · rw [List.mem_singleton.mp hid]
          exact ⟨_, h.node?_finish⟩
    obtain ⟨n, hn⟩ := hfound
    exact List.mem_map.mpr ⟨n, mem_of_node? hn, id_of_node? hn⟩
  have hids : id ∈ Flow.keepLast (g.nodes.map Node.id) ↔ id ∈ g.nodes.map Node.id := by
    simp [Flow.keepLast]
  simp only [activeIds, List.mem_append, List.mem_filter, hids, h.links, Bool.and_eq_true,
    decide_eq_true_eq, Flow.mem_reachable_steps List.head?_cons h.nodup,
    Flow.mem_reachable_flip hlast h.nodup, beq_iff_eq, bne_iff_ne, and_self]
  constructor
  · rintro (⟨⟨-, hid⟩, -⟩ | ⟨⟨-, hid⟩, -⟩) <;> exact hid
  · intro hid
    by_cases heq : id = start
    · exact .inl ⟨⟨hnode hid, hid⟩, heq⟩
    · exact .inr ⟨⟨hnode hid, hid⟩, heq⟩

/-- **Commands on a path run in the order of the path.** -/
theorem order_eq : g.flow.order = commands := by
  have hsequence : Flow.sequence (g.activeIds start finish) g.links =
      start :: (commands ++ [finish]) := by
    refine Flow.sequence_eq (g.activeIds_nodup start finish)
      (Flow.takes_steps h.nodup (fun id => ?_) ?_)
    · simpa using h.mem_activeIds.symm
    · simpa using h.links
  have hcommands : commands.filter (fun id => (g.node? id).any Node.isCommand) = commands := by
    refine List.filter_eq_self.mpr fun id hid => ?_
    obtain ⟨c, hc⟩ := h.nodes id hid
    simp [hc, Node.isCommand]
  have hflow : g.flow.order = (Flow.sequence (g.activeIds start finish) g.links).filter
      fun id => (g.node? id).any Node.isCommand := by
    unfold flow
    rw [h.starts, h.ends]
    rfl
  rw [hflow, hsequence]
  simp [h.node?_start, h.node?_finish, hcommands, Node.isCommand]

end FlowsAlong

end Graph

end TxGraph
