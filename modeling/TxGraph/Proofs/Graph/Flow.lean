import TxGraph.Proofs.Graph.Countdown

/-!
# Nodes and the order of execution

With distinct ids every node is found under its id. The order of execution names each of its
commands once, whatever the ids.
-/

namespace TxGraph

namespace Graph

variable {g : Graph}
variable {n : Node}

theorem id_of_node? {id : String} (h : g.node? id = some n) : n.id = id := by
  simpa using List.find?_some h

theorem mem_of_node? {id : String} (h : g.node? id = some n) : n ∈ g.nodes :=
  List.mem_of_find?_eq_some h

theorem node?_eq_some_of_mem (hids : (g.nodes.map Node.id).Nodup) (hn : n ∈ g.nodes) :
    g.node? n.id = some n := by
  cases hfound : g.node? n.id with
  | none => simpa using List.find?_eq_none.mp hfound n hn
  | some m =>
    have := List.inj_on_of_nodup_map hids (mem_of_node? hfound) hn (id_of_node? hfound)
    rw [this]

end Graph

namespace Flow

theorem nodup_eraseDups (ids : List String) : ids.eraseDups.Nodup := by
  cases ids with
  | nil => exact List.nodup_nil
  | cons id rest =>
    rw [List.eraseDups_cons]
    refine List.nodup_cons.mpr ⟨fun hmem => ?_, nodup_eraseDups _⟩
    simpa using (List.mem_filter.mp (List.mem_eraseDups.mp hmem)).2
termination_by ids.length
decreasing_by exact Nat.lt_succ_of_le (List.length_filter_le _ _)

theorem eraseDups_of_nodup {ids : List String} (h : ids.Nodup) : ids.eraseDups = ids := by
  induction ids with
  | nil => rfl
  | cons a ids ih =>
    obtain ⟨ha, hids⟩ := List.nodup_cons.mp h
    have hrest : ids.filter (fun b => !b == a) = ids := by
      refine List.filter_eq_self.mpr fun b hb => ?_
      have hne : b ≠ a := fun heq => ha (heq ▸ hb)
      simpa using hne
    rw [List.eraseDups_cons, hrest, ih hids]

theorem keepLast_of_nodup {ids : List String} (h : ids.Nodup) : keepLast ids = ids := by
  rw [keepLast, eraseDups_of_nodup (List.nodup_reverse.mpr h), List.reverse_reverse]

end Flow

namespace Graph

theorem activeIds_nodup (g : Graph) (start finish : String) : (g.activeIds start finish).Nodup := by
  have hids : (Flow.keepLast (g.nodes.map Node.id)).Nodup :=
    List.nodup_reverse.mpr (Flow.nodup_eraseDups _)
  refine List.nodup_append'.mpr ⟨(hids.filter _).filter _, (hids.filter _).filter _, ?_⟩
  intro id hstart hother
  have heq := (List.mem_filter.mp hstart).2
  have hne := (List.mem_filter.mp hother).2
  rw [beq_iff_eq] at heq
  exact absurd heq (by simpa using hne)

theorem order_nodup (g : Graph) : g.flow.order.Nodup := by
  unfold flow
  split
  · exact (Flow.takes_sequence (activeIds_nodup _ _ _) _).nodup.filter _
  · exact List.nodup_nil

theorem command_of_mem_order {g : Graph} {id : String} (h : id ∈ g.flow.order) :
    ∃ c, g.node? id = some (.command id c) := by
  unfold flow at h
  split at h
  · have hcommand := (List.mem_filter.mp h).2
    cases hn : g.node? id with
    | none => simp [hn] at hcommand
    | some n =>
      cases n with
      | command id' c =>
        have : id' = id := id_of_node? hn
        exact ⟨c, by rw [this]⟩
      | _ => simp [hn, Node.isCommand] at hcommand
  · cases h

end Graph

end TxGraph
