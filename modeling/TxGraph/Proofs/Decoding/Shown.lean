import TxGraph.Proofs.Decoding.Names
import TxGraph.Proofs.Decoding.Run
import TxGraph.Proofs.Graph.Path

/-!
# Decoded graphs

What a decoded graph shows, in terms of graphs alone: its commands run in the order of the
transaction, and each port that a drawing uses has at most one edge.
-/

namespace TxGraph.Decoding

variable {plan : Plan} {d : Drawing} {k : Nat}

/-! ## Dropping inputs -/

theorem dropUnused_keeps (g : Graph) (ids : List String) :
    (dropUnused g ids).edges = g.edges ∧ (dropUnused g ids).nodes.Sublist g.nodes ∧
      ∀ n ∈ g.nodes, g.edges.any (·.touches n.id) = true → n ∈ (dropUnused g ids).nodes := by
  induction ids generalizing g with
  | nil => exact ⟨rfl, List.Sublist.refl _, fun _ hn _ => hn⟩
  | cons id rest ih =>
    rw [dropUnused, List.foldl_cons]
    by_cases hused : g.edges.any (·.touches id) = true
    · rw [if_pos hused]
      exact ih g
    · rw [if_neg hused]
      cases hnode : g.node? id with
      | none =>
        rw [Graph.removeNode, hnode]
        exact ih g
      | some found =>
        obtain ⟨hedges, hnodes, hkept⟩ := ih (g.removeNode id).1
        have hsame : (g.removeNode id).1.edges = g.edges := by
          rw [Graph.removeNode, hnode]
          refine List.filter_eq_self.mpr fun e he => ?_
          simp only [List.any_eq_true, not_exists, not_and] at hused
          simpa using hused e he
        have herase : (g.removeNode id).1.nodes = g.nodes.eraseP fun n => n.id == id := by
          rw [Graph.removeNode, hnode]
        refine ⟨hedges.trans hsame, hnodes.trans (herase ▸ List.eraseP_sublist),
          fun n hn htouched => ?_⟩
        refine hkept n ?_ (hsame ▸ htouched)
        rw [herase]
        refine (List.mem_eraseP_of_neg ?_).mpr hn
        intro heq
        exact hused (beq_iff_eq.mp heq ▸ htouched)

theorem find?_eq_some_of_unique {α : Type} {p : α → Bool} {a : α} {xs : List α} (ha : a ∈ xs)
    (hp : p a = true) (hunique : ∀ b ∈ xs, p b = true → b = a) : xs.find? p = some a := by
  cases hfound : xs.find? p with
  | none => exact absurd hp (by simpa using List.find?_eq_none.mp hfound a ha)
  | some b => rw [hunique b (List.mem_of_find?_eq_some hfound) (List.find?_some hfound)]

/-! ## Paths -/

def path (ks : List Nat) : List String :=
  startId :: (ks.map commandId ++ [finishId])

theorem nodup_path {ks : List Nat} (h : ks.Nodup) : (path ks).Nodup := by
  have hnames : path ks = (NodeName.start :: (ks.map .command ++ [.finish])).map NodeName.id := by
    simp [path, NodeName.id, Function.comp_def]
  rw [hnames]
  refine List.Nodup.map (fun _ _ => NodeName.id_inj) (List.nodup_cons.mpr ⟨by simp, ?_⟩)
  refine List.Nodup.append (h.map fun _ _ => NodeName.command.inj) (List.nodup_singleton _) ?_
  intro name hname hfinish
  obtain ⟨k, -, rfl⟩ := List.mem_map.mp hname
  simp at hfinish

theorem touched_of_path {g : Graph} {ks : List Nat} (hlinks : g.links = Flow.steps (path ks))
    {id : String} (h : id ∈ path ks) : g.edges.any (·.touches id) = true := by
  have hlink : ∃ l ∈ g.links, l.1 = id ∨ l.2 = id := by
    rw [hlinks]
    rcases List.mem_cons.mp h with rfl | h
    · have hmem : startId ∈ (Flow.steps (path ks)).map Prod.fst := by
        rw [Flow.map_fst_steps, path, ← List.cons_append, List.dropLast_concat]
        exact List.mem_cons_self
      obtain ⟨l, hl, heq⟩ := List.mem_map.mp hmem
      exact ⟨l, hl, .inl heq⟩
    · have hmem : id ∈ (Flow.steps (path ks)).map Prod.snd := by
        rw [Flow.map_snd_steps]
        exact h
      obtain ⟨l, hl, heq⟩ := List.mem_map.mp hmem
      exact ⟨l, hl, .inr heq⟩
  obtain ⟨l, hl, hid⟩ := hlink
  obtain ⟨e, he, rfl⟩ := List.mem_map.mp hl
  refine List.any_eq_true.mpr ⟨e, (List.mem_filter.mp he).1, ?_⟩
  simpa [Edge.touches] using hid

/-! ## Plans -/

def Plan.shown (k : Nat) : Plan → List Nat
  | [] => []
  | none :: rest => shown (k + 1) rest
  | some _ :: rest => k :: shown (k + 1) rest

theorem Plan.exists_cons {first : Option Drawing} {rest : Plan} {P : Nat → Drawing → Prop} :
    (∃ j d, (first :: rest)[j]? = some (some d) ∧ P j d) ↔
      (∃ d, first = some d ∧ P 0 d) ∨ ∃ j d, rest[j]? = some (some d) ∧ P (j + 1) d := by
  constructor
  · rintro ⟨j, d, hj, h⟩
    cases j with
    | zero => exact .inl ⟨d, Option.some_inj.mp hj, h⟩
    | succ j => exact .inr ⟨j, d, hj, h⟩
  · rintro (⟨d, rfl, h⟩ | ⟨j, d, hj, h⟩)
    · exact ⟨0, d, rfl, h⟩
    · exact ⟨j + 1, d, hj, h⟩

theorem Plan.mem_shown : ∀ {k n : Nat}, n ∈ plan.shown k ↔
    ∃ (j : Nat) (d : Drawing), plan[j]? = some (some d) ∧ n = k + j := by
  induction plan with
  | nil => simp [Plan.shown]
  | cons first rest ih =>
    intro k n
    rw [Plan.exists_cons]
    cases first with
    | none => simp [Plan.shown, ih, Nat.add_assoc, Nat.add_comm 1]
    | some d => simp [Plan.shown, ih, Nat.add_assoc, Nat.add_comm 1]

theorem Plan.nodup_shown : ∀ {k : Nat}, (plan.shown k).Nodup := by
  induction plan with
  | nil => exact List.nodup_nil
  | cons first rest ih =>
    intro k
    cases first with
    | none => exact ih
    | some d =>
      refine List.nodup_cons.mpr ⟨fun hmem => ?_, ih⟩
      obtain ⟨j, _, -, hk⟩ := Plan.mem_shown.mp hmem
      omega

theorem Plan.shown_map_some (k : Nat) (ds : List Drawing) :
    Plan.shown k (ds.map some) = List.range' k ds.length := by
  induction ds generalizing k with
  | nil => rfl
  | cons d rest ih => rw [List.map_cons, Plan.shown, ih, List.length_cons, List.range'_succ]

theorem Plan.mem_nodes {n : Node} : ∀ {k : Nat}, n ∈ plan.nodes k ↔
    ∃ (j : Nat) (d : Drawing), plan[j]? = some (some d) ∧ n ∈ d.nodes (k + j) := by
  induction plan with
  | nil => simp [Plan.nodes]
  | cons first rest ih =>
    intro k
    rw [Plan.exists_cons]
    cases first with
    | none => simp [Plan.nodes, ih, Nat.add_assoc, Nat.add_comm 1]
    | some d => simp [Plan.nodes, ih, Nat.add_assoc, Nat.add_comm 1]

theorem mem_drawing {n : Node} (h : n ∈ d.nodes k) :
    (∃ f ∈ d.feeds, n = .var f.1) ∨ n = .command (commandId k) d.command := by
  rcases List.mem_append.mp h with h | h
  · obtain ⟨f, hf, rfl⟩ := List.mem_map.mp h
    exact .inl ⟨f, hf, rfl⟩
  · exact .inr (List.mem_singleton.mp h)

section

variable {c : Context} {vs : List Variable} {plan : Plan} {edges : List Edge}
  (hvs : ∀ n v, vs[n]? = some v → v.id = inputId n) (hplan : plan.Outlined c 0)
  (packed : List String)

include hvs hplan

theorem node?_dropUnused {n : Node} (hn : n ∈ markers ++ vs.map .var ++ plan.nodes 0)
    (htouched : edges.any (·.touches n.id) = true) :
    (dropUnused ⟨markers ++ vs.map .var ++ plan.nodes 0, edges⟩ packed).node? n.id = some n := by
  obtain ⟨-, hsub, hkept⟩ := dropUnused_keeps ⟨markers ++ vs.map .var ++ plan.nodes 0, edges⟩ packed
  have hids := (nodup_plan hvs hplan).sublist (hsub.map Node.id)
  exact Graph.node?_eq_some_of_mem hids (hkept n hn htouched)

variable (hlinks : Graph.links ⟨markers ++ vs.map .var ++ plan.nodes 0, edges⟩ =
  Flow.steps (path (plan.shown 0)))

include hlinks

theorem node?_command {k : Nat} {d : Drawing} (hk : plan[k]? = some (some d)) :
    (dropUnused ⟨markers ++ vs.map .var ++ plan.nodes 0, edges⟩ packed).node? (commandId k) =
      some (.command (commandId k) d.command) := by
  have hmem : Node.command (commandId k) d.command ∈ plan.nodes 0 := by
    refine Plan.mem_nodes.mpr ⟨k, d, hk, ?_⟩
    rw [Nat.zero_add]
    exact List.mem_append_right _ List.mem_cons_self
  refine node?_dropUnused hvs hplan packed (List.mem_append_right _ hmem) (touched_of_path hlinks ?_)
  refine List.mem_cons_of_mem _ (List.mem_append_left _ (List.mem_map_of_mem ?_))
  exact Plan.mem_shown.mpr ⟨k, d, hk, (Nat.zero_add k).symm⟩

/-- The flow of a graph that is drawn by a plan goes along the commands that are shown. -/
theorem flowsAlong_plan :
    (dropUnused ⟨markers ++ vs.map .var ++ plan.nodes 0, edges⟩ packed).FlowsAlong startId finishId
      ((plan.shown 0).map commandId) := by
  obtain ⟨hedges, hsub, hkept⟩ :=
    dropUnused_keeps ⟨markers ++ vs.map .var ++ plan.nodes 0, edges⟩ packed
  have hmark {n : Node} (hn : n ∈ markers ++ vs.map .var ++ plan.nodes 0) (hvar : ∀ v, n ≠ .var v)
      (hcommand : n.isCommand = false) : n ∈ markers := by
    rcases List.mem_append.mp hn with hn | hn
    · refine (List.mem_append.mp hn).resolve_right fun hn => ?_
      obtain ⟨v, -, rfl⟩ := List.mem_map.mp hn
      exact hvar v rfl
    · obtain ⟨j, d, -, hn⟩ := Plan.mem_nodes.mp hn
      rcases mem_drawing hn with ⟨f, -, rfl⟩ | rfl
      · exact absurd rfl (hvar f.1)
      · cases hcommand
  refine ⟨(nodup_plan hvs hplan).sublist (hsub.map Node.id), ?_, ?_, ?_, nodup_path Plan.nodup_shown,
    fun id hid => ?_⟩
  · refine find?_eq_some_of_unique (hkept (.start startId) (by simp [markers])
      (touched_of_path hlinks (by simp [path, Node.id]))) rfl fun n hn hstart => ?_
    cases n with
    | start id => simpa [markers] using hmark (hsub.subset hn) nofun rfl
    | _ => cases hstart
  · refine find?_eq_some_of_unique (hkept (.finish finishId) (by simp [markers])
      (touched_of_path hlinks (by simp [path, Node.id]))) rfl fun n hn hfinish => ?_
    cases n with
    | finish id => simpa [markers] using hmark (hsub.subset hn) nofun rfl
    | _ => cases hfinish
  · rw [Graph.links, hedges]
    exact hlinks
  · obtain ⟨k, hk, rfl⟩ := List.mem_map.mp hid
    obtain ⟨j, d, hj, hkj⟩ := Plan.mem_shown.mp hk
    rw [Nat.zero_add] at hkj
    subst hkj
    exact ⟨_, node?_command hvs hplan packed hlinks hj⟩

end

/-! ## Edges of drawings -/

theorem feedEdge_of_mem {node : String} {e : Edge} (h : e ∈ d.feedEdges node) :
    ∃ f ∈ d.feeds, e = .io f.1.id Port.variableOut node f.2 none := by
  obtain ⟨f, hf, rfl⟩ := List.mem_map.mp h
  exact ⟨f, hf, rfl⟩

section

variable {lookup : TxArg → Option Producer} {k : Nat} {d : Drawing} {e : Edge}

theorem edgeBy?_eq_some {node : String} {ports : List Port} {slot : ArgSlot}
    (h : edgeBy? lookup node ports slot = some e) :
    e.isIo = true ∧ e.target = node ∧ e.targetHandle = slot.port ∧
      ∃ producer, lookup slot.arg = some producer ∧ e.source = producer.node ∧
        e.sourceHandle = producer.port := by
  simp only [edgeBy?, Option.bind_eq_bind, Option.bind_eq_some_iff] at h
  obtain ⟨producer, hproducer, port, hport, he⟩ := h
  cases he
  have hid : port.id = slot.port := by simpa using List.find?_some hport
  exact ⟨rfl, rfl, hid, producer, hproducer, rfl, rfl⟩

theorem edge_of_mem (h : e ∈ d.edgesBy lookup k) :
    e.isIo = true ∧ e.target = commandId k ∧
      ((∃ f ∈ d.feeds, e = .io f.1.id Port.variableOut (commandId k) f.2 none) ∨
        ∃ slot ∈ d.slots, edgeBy? lookup (commandId k) d.command.inputPorts slot = some e) := by
  rcases List.mem_append.mp h with h | h
  · obtain ⟨f, hf, rfl⟩ := feedEdge_of_mem h
    exact ⟨rfl, rfl, .inl ⟨f, hf, rfl⟩⟩
  · obtain ⟨slot, hslot, he⟩ := List.mem_filterMap.mp h
    obtain ⟨hio, htarget, -⟩ := edgeBy?_eq_some he
    exact ⟨hio, htarget, .inr ⟨slot, hslot, he⟩⟩

theorem filter_isFlow_edgesBy : (d.edgesBy lookup k).filter Edge.isFlow = [] := by
  refine List.filter_eq_nil_iff.mpr fun e he => ?_
  have := (edge_of_mem he).1
  simpa [Edge.isIo] using this

end

theorem map_filterMap_sublist {α β γ : Type} {f : α → Option β} {g : β → γ} {h : α → γ}
    (hfg : ∀ a b, f a = some b → g b = h a) (xs : List α) :
    ((xs.filterMap f).map g).Sublist (xs.map h) := by
  induction xs with
  | nil => exact .slnil
  | cons a rest ih =>
    cases ha : f a with
    | none =>
      rw [List.filterMap_cons_none ha]
      exact ih.cons _
    | some b =>
      rw [List.filterMap_cons_some ha, List.map_cons, List.map_cons, hfg a b ha]
      exact ih.cons_cons _

theorem nodup_targetHandle {lookup : TxArg → Option Producer} (hports : d.ports.Nodup) :
    ((d.edgesBy lookup k).map Edge.targetHandle).Nodup := by
  refine hports.sublist ?_
  rw [Drawing.edgesBy, List.map_append]
  refine List.Sublist.append ?_ (map_filterMap_sublist (fun slot e he => ?_) _)
  · rw [Drawing.feedEdges, List.map_map]
    exact List.Sublist.refl _
  · exact (edgeBy?_eq_some he).2.2.1

theorem commandId_inj {j : Nat} (h : commandId j = commandId k) : j = k :=
  NodeName.command.inj (NodeName.id_inj h)

end TxGraph.Decoding
