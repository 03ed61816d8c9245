import TxGraph.Graph.Edit
import TxGraph.Proofs.Graph.Reach
import TxGraph.Proofs.Program.DataFlow

/-!
# Inactive nodes

Taking a node out of a graph that has no part in its execution changes neither the order of
execution nor the program. The node is on no walk from start to end, so the active nodes and the
links between them stay. It offers no value to the compiler, so an edge from it brings as little to
its port as no edge.
-/

namespace TxGraph

namespace Graph

/-- The node has no part in the execution: a command that is not active, or a variable that is not
active and feeds no command of the order. -/
def Idle (g : Graph) : Node → Prop
  | .command id _ => id ∉ g.flow.active
  | .var v => v.id ∉ g.flow.active ∧
    ∀ e ∈ g.edges, e.isIo = true → e.source = v.id → e.target ∉ g.flow.order
  | _ => False

section

variable {g : Graph} {x : Node}

theorem Idle.inactive (h : g.Idle x) : x.id ∉ g.flow.active := by
  cases x with
  | command id c => exact h
  | var v => exact h.1
  | _ => exact h.elim

theorem Idle.no_marker (h : g.Idle x) : x.isStart = false ∧ x.isFinish = false := by
  cases x with
  | command id c => exact ⟨rfl, rfl⟩
  | var v => exact ⟨rfl, rfl⟩
  | _ => exact h.elim

theorem mem_active_of_mem_order {id : String} (h : id ∈ g.flow.order) : id ∈ g.flow.active := by
  unfold flow at h ⊢
  split at h
  · exact Flow.mem_of_mem_sequence (activeIds_nodup _ _ _) (List.mem_filter.mp h).1
  · cases h

/-! ## The graph without a node -/

theorem eraseP_eq_filter {nodes : List Node} (hids : (nodes.map Node.id).Nodup) (id : String) :
    nodes.eraseP (fun n => n.id == id) = nodes.filter fun n => n.id != id := by
  induction nodes with
  | nil => rfl
  | cons n nodes ih =>
    obtain ⟨hn, hnodes⟩ := List.nodup_cons.mp hids
    by_cases heq : n.id = id
    · have hkeep : nodes.filter (fun n => n.id != id) = nodes := by
        refine List.filter_eq_self.mpr fun m hm => bne_iff_ne.mpr ?_
        rintro rfl
        exact hn (heq ▸ List.mem_map_of_mem hm)
      rw [List.eraseP_cons_of_pos (by simpa using heq), List.filter_cons_of_neg (by simpa using heq),
        hkeep]
    · rw [List.eraseP_cons_of_neg (by simpa using heq), List.filter_cons_of_pos (by simpa using heq),
        ih hnodes]

variable (hids : (g.nodes.map Node.id).Nodup) (hx : x ∈ g.nodes)

include hids hx

theorem removeNode_eq : (g.removeNode x.id).1 =
    ⟨g.nodes.filter fun n => n.id != x.id, g.edges.filter fun e => !e.touches x.id⟩ := by
  rw [removeNode, node?_eq_some_of_mem hids hx, ← eraseP_eq_filter hids]

/-- A search that does not find the node is not changed by its removal. -/
theorem find?_removeNode {p : Node → Bool} (hp : p x = false) :
    (g.removeNode x.id).1.nodes.find? p = g.nodes.find? p := by
  rw [removeNode_eq hids hx, List.find?_filter]
  refine List.find?_congr fun n hn => ?_
  by_cases hid : n.id = x.id
  · rw [List.inj_on_of_nodup_map hids hn hx hid, hp]
    simp
  · simp [hid]

theorem node?_removeNode {id : String} (hne : id ≠ x.id) :
    (g.removeNode x.id).1.node? id = g.node? id :=
  find?_removeNode hids hx (by simpa using hne.symm)

theorem links_removeNode : (g.removeNode x.id).1.links = g.links.without x.id := by
  rw [removeNode_eq hids hx, links, links, Flow.Links.without, List.filter_map, List.filter_filter,
    List.filter_filter]
  congr 2
  funext e
  simp [Edge.touches, bne, Bool.and_comm]

/-! ## The order of execution -/

/-- A node that is on no walk between two others leaves the walks between them. -/
theorem activeIds_removeNode {start finish : String} (hx' : x.id ∉ g.activeIds start finish) :
    (g.removeNode x.id).1.activeIds start finish = g.activeIds start finish := by
  have hoff : g.links.Walk start x.id → ¬ g.links.Walk x.id finish := fun hfrom hto =>
    hx' (mem_activeIds_iff.mpr ⟨List.mem_map_of_mem hx, hfrom, hto⟩)
  have hwalks (id : String) :
      (g.links.without x.id).Walk start id ∧ (g.links.without x.id).Walk id finish ↔
        g.links.Walk start id ∧ g.links.Walk id finish := by
    constructor
    · rintro ⟨hfrom, hto⟩
      exact ⟨hfrom.mono (List.filter_subset_self _), hto.mono (List.filter_subset_self _)⟩
    · rintro ⟨hfrom, hto⟩
      exact ⟨hfrom.avoid fun hpass hback => hoff hpass (hback.trans hto),
        hto.avoid fun hpass => hoff (hfrom.trans hpass)⟩
  have hmap : (g.removeNode x.id).1.nodes.map Node.id =
      (g.nodes.map Node.id).filter fun id => id != x.id := by
    rw [removeNode_eq hids hx, List.filter_map]
    rfl
  refine activeIds_congr (p := fun id => id != x.id) ?_ fun id => ?_
  · rw [hmap, Flow.keepLast_of_nodup hids, Flow.keepLast_of_nodup (hids.filter _)]
  · rw [links_removeNode hids hx, hwalks]
    refine and_iff_left_of_imp fun hwalk => bne_iff_ne.mpr ?_
    rintro rfl
    exact hoff hwalk.1 hwalk.2

/-- **An inactive node has no part in the order of execution.** -/
theorem flow_removeNode (h : g.Idle x) : (g.removeNode x.id).1.flow = g.flow := by
  obtain ⟨hstart, hfinish⟩ := h.no_marker
  have hoff := h.inactive
  have hsame : (g.removeNode x.id).1.start? = g.start? ∧ (g.removeNode x.id).1.finish? = g.finish? :=
    ⟨find?_removeNode hids hx hstart, find?_removeNode hids hx hfinish⟩
  unfold flow at hoff ⊢
  rw [hsame.1, hsame.2]
  split
  case h_2 => rfl
  case h_1 start finish hs hf =>
    simp only [hs, hf] at hoff
    have hactive := activeIds_removeNode hids hx hoff
    have hnodup := g.activeIds_nodup start.id finish.id
    have hsequence : Flow.sequence (g.activeIds start.id finish.id) (g.removeNode x.id).1.links =
        Flow.sequence (g.activeIds start.id finish.id) g.links := by
      refine Flow.sequence_congr hnodup fun u hu v hv => ?_
      rw [links_removeNode hids hx, Flow.Links.mem_without, and_iff_left]
      exact ⟨fun heq => hoff (heq ▸ hu), fun heq => hoff (heq ▸ hv)⟩
    simp only [hactive, hsequence]
    congr 1
    refine List.filter_congr fun id hid => ?_
    rw [node?_removeNode hids hx]
    rintro rfl
    exact hoff (Flow.mem_of_mem_sequence hnodup hid)

end

end Graph

/-! ## The program -/

namespace Compile

open TxGraph.Graph

def Scope.Lacks (s : Scope) (id : String) : Prop :=
  ∀ key ∈ s.produced.map Prod.fst, key.1 ≠ id

/-- The operation of a command depends on what it gets at its ports. -/
theorem operation_congr {g g' : Graph} {id : String} {s : Scope}
    (h : ∀ port, s.input g' id port = s.input g id port) (c : Command) :
    operation g' id c s = operation g id c s := by
  cases c <;> simp only [operation, Scope.inputs, Scope.group, arguments, h]

theorem Scope.Lacks.operation {s : Scope} {x id : String} (h : s.Lacks x) (hne : id ≠ x) (g : Graph)
    (c : Command) : (Compile.operation g id c s).2.Lacks x := by
  unfold Scope.Lacks
  rw [(operation_emits g id c s).produced, List.map_append, List.forall_mem_append]
  refine ⟨fun key hkey => ?_, h⟩
  obtain ⟨offer, hoffer, rfl⟩ := List.mem_map.mp hkey
  obtain ⟨y, -, rfl⟩ := List.mem_map.mp (List.mem_reverse.mp hoffer)
  exact hne

section

variable {g : Graph} {x : Node} (hids : (g.nodes.map Node.id).Nodup) (hx : x ∈ g.nodes)
variable {id : String}

include hids hx

theorem incoming?_removeNode (hne : id ≠ x.id) (port : String) :
    (g.removeNode x.id).1.incoming? id port =
      g.edges.find? fun e => e.source != x.id && e.feeds id port := by
  rw [incoming?, removeNode_eq hids hx, List.find?_filter]
  congr 1
  funext e
  rw [Bool.eq_iff_iff]
  simp only [Edge.touches, Edge.feeds, decide_eq_true_eq, Bool.not_or, Bool.and_eq_true,
    Bool.not_eq_true', beq_eq_false_iff_ne, bne_iff_ne, beq_iff_eq]
  constructor
  · rintro ⟨⟨hsource, -⟩, hfeeds⟩
    exact ⟨hsource, hfeeds⟩
  · rintro ⟨hsource, hfeeds⟩
    exact ⟨⟨hsource, fun heq => hne (hfeeds.1.2 ▸ heq)⟩, hfeeds⟩

omit hids hx in
theorem eq_of_feeds
    (hports : ((g.edges.filter Edge.isIo).map fun e => (e.target, e.targetHandle)).Nodup)
    {e f : Edge} (he : e ∈ g.edges) (hf : f ∈ g.edges) {port : String}
    (hefed : e.feeds id port = true) (hffed : f.feeds id port = true) : f = e := by
  have hfeeds {e : Edge} (he : e.feeds id port = true) :
      e.isIo = true ∧ (e.target, e.targetHandle) = (id, port) := by
    simpa [Edge.feeds, and_assoc] using he
  obtain ⟨heio, heport⟩ := hfeeds hefed
  obtain ⟨hfio, hfport⟩ := hfeeds hffed
  exact List.inj_on_of_nodup_map hports (List.mem_filter.mpr ⟨hf, hfio⟩)
    (List.mem_filter.mpr ⟨he, heio⟩) (hfport.trans heport.symm)

/-- What a command gets at a port does not depend on a node that offers nothing. -/
theorem input_removeNode
    (hports : ((g.edges.filter Edge.isIo).map fun e => (e.target, e.targetHandle)).Nodup)
    {s : Scope} (hs : s.Lacks x.id) (hne : id ≠ x.id) (port : String) :
    s.input (g.removeNode x.id).1 id port = s.input g id port := by
  unfold Scope.input
  rw [incoming?_removeNode hids hx hne]
  cases hfound : g.incoming? id port with
  | none =>
    have hnone : (g.edges.find? fun e => e.source != x.id && e.feeds id port) = none := by
      refine List.find?_eq_none.mpr fun e he h => ?_
      exact List.find?_eq_none.mp hfound e he (Bool.and_eq_true_iff.mp h).2
    rw [hnone]
  | some e =>
    have hfed : e.feeds id port = true := List.find?_some (p := (Edge.feeds · id port)) hfound
    have honly {f : Edge} (hf : f ∈ g.edges) (hffed : f.feeds id port = true) : f = e :=
      eq_of_feeds hports (List.mem_of_find?_eq_some hfound) hf hfed hffed
    by_cases hsource : e.source = x.id
    · -- the edge brings nothing, and no other comes to the port
      have hnone : (g.edges.find? fun e => e.source != x.id && e.feeds id port) = none := by
        refine List.find?_eq_none.mpr fun f hf h => ?_
        obtain ⟨hother, hfed⟩ := Bool.and_eq_true_iff.mp h
        rw [honly hf hfed] at hother
        simp [hsource] at hother
      have hmissing : s.produced.lookup (e.source, e.sourceHandle) = none :=
        lookup_eq_none_of_not_mem fun hmem => hs _ hmem hsource
      simp only [hnone, hmissing, Option.getD_none]
    · have hsome : (g.edges.find? fun e => e.source != x.id && e.feeds id port) = some e := by
        rw [← hfound, incoming?]
        refine List.find?_congr fun f hf => ?_
        cases hfed : f.feeds id port with
        | false => rw [Bool.and_false]
        | true =>
          rw [honly hf hfed]
          simpa using hsource
      simp only [hsome]

theorem operations_removeNode
    (hports : ((g.edges.filter Edge.isIo).map fun e => (e.target, e.targetHandle)).Nodup)
    {order : List String} (horder : ∀ id ∈ order, id ≠ x.id) {s : Scope} (hs : s.Lacks x.id) :
    operations (g.removeNode x.id).1 order s = operations g order s := by
  induction order generalizing s with
  | nil => rfl
  | cons id rest ih =>
    obtain ⟨hid, hrest⟩ := List.forall_mem_cons.mp horder
    rw [operations, operations, node?_removeNode hids hx hid]
    cases (g.node? id).bind Node.command? with
    | none => exact ih hrest hs
    | some c =>
      have hsame := operation_congr (input_removeNode hids hx hports hs hid) c
      simp only [hsame, ih hrest (hs.operation hid g c)]

/-- The variables that feed the order are others. -/
theorem usedVariables_removeNode (h : g.Idle x) :
    usedVariables (g.removeNode x.id).1 g.flow.order = usedVariables g g.flow.order ∧
      ∀ v ∈ usedVariables g g.flow.order, v.id ≠ x.id := by
  have hunused : ∀ v ∈ usedVariables g g.flow.order, v.id ≠ x.id := by
    intro v hv heq
    obtain ⟨hnode, hused⟩ := mem_usedVariables.mp hv
    have hsame : .var v = x := List.inj_on_of_nodup_map hids hnode hx heq
    subst hsame
    obtain ⟨e, he, hsource⟩ := List.mem_map.mp hused
    obtain ⟨hmem, hio⟩ := List.mem_filter.mp he
    obtain ⟨hio, htarget⟩ := Bool.and_eq_true_iff.mp hio
    exact h.2 e hmem hio hsource (by simpa using htarget)
  have hsources {id : String} (hne : id ≠ x.id) :
      id ∈ usedSources (g.removeNode x.id).1 g.flow.order ↔ id ∈ usedSources g g.flow.order := by
    have htouches {e : Edge} (htarget : e.target ∈ g.flow.order) (hsource : e.source = id) :
        e.touches x.id = false := by
      have hne' : e.target ≠ x.id := fun heq => h.inactive (mem_active_of_mem_order (heq ▸ htarget))
      simp [Edge.touches, hsource, hne, hne']
    simp only [usedSources, removeNode_eq hids hx, List.mem_map, List.mem_filter, Bool.and_eq_true,
      Bool.not_eq_true', List.contains_iff_mem]
    constructor
    · rintro ⟨e, ⟨⟨hmem, -⟩, hfeeds⟩, hsource⟩
      exact ⟨e, ⟨hmem, hfeeds⟩, hsource⟩
    · rintro ⟨e, ⟨hmem, hfeeds⟩, hsource⟩
      exact ⟨e, ⟨⟨hmem, htouches hfeeds.2 hsource⟩, hfeeds⟩, hsource⟩
  refine ⟨?_, hunused⟩
  have hnodes : (g.removeNode x.id).1.nodes = g.nodes.filter fun n => n.id != x.id := by
    rw [removeNode_eq hids hx]
  rw [usedVariables, usedVariables, hnodes, List.filterMap_filter]
  refine List.filterMap_congr fun n hn => ?_
  cases n with
  | var v =>
    have hid : (Node.var v).id = v.id := rfl
    by_cases hne : v.id = x.id
    · have hnot : v.id ∉ usedSources g g.flow.order := fun hused =>
        hunused v (mem_usedVariables.mpr ⟨hn, hused⟩) hne
      rw [hne] at hnot
      simp [hid, hne, hnot]
    · simp [hid, hne, hsources hne]
  | _ => simp

end

end Compile

namespace Graph

/-- **Inactive parts do not influence compilation.** Without an idle node the order of execution and
the program are the same. -/
theorem compile_removeNode {g : Graph} {x : Node} (hids : (g.nodes.map Node.id).Nodup)
    (hports : ((g.edges.filter Edge.isIo).map fun e => (e.target, e.targetHandle)).Nodup)
    (hx : x ∈ g.nodes) (h : g.Idle x) :
    (g.removeNode x.id).1.flow = g.flow ∧
      ∀ reserved, (g.removeNode x.id).1.compile reserved = g.compile reserved := by
  have hflow := flow_removeNode hids hx h
  refine ⟨hflow, fun reserved => ?_⟩
  obtain ⟨hused, hothers⟩ := Compile.usedVariables_removeNode hids hx h
  have horder : ∀ id ∈ g.flow.order, id ≠ x.id := by
    rintro id hid rfl
    exact h.inactive (mem_active_of_mem_order hid)
  have hprogram : Compile.program (g.removeNode x.id).1 g.flow.order reserved =
      Compile.program g g.flow.order reserved := by
    rw [Compile.program, Compile.program, hused]
    cases hbind : Compile.bindVariables (Compile.usedVariables g g.flow.order)
        ⟨.seeded reserved, []⟩ with
    | error cause => rfl
    | ok found =>
      obtain ⟨vars, s⟩ := found
      obtain ⟨ps, hbinds, hproduced, -⟩ := Compile.bindVariables_binds hbind
      have hs : s.Lacks x.id := by
        intro key hkey
        rw [hproduced, List.append_nil, List.map_reverse, List.mem_reverse, hbinds.map_fst,
          List.map_map] at hkey
        obtain ⟨v, hv, rfl⟩ := List.mem_map.mp hkey
        exact hothers v hv
      have hops := Compile.operations_removeNode hids hx hports horder hs
      simp only [bind, Except.bind, hops]
  have hmarkers : (g.removeNode x.id).1.start? = g.start? ∧
      (g.removeNode x.id).1.finish? = g.finish? :=
    ⟨find?_removeNode hids hx h.no_marker.1, find?_removeNode hids hx h.no_marker.2⟩
  rw [compile, compile, hmarkers.1, hmarkers.2, hflow, hprogram]

/-- A split that the flow reaches but does not leave, with a variable of its own, declared before
the command that it feeds. -/
def sidetracked : Graph where
  nodes := [.start "s", .var ⟨"y", "amount", .integer .u64, some (.str "7")⟩,
    .command "a" (.splitCoins 1), .var ⟨"x", "amount", .integer .u64, some (.str "5")⟩,
    .command "c" (.splitCoins 2), .finish "e"]
  edges := [.flow "s" "a", .flow "s" "c", .flow "c" "e", .io "y" "out" "a" "in_amount_0" none,
    .io "a" "out_coin_0" "c" "in_coin" none, .io "x" "out" "c" "in_amount_0" none]

theorem compile_removeNode_sidetracked :
    sidetracked.Idle (.command "a" (.splitCoins 1)) ∧
    sidetracked.Idle (.var ⟨"y", "amount", .integer .u64, some (.str "7")⟩) ∧
    sidetracked.flow.order = ["c"] ∧ (sidetracked.removeNode "a").1.flow = sidetracked.flow ∧
    (sidetracked.removeNode "a").1.compile [] = sidetracked.compile [] ∧
    (sidetracked.removeNode "y").1.compile [] = sidetracked.compile [] := by
  have hids : (sidetracked.nodes.map Node.id).Nodup := by decide
  have hports : ((sidetracked.edges.filter Edge.isIo).map fun e => (e.target, e.targetHandle)).Nodup :=
    by decide
  have hflow : sidetracked.flow = ⟨["c"], ["s", "c", "e"]⟩ := by decide +kernel
  have hcommand : sidetracked.Idle (.command "a" (.splitCoins 1)) := by
    unfold Idle
    rw [hflow]
    decide
  have hvar : sidetracked.Idle (.var ⟨"y", "amount", .integer .u64, some (.str "7")⟩) := by
    unfold Idle
    rw [hflow]
    decide
  have hremoved := compile_removeNode hids hports (by simp [sidetracked]) hcommand
  exact ⟨hcommand, hvar, by rw [hflow], hremoved.1, hremoved.2 [],
    (compile_removeNode hids hports (by simp [sidetracked]) hvar).2 []⟩

end Graph

end TxGraph
