import TxGraph.Proofs.Directory
import TxGraph.Proofs.Graph.Flow
import TxGraph.Proofs.Program.Scope

/-!
# Data flow

What an operation of a compiled program gets at each of its ports, said of the graph alone: the
first edge into the port decides, by the node that it comes from. `carried` is that rule, and
`compile_dataFlow` says that compiling follows it.
-/

namespace TxGraph

/-! ## The rule -/

def Variable.isNamed (v : Variable) : Bool :=
  match v.inlined with
  | .ok none => true
  | _ => false

theorem Variable.isNamed_iff {v : Variable} : v.isNamed = true ↔ v.inlined = .ok none := by
  unfold isNamed
  split <;> simp_all

namespace Graph

def declared (g : Graph) : List Variable :=
  (Compile.usedVariables g g.flow.order).filter Variable.isNamed

def symbol? (g : Graph) (p : Program) (v : Variable) : Option String :=
  ((g.declared.map Variable.id).zip (p.vars.map Binding.name)).lookup v.id

/-- The name that a program gives to an output port of a command before the `k`th. -/
def result? (g : Graph) (p : Program) (k : Nat) (id port : String) (c : Command) :
    Option String := do
  let j ← (g.flow.order.take k).idxOf? id
  let m ← (c.ports.filter Port.isIoOut).findIdx? (·.id == port)
  let op ← p.ops[j]?
  op.outputs[m]?

/-- What an edge brings to the `k`th operation. A variable gives what it stands for or its name, an
earlier command the name of its result; anything else is undefined. -/
def carried (g : Graph) (p : Program) (k : Nat) (e : Edge) : Operand :=
  match g.node? e.source with
  | some (.var v) =>
    if e.sourceHandle = Port.variableOut then
      match v.inlined with
      | .ok (some value) => value
      | _ => (g.symbol? p v).elim .absent .ref
    else .absent
  | some (.command id c) => (g.result? p k id e.sourceHandle c).elim .absent .ref
  | _ => .absent

def operandAt (g : Graph) (p : Program) (k : Nat) (id port : String) : Operand :=
  match g.incoming? id port with
  | none => .absent
  | some e => g.carried p k e

end Graph

/-! ## Ports -/

theorem Node.nodup_portIds (n : Node) : (n.ports.map Port.id).Nodup := by
  cases n with
  | command id c => exact c.nodup_portIds
  | _ => exact List.nodup_singleton _

theorem Node.port?_of_mem {n : Node} {p : Port} (h : p ∈ n.ports) : n.port? p.id = some p := by
  cases hfound : n.port? p.id with
  | none => simpa using List.find?_eq_none.mp hfound p h
  | some q =>
    have hid : q.id = p.id := by simpa using List.find?_some hfound
    rw [List.inj_on_of_nodup_map n.nodup_portIds (List.mem_of_find?_eq_some hfound) h hid]

namespace Compile

variable {g : Graph} {order : List String} {id : String}

/-! ## Values of variables -/

section Variables

variable {vs : List Variable} {bs : List Binding} {ps : List ((String × String) × Operand)}
variable {v : Variable}

theorem Binds.map_fst (h : Binds vs bs ps) :
    ps.map Prod.fst = (vs.map Variable.id).map (·, Port.variableOut) := by
  induction h with
  | nil => rfl
  | inlined _ _ ih => simp [ih]
  | named _ _ ih => simp [ih]

theorem Binds.map_init (h : Binds vs bs ps) :
    bs.map Binding.init = (vs.filter Variable.isNamed).map Variable.initial := by
  induction h with
  | nil => rfl
  | inlined hv _ ih => simpa [Variable.isNamed, hv] using ih
  | named hv _ ih => simpa [Variable.isNamed, hv] using ih

theorem Binds.mem_of_inlined (h : Binds vs bs ps) (hv : v ∈ vs) {value : Operand}
    (hvalue : v.inlined = .ok (some value)) : ((v.id, Port.variableOut), value) ∈ ps := by
  induction h with
  | nil => cases hv
  | inlined hfirst _ ih =>
    rcases List.mem_cons.mp hv with rfl | hv
    · rw [hfirst] at hvalue
      cases hvalue
      exact List.mem_cons_self
    · exact List.mem_cons_of_mem _ (ih hv)
  | named hfirst _ ih =>
    rcases List.mem_cons.mp hv with rfl | hv
    · rw [hfirst] at hvalue
      cases hvalue
    · exact List.mem_cons_of_mem _ (ih hv)

theorem Binds.mem_of_named (h : Binds vs bs ps) (hv : v ∈ vs) (hnamed : v.isNamed = true) :
    ∃ name, ((v.id, Port.variableOut), .ref name) ∈ ps ∧ ⟨name, v.initial⟩ ∈ bs ∧
      (v.id, name) ∈ ((vs.filter Variable.isNamed).map Variable.id).zip (bs.map Binding.name) := by
  induction h with
  | nil => cases hv
  | @inlined first _ _ _ _ hfirst _ ih =>
    have hskip : first.isNamed = false := by simp [Variable.isNamed, hfirst]
    rcases List.mem_cons.mp hv with rfl | hv
    · simp [hskip] at hnamed
    · obtain ⟨name, hps, hbs, hzip⟩ := ih hv
      exact ⟨name, List.mem_cons_of_mem _ hps, hbs, by simpa [hskip] using hzip⟩
  | @named first _ _ _ name hfirst _ ih =>
    have hkeep : first.isNamed = true := by simp [Variable.isNamed, hfirst]
    rcases List.mem_cons.mp hv with rfl | hv
    · exact ⟨name, List.mem_cons_self, List.mem_cons_self, by simp [hkeep]⟩
    · obtain ⟨name, hps, hbs, hzip⟩ := ih hv
      exact ⟨name, List.mem_cons_of_mem _ hps, List.mem_cons_of_mem _ hbs,
        by simpa [hkeep] using .inr hzip⟩

/-- A variable is named or has something in its place. -/
theorem Binds.named_or_inlined (h : Binds vs bs ps) (hv : v ∈ vs) :
    v.isNamed = true ∨ ∃ value, v.inlined = .ok (some value) := by
  induction h with
  | nil => cases hv
  | inlined hfirst _ ih =>
    rcases List.mem_cons.mp hv with rfl | hv
    · exact .inr ⟨_, hfirst⟩
    · exact ih hv
  | named hfirst _ ih =>
    rcases List.mem_cons.mp hv with rfl | hv
    · exact .inl (by simp [Variable.isNamed, hfirst])
    · exact ih hv

end Variables

theorem mem_usedVariables {v : Variable} :
    v ∈ usedVariables g order ↔ .var v ∈ g.nodes ∧ v.id ∈ usedSources g order := by
  simp only [usedVariables, List.mem_filterMap]
  constructor
  · rintro ⟨n, hn, hv⟩
    cases n with
    | var w =>
      dsimp only at hv
      split at hv
      case isTrue hused =>
        cases hv
        exact ⟨hn, by simpa using hused⟩
      case isFalse => cases hv
    | _ => cases hv
  · rintro ⟨hn, hused⟩
    exact ⟨.var v, hn, by simp [hused]⟩

/-- A variable at the other end of an edge into a command of the order is used. -/
theorem mem_usedVariables_of_incoming {port : String} {e : Edge} {v : Variable} (hid : id ∈ order)
    (he : g.incoming? id port = some e) (hv : g.node? e.source = some (.var v)) :
    v ∈ usedVariables g order := by
  have hfeeds : e.isIo = true ∧ e.target = id ∧ e.targetHandle = port := by
    simpa [Edge.feeds, and_assoc] using List.find?_some he
  have hsource : v.id = e.source := Graph.id_of_node? hv
  refine mem_usedVariables.mpr ⟨Graph.mem_of_node? hv, ?_⟩
  rw [hsource]
  refine List.mem_map_of_mem (List.mem_filter.mpr ⟨List.mem_of_find?_eq_some he, ?_⟩)
  simp [hfeeds, hid]

theorem nodup_usedVariables (hids : (g.nodes.map Node.id).Nodup) (order : List String) :
    ((usedVariables g order).map Variable.id).Nodup := by
  refine hids.sublist ?_
  have hsub (f : Node → Option Variable) (hf : ∀ n v, f n = some v → v.id = n.id)
      (nodes : List Node) : ((nodes.filterMap f).map Variable.id).Sublist (nodes.map Node.id) := by
    induction nodes with
    | nil => exact .slnil
    | cons n rest ih =>
      cases hn : f n with
      | none => simpa [List.filterMap_cons_none hn] using ih.cons _
      | some v => simpa [List.filterMap_cons_some hn, hf n v hn] using ih
  refine hsub _ (fun n v hn => ?_) g.nodes
  cases n with
  | var w =>
    dsimp only at hn
    split at hn
    · cases hn
      rfl
    · cases hn
  | _ => cases hn

/-! ## Results of commands -/

section Results

variable {g : Graph} {s s' : Scope} {cs : List (String × Command)} {ops : List Operation}

theorem Runs.map_fst_results (h : Runs g s cs ops s') : (results cs ops).map Prod.fst =
    cs.flatMap fun x => (x.2.outputPorts.map Port.id).map (x.1, ·) := by
  induction h with
  | nil s => rfl
  | @cons _ _ _ id c op _ _ h rest ih =>
    have hlen : (c.outputPorts.map Port.id).length ≤ op.outputs.length := by
      simp [(Emits.of_eq h).outputs]
    have hfirst : (offers id (c.outputPorts.map Port.id) op.outputs).map Prod.fst =
        (c.outputPorts.map Port.id).map (id, ·) := by
      conv_rhs => rw [← List.map_fst_zip hlen]
      simp [offers, Function.comp_def]
    rw [results, List.map_append, ih, hfirst, List.flatMap_cons]

theorem nodup_outputKeys (h : (cs.map Prod.fst).Nodup) :
    (cs.flatMap fun x => (x.2.outputPorts.map Port.id).map (x.1, ·)).Nodup := by
  induction cs with
  | nil => exact List.nodup_nil
  | cons x rest ih =>
    obtain ⟨hx, hrest⟩ := List.nodup_cons.mp h
    rw [List.flatMap_cons]
    refine List.Nodup.append (x.2.nodup_outputPorts.map fun _ _ h => (Prod.mk.inj h).2) (ih hrest) ?_
    intro key hkey hmem
    obtain ⟨port, -, rfl⟩ := List.mem_map.mp hkey
    obtain ⟨y, hy, hport⟩ := List.mem_flatMap.mp hmem
    obtain ⟨_, -, heq⟩ := List.mem_map.mp hport
    exact hx ((Prod.mk.inj heq).1 ▸ List.mem_map_of_mem hy)

theorem mem_results {j m : Nat} {id : String} {c : Command} {op : Operation} {q : Port}
    {name : String} (hc : cs[j]? = some (id, c)) (hop : ops[j]? = some op)
    (hq : c.outputPorts[m]? = some q) (hname : op.outputs[m]? = some name) :
    ((id, q.id), .ref name) ∈ results cs ops := by
  induction cs generalizing ops j with
  | nil => simp at hc
  | cons x cs ih =>
    cases ops with
    | nil => simp at hop
    | cons op₁ ops =>
      cases j with
      | zero =>
        cases hc
        cases hop
        refine List.mem_append_left _ (List.mem_map.mpr ⟨(q.id, name), ?_, rfl⟩)
        refine List.mem_iff_getElem?.mpr ⟨m, ?_⟩
        simp [List.getElem?_zip_eq_some, hq, hname]
      | succ j => exact List.mem_append_right _ (ih hc hop)

end Results

/-! ## Commands of the order -/

theorem mem_commandsOf {c : Command} :
    (id, c) ∈ commandsOf g order ↔ id ∈ order ∧ g.node? id = some (.command id c) := by
  simp only [commandsOf, List.mem_filterMap, Option.map_eq_some_iff, Option.bind_eq_some_iff,
    Prod.mk.injEq]
  constructor
  · rintro ⟨_, hid, c', ⟨n, hn, hc⟩, rfl, rfl⟩
    cases n with
    | command id' c' =>
      cases hc
      have : id' = _ := Graph.id_of_node? hn
      exact ⟨hid, by rw [hn, this]⟩
    | _ => cases hc
  · rintro ⟨hid, hn⟩
    exact ⟨id, hid, c, ⟨_, hn, rfl⟩, rfl, rfl⟩

theorem map_fst_commandsOf (hall : ∀ id ∈ order, ∃ c, g.node? id = some (.command id c)) :
    (commandsOf g order).map Prod.fst = order := by
  induction order with
  | nil => rfl
  | cons id rest ih =>
    obtain ⟨c, hc⟩ := hall id List.mem_cons_self
    rw [commandsOf, List.filterMap_cons_some (b := (id, c)) (by simp [hc, Node.command?]),
      List.map_cons]
    exact congrArg _ (ih fun id hid => hall id (List.mem_cons_of_mem _ hid))

theorem commandsOf_get? {k : Nat} (h : g.flow.order[k]? = some id) :
    ∃ c, (commandsOf g g.flow.order)[k]? = some (id, c) ∧ g.node? id = some (.command id c) := by
  rw [← map_fst_commandsOf fun _ => Graph.command_of_mem_order, List.getElem?_map,
    Option.map_eq_some_iff] at h
  obtain ⟨⟨_, c⟩, hk, rfl⟩ := h
  exact ⟨c, hk, (mem_commandsOf.mp (List.mem_of_getElem? hk)).2⟩

/-! ## What is available -/

section Available

variable {g : Graph} {p : Program} {ps : List ((String × String) × Operand)}
  (hids : (g.nodes.map Node.id).Nodup) (hbinds : Binds (usedVariables g g.flow.order) p.vars ps)

include hids hbinds

theorem symbol?_of_named {v : Variable} (hv : v ∈ usedVariables g g.flow.order)
    (hnamed : v.inlined = .ok none) : ∃ name, g.symbol? p v = some name ∧
      ⟨name, v.initial⟩ ∈ p.vars ∧ ((v.id, Port.variableOut), .ref name) ∈ ps := by
  obtain ⟨name, hps, hvar, hzip⟩ := hbinds.mem_of_named hv (Variable.isNamed_iff.mpr hnamed)
  refine ⟨name, lookup_eq_some_of_mem ?_ hzip, hvar, hps⟩
  have hlen := congrArg List.length hbinds.map_init
  simp only [List.length_map] at hlen
  rw [List.map_fst_zip (by simp [hlen, Graph.declared])]
  exact (nodup_usedVariables hids _).sublist (List.filter_sublist.map Variable.id)

theorem lookup_variable {v : Variable} (hv : v ∈ usedVariables g g.flow.order) :
    ps.reverse.lookup (v.id, Port.variableOut) = some (match v.inlined with
      | .ok (some value) => value
      | _ => (g.symbol? p v).elim .absent .ref) := by
  have hkeys : (ps.reverse.map Prod.fst).Nodup := by
    rw [List.map_reverse, List.nodup_reverse, hbinds.map_fst]
    exact (nodup_usedVariables hids _).map fun _ _ h => (Prod.mk.inj h).1
  rcases hbinds.named_or_inlined hv with hnamed | ⟨value, hvalue⟩
  · have hvalue := Variable.isNamed_iff.mp hnamed
    obtain ⟨name, hsymbol, -, hps⟩ := symbol?_of_named hids hbinds hv hvalue
    rw [lookup_eq_some_of_mem hkeys (List.mem_reverse.mpr hps), hvalue, hsymbol]
    rfl
  · rw [lookup_eq_some_of_mem hkeys (List.mem_reverse.mpr (hbinds.mem_of_inlined hv hvalue)), hvalue]

theorem lookup_not_variable {id port : String}
    (h : ∀ v, g.node? id = some (.var v) → port ≠ Port.variableOut) :
    ps.reverse.lookup (id, port) = none := by
  refine lookup_eq_none_of_not_mem fun hmem => ?_
  rw [List.map_reverse, List.mem_reverse, hbinds.map_fst] at hmem
  simp only [List.map_map, List.mem_map, Function.comp_apply] at hmem
  obtain ⟨v, hv, heq⟩ := hmem
  obtain ⟨rfl, rfl⟩ := Prod.mk.inj heq
  exact h v (Graph.node?_eq_some_of_mem hids (mem_usedVariables.mp hv).1) rfl

end Available

section Earlier

variable {g : Graph} {p : Program} {s s' t : Scope} {k : Nat}
  (hruns : Runs g s (commandsOf g g.flow.order) p.ops s')
  (hbefore : Runs g s ((commandsOf g g.flow.order).take k) (p.ops.take k) t)
variable {id port : String}

abbrev earlier (g : Graph) (p : Program) (k : Nat) : List ((String × String) × Operand) :=
  results ((commandsOf g g.flow.order).take k) (p.ops.take k)

include hbefore in
theorem mem_earlier (h : (id, port) ∈ (earlier g p k).map Prod.fst) :
    ∃ c, g.node? id = some (.command id c) ∧ id ∈ g.flow.order.take k ∧
      port ∈ c.outputPorts.map Port.id := by
  rw [hbefore.map_fst_results] at h
  obtain ⟨⟨id', c⟩, hc, hport⟩ := List.mem_flatMap.mp h
  obtain ⟨port', hmem, heq⟩ := List.mem_map.mp hport
  obtain ⟨rfl, rfl⟩ := Prod.mk.inj heq
  refine ⟨c, (mem_commandsOf.mp (List.mem_of_mem_take hc)).2, ?_, hmem⟩
  rw [← map_fst_commandsOf fun _ => Graph.command_of_mem_order, ← List.map_take]
  exact List.mem_map_of_mem hc

include hbefore in
theorem lookup_not_command (h : ∀ c, g.node? id ≠ some (.command id c)) :
    (earlier g p k).reverse.lookup (id, port) = none := by
  refine lookup_eq_none_of_not_mem fun hmem => ?_
  rw [List.map_reverse, List.mem_reverse] at hmem
  obtain ⟨c, hc, -⟩ := mem_earlier hbefore hmem
  exact h c hc

include hruns hbefore in
theorem lookup_command {c : Command} (hc : g.node? id = some (.command id c)) :
    (earlier g p k).reverse.lookup (id, port) = (g.result? p k id port c).map .ref := by
  unfold Graph.result?
  rw [c.filter_isIoOut_ports]
  cases hj : (g.flow.order.take k).idxOf? id with
  | none =>
    refine lookup_eq_none_of_not_mem fun hmem => ?_
    rw [List.map_reverse, List.mem_reverse] at hmem
    obtain ⟨_, -, hid, -⟩ := mem_earlier hbefore hmem
    exact List.idxOf?_eq_none_iff.mp hj hid
  | some j =>
    cases hm : c.outputPorts.findIdx? (·.id == port) with
    | none =>
      refine lookup_eq_none_of_not_mem fun hmem => ?_
      rw [List.map_reverse, List.mem_reverse] at hmem
      obtain ⟨c', hc', -, hport⟩ := mem_earlier hbefore hmem
      rw [hc] at hc'
      cases hc'
      obtain ⟨q, hq, rfl⟩ := List.mem_map.mp hport
      simpa using List.findIdx?_eq_none_iff.mp hm q hq
    | some m =>
      have hid : (g.flow.order.take k)[j]? = some id := by
        have := List.of_findIdx?_eq_some hj
        split at this
        · simp_all
        · cases this
      obtain ⟨q, hq, rfl⟩ : ∃ q, c.outputPorts[m]? = some q ∧ q.id = port := by
        have := List.of_findIdx?_eq_some hm
        split at this
        · exact ⟨_, by assumption, by simpa using this⟩
        · cases this
      have hlt : j < k := by
        have := (List.getElem?_eq_some_iff.mp hid).1
        rw [List.length_take] at this
        omega
      rw [List.getElem?_take_of_lt hlt] at hid
      obtain ⟨c', hcs, hc'⟩ := commandsOf_get? hid
      rw [hc] at hc'
      cases hc'
      obtain ⟨op, u, u', hop, -, hcompiled⟩ := hruns.get? hcs
      obtain ⟨name, hname⟩ : ∃ name, op.outputs[m]? = some name := by
        refine ⟨_, List.getElem?_eq_getElem (?_ : m < op.outputs.length)⟩
        rw [(Emits.of_eq hcompiled).outputs]
        exact (List.getElem?_eq_some_iff.mp hq).1
      have hmem : ((id, q.id), Operand.ref name) ∈ earlier g p k :=
        mem_results ((List.getElem?_take_of_lt hlt).trans hcs)
          ((List.getElem?_take_of_lt hlt).trans hop) hq hname
      have hkeys : ((earlier g p k).reverse.map Prod.fst).Nodup := by
        rw [List.map_reverse, List.nodup_reverse, hbefore.map_fst_results]
        refine nodup_outputKeys ?_
        rw [List.map_take, map_fst_commandsOf fun _ => Graph.command_of_mem_order]
        exact g.order_nodup.sublist (List.take_sublist _ _)
      rw [lookup_eq_some_of_mem hkeys (List.mem_reverse.mpr hmem)]
      simp [hop, hname]

end Earlier

/-- A scope that holds the variables and the results of earlier commands gives each port what the
rule says. -/
theorem input_eq_operandAt {p : Program} {s s' t : Scope} {k : Nat}
    {ps : List ((String × String) × Operand)} (hids : (g.nodes.map Node.id).Nodup)
    (hbinds : Binds (usedVariables g g.flow.order) p.vars ps) (hstart : s.produced = ps.reverse)
    (hruns : Runs g s (commandsOf g g.flow.order) p.ops s')
    (hbefore : Runs g s ((commandsOf g g.flow.order).take k) (p.ops.take k) t)
    (hid : id ∈ g.flow.order) (port : String) : t.input g id port = g.operandAt p k id port := by
  unfold Scope.input Graph.operandAt
  cases he : g.incoming? id port with
  | none => rfl
  | some e =>
    rw [hbefore.produced, hstart]
    dsimp only
    rw [List.lookup_append, Graph.carried]
    cases hn : g.node? e.source with
    | none =>
      rw [lookup_not_command hbefore (by simp [hn]), lookup_not_variable hids hbinds (by simp [hn])]
      rfl
    | some n =>
      cases n with
      | var v =>
        have hv : v.id = e.source := Graph.id_of_node? hn
        have hmem := mem_usedVariables_of_incoming hid he hn
        rw [lookup_not_command hbefore (by simp [hn])]
        by_cases hport : e.sourceHandle = Port.variableOut
        · rw [hport, ← hv, lookup_variable hids hbinds hmem]
          simp
        · rw [lookup_not_variable hids hbinds fun _ _ => hport]
          simp [hport]
      | command id' c =>
        have hid' : id' = e.source := Graph.id_of_node? hn
        subst hid'
        rw [lookup_command hruns hbefore hn, lookup_not_variable hids hbinds (by simp [hn])]
        cases hresult : g.result? p k e.source e.sourceHandle c <;> simp [hresult]
      | start id' =>
        rw [lookup_not_command hbefore (by simp [hn]), lookup_not_variable hids hbinds (by simp [hn])]
        rfl
      | finish id' =>
        rw [lookup_not_command hbefore (by simp [hn]), lookup_not_variable hids hbinds (by simp [hn])]
        rfl

end Compile

namespace Graph

variable {g : Graph} {reserved : List String} {p : Program} {k : Nat}

/-- Each command of the order becomes an operation, compiled where the ports have what the rule
says. -/
theorem compile_operation (hids : (g.nodes.map Node.id).Nodup) (h : g.compile reserved = .ok p)
    {id : String} (hk : g.flow.order[k]? = some id) : ∃ c op s s',
      g.node? id = some (.command id c) ∧ p.ops[k]? = some op ∧
      Compile.operation g id c s = (op, s') ∧
      ∀ port, s.input g id port = g.operandAt p k id port := by
  obtain ⟨ps, s, s', hbinds, hstart, -, hruns⟩ := compile_runs h
  obtain ⟨c, hcs, hc⟩ := Compile.commandsOf_get? hk
  obtain ⟨op, t, t', hop, hbefore, hcompiled⟩ := hruns.get? hcs
  exact ⟨c, op, t, t', hc, hop, hcompiled,
    Compile.input_eq_operandAt hids hbinds hstart hruns hbefore (List.mem_of_getElem? hk)⟩

theorem exists_variable (h : g.compile reserved = .ok p) {b : Binding} (hb : b ∈ p.vars) :
    ∃ v, .var v ∈ g.nodes ∧ v.inlined = .ok none ∧ b.init = v.initial := by
  obtain ⟨ps, s, s', hbinds, -⟩ := compile_runs h
  have hinit : b.init ∈ p.vars.map Binding.init := List.mem_map_of_mem hb
  rw [hbinds.map_init] at hinit
  obtain ⟨v, hv, heq⟩ := List.mem_map.mp hinit
  obtain ⟨hused, hnamed⟩ := List.mem_filter.mp hv
  exact ⟨v, (Compile.mem_usedVariables.mp hused).1, Variable.isNamed_iff.mp hnamed, heq.symm⟩

theorem length_ops (h : g.compile reserved = .ok p) : p.ops.length = g.flow.order.length := by
  obtain ⟨ps, s, s', -, -, -, hruns⟩ := compile_runs h
  rw [hruns.length_eq, ← List.length_map Prod.fst,
    Compile.map_fst_commandsOf fun _ => command_of_mem_order]

/-! ## Edges of a kind -/

theorem findIdx?_of_nodup {α β : Type} [BEq β] [LawfulBEq β] {f : α → β} {xs : List α}
    (h : (xs.map f).Nodup) {n : Nat} {a : α} (hn : xs[n]? = some a) :
    xs.findIdx? (fun x => f x == f a) = some n := by
  obtain ⟨hlt, rfl⟩ := List.getElem?_eq_some_iff.mp hn
  refine List.findIdx?_eq_some_iff_getElem.mpr ⟨hlt, beq_self_eq_true _, fun j hj heq => ?_⟩
  have hsame : (xs.map f)[j]? = (xs.map f)[n]? := by
    simp only [List.getElem?_map, List.getElem?_eq_getElem hlt,
      List.getElem?_eq_getElem (hj.trans hlt), Option.map_some, beq_iff_eq.mp heq]
  have hlength : j < (xs.map f).length := by
    rw [List.length_map]
    exact hj.trans hlt
  have := (List.getElem?_inj hlength h).mp hsame
  omega

section

variable {id port : String} {e : Edge} (he : g.incoming? id port = some e)

include he

theorem operandAt_inlined {v : Variable} {value : Operand} (hv : g.node? e.source = some (.var v))
    (hport : e.sourceHandle = Port.variableOut) (hvalue : v.inlined = .ok (some value)) :
    g.operandAt p k id port = value := by
  simp [operandAt, carried, he, hv, hport, hvalue]

theorem operandAt_named {v : Variable} (hids : (g.nodes.map Node.id).Nodup)
    (h : g.compile reserved = .ok p) (hid : id ∈ g.flow.order)
    (hv : g.node? e.source = some (.var v)) (hport : e.sourceHandle = Port.variableOut)
    (hnamed : v.inlined = .ok none) : ∃ name, g.symbol? p v = some name ∧
      ⟨name, v.initial⟩ ∈ p.vars ∧ g.operandAt p k id port = .ref name := by
  obtain ⟨ps, s, s', hbinds, -⟩ := compile_runs h
  obtain ⟨name, hsymbol, hvar, -⟩ := Compile.symbol?_of_named hids hbinds
    (Compile.mem_usedVariables_of_incoming hid he hv) hnamed
  refine ⟨name, hsymbol, hvar, ?_⟩
  simp [operandAt, carried, he, hv, hport, hnamed, hsymbol]

theorem operandAt_result {j m : Nat} {c : Command} {q : Port} {op : Operation} {name : String}
    (hc : g.node? e.source = some (.command e.source c)) (hj : g.flow.order[j]? = some e.source)
    (hlt : j < k) (hq : c.outputPorts[m]? = some q) (hport : q.id = e.sourceHandle)
    (hop : p.ops[j]? = some op) (hname : op.outputs[m]? = some name) :
    g.operandAt p k id port = .ref name := by
  have hindex : (g.flow.order.take k).idxOf? e.source = some j := by
    refine findIdx?_of_nodup (f := fun s => s) ?_ ((List.getElem?_take_of_lt hlt).trans hj)
    rw [List.map_id']
    exact g.order_nodup.sublist (List.take_sublist k _)
  have hfind : (c.ports.filter Port.isIoOut).findIdx? (·.id == e.sourceHandle) = some m := by
    rw [c.filter_isIoOut_ports, ← hport]
    exact findIdx?_of_nodup c.nodup_outputPorts hq
  have hresult : g.result? p k e.source e.sourceHandle c = some name := by
    simp [result?, hindex, hfind, hop, hname]
  simp [operandAt, carried, he, hc, hresult]

end

theorem symbol?_inj (hnames : (p.vars.map Binding.name).Nodup) {v w : Variable} {name : String}
    (hv : g.symbol? p v = some name) (hw : g.symbol? p w = some name) : v.id = w.id := by
  have hmem {u : Variable} (hu : g.symbol? p u = some name) :
      (u.id, name) ∈ (g.declared.map Variable.id).zip (p.vars.map Binding.name) := by
    obtain ⟨before, after, hsplit, -⟩ := List.lookup_eq_some_iff.mp hu
    exact hsplit ▸ List.mem_append_right before List.mem_cons_self
  obtain ⟨i, hi⟩ := List.mem_iff_getElem?.mp (hmem hv)
  obtain ⟨j, hj⟩ := List.mem_iff_getElem?.mp (hmem hw)
  rw [List.getElem?_zip_eq_some] at hi hj
  have hlt := (List.getElem?_eq_some_iff.mp hi.2).1
  have hsame : i = j := (List.getElem?_inj hlt hnames).mp (hi.2.trans hj.2.symm)
  subst hsame
  exact Option.some.inj (hi.1.symm.trans hj.1)

end Graph

/-- **The compiler preserves the data flow.** The program declares the variables of the graph that
feed a command and have nothing in their place. It has one operation for each command of the order,
of that command's kind, with an operand for each input port and a name for each output port, and
the operand at a port is what the rule `operandAt` says of the graph. -/
theorem compile_dataFlow {g : Graph} {reserved : List String} {p : Program}
    (hids : (g.nodes.map Node.id).Nodup) (h : g.compile reserved = .ok p) :
    p.vars.map Binding.init = g.declared.map Variable.initial ∧
    p.ops.length = g.flow.order.length ∧
    (∀ (v : Variable) (value : Operand), v.inlined = .ok (some value) →
      value = .constant .sender ∨ ∃ o ∈ Variable.specialObjects, value = .object o) ∧
    ∀ k id, g.flow.order[k]? = some id → ∃ c op,
      g.node? id = some (.command id c) ∧ p.ops[k]? = some op ∧ op.kind = c.kind ∧
      op.operands = (c.ports.filter Port.isIoIn).map (fun q => g.operandAt p k id q.id) ∧
      op.outputs.length = (c.ports.filter Port.isIoOut).length := by
  obtain ⟨ps, s, s', hbinds, -⟩ := Graph.compile_runs h
  refine ⟨hbinds.map_init, Graph.length_ops h, fun _ _ => Variable.inlined_eq, fun k id hk => ?_⟩
  obtain ⟨c, op, t, t', hc, hop, hcompiled, hinput⟩ := Graph.compile_operation hids h hk
  have hemits := Compile.Emits.of_eq hcompiled
  refine ⟨c, op, hc, hop, hemits.kind, ?_, by rw [hemits.outputs, c.filter_isIoOut_ports]⟩
  rw [hemits.operands, c.filter_isIoIn_ports, List.map_map]
  exact List.map_congr_left fun q _ => hinput q.id

/-- A coin that is split off and merged again, with an edge from a later command, one from the
command itself and one from a port that does not exist. -/
def tangled : Graph where
  nodes := [.start "s", .command "m" (.mergeCoins 3 true), .var ⟨"g", "gas", .anyObject, none⟩,
    .var ⟨"x", "amount", .integer .u64, some (.str "5")⟩, .command "c" (.splitCoins 2),
    .finish "e"]
  edges := [.flow "s" "c", .flow "c" "m", .flow "m" "e", .io "g" "out" "c" "in_coin" none,
    .io "x" "out" "c" "in_amount_0" none, .io "m" "out" "c" "in_amount_1" none,
    .io "g" "out" "m" "in_destination" none, .io "c" "out_coin_1" "m" "in_source_0" none,
    .io "m" "out" "m" "in_source_1" none, .io "x" "value" "m" "in_source_2" none]

def tangledProgram : Program where
  vars := [⟨"amount", .integer .u64 "5"⟩]
  ops := [.splitCoins (.object .gas) [.ref "amount", .absent] ["coin", "coin_2"],
    .mergeCoins (.object .gas) (.each [.ref "coin_2", .absent, .absent])]

theorem compile_dataFlow_tangled :
    (tangled.nodes.map Node.id).Nodup ∧ tangled.compile [] = .ok tangledProgram ∧
    ∃ c op, tangled.node? "m" = some (.command "m" c) ∧ tangledProgram.ops[1]? = some op ∧
      op.kind = c.kind ∧
      op.operands =
        (c.ports.filter Port.isIoIn).map (fun q => tangled.operandAt tangledProgram 1 "m" q.id) ∧
      op.outputs.length = (c.ports.filter Port.isIoOut).length := by
  have hids : (tangled.nodes.map Node.id).Nodup := by decide
  have h : tangled.compile [] = .ok tangledProgram := by decide +kernel
  obtain ⟨-, -, -, hops⟩ := compile_dataFlow hids h
  exact ⟨hids, h, hops 1 "m" (by decide +kernel)⟩

end TxGraph
