import TxGraph.Program.OfGraph
import TxGraph.Proofs.Command
import TxGraph.Proofs.Outcome
import TxGraph.Proofs.Program.Names

/-!
# What compiling does

One lemma for each function of the compiler: which names it takes from the pool, which values it
makes available at which output ports, and which operands it reads at which input ports. Nothing
here asks for unique ids; the ports of a command and the operands and outputs of its operation
correspond in any graph.
-/

namespace TxGraph

variable {g : Graph}

/-! ## Output ports -/

namespace Compile

variable {vs : List Variable}

def offers (node : String) (ports names : List String) : List ((String × String) × Operand) :=
  (ports.zip names).map fun x => ((node, x.1), .ref x.2)

namespace Scope

theorem outputs_hands (s : Scope) (node group hint : String) (i count : Nat) :
    s.names.Hands (s.outputs node group hint i count).1
      (s.outputs node group hint i count).2.names := by
  induction count generalizing s i with
  | zero => exact .nil _
  | succ count ih =>
    exact (s.names.hands_alloc hint).append
      (ih (s.output node (Command.indexed group i) hint).2 (i + 1))

theorem length_outputs (s : Scope) (node group hint : String) (i count : Nat) :
    (s.outputs node group hint i count).1.length = count := by
  induction count generalizing s i with
  | zero => rfl
  | succ count ih => simpa [outputs] using ih _ _

theorem produced_outputs (s : Scope) (node group hint : String) (i count : Nat) :
    (s.outputs node group hint i count).2.produced =
      (offers node ((List.range' i count).map (Command.indexed group))
        (s.outputs node group hint i count).1).reverse ++ s.produced := by
  induction count generalizing s i with
  | zero => rfl
  | succ count ih =>
    simp only [outputs, ih, List.range'_succ, List.map_cons, offers, List.zip_cons_cons,
      List.reverse_cons, List.append_assoc]
    rfl

theorem operands_group (s : Scope) (g : Graph) (node : String) (expanded : Bool)
    (group vector : String) (count : Nat) (elem : DataType) :
    (s.group g node expanded group vector count).operands =
      ((Command.groupPorts expanded group vector count elem).map Port.id).map (s.input g node) := by
  rw [Command.map_id_groupPorts]
  cases expanded <;> simp [Scope.group, Group.operands, Scope.inputs, Function.comp_def]

end Scope

/-! ## Operations -/

/-- What compiling a command adds: an operation that reads the command's input ports in order, and
a fresh name for each output port. -/
structure Emits (g : Graph) (id : String) (c : Command) (s : Scope) (op : Operation)
    (s' : Scope) : Prop where
  kind : op.kind = c.kind
  operands : op.operands = (c.inputPorts.map Port.id).map (s.input g id)
  outputs : op.outputs.length = c.outputPorts.length
  hands : s.names.Hands op.outputs s'.names
  produced : s'.produced =
    (offers id (c.outputPorts.map Port.id) op.outputs).reverse ++ s.produced

theorem operation_emits (g : Graph) (id : String) (c : Command) (s : Scope) :
    Emits g id c s (operation g id c s).1 (operation g id c s).2 := by
  cases c with
  | splitCoins amounts =>
    refine ⟨rfl, ?_, ?_, s.outputs_hands .., ?_⟩
    · simp [operation, Operation.operands, Command.inputPorts, Command.map_id_numbered_ioIn,
        Scope.inputs, Function.comp_def]
    · simp [operation, Operation.outputs, Command.outputPorts, Command.numbered,
        Scope.length_outputs]
    · simp only [operation, Scope.produced_outputs, Command.outputPorts,
        Command.map_id_numbered_ioOut, Operation.outputs, List.length_replicate,
        List.range_eq_range']
  | mergeCoins =>
    refine ⟨rfl, ?_, rfl, .nil _, rfl⟩
    simp only [operation, Operation.operands, Command.inputPorts, List.map_cons, Port.id_ioIn,
      s.operands_group g id _ _ _ _ .anyObject]
  | transferObjects =>
    refine ⟨rfl, ?_, rfl, .nil _, rfl⟩
    simp only [operation, Operation.operands, Command.inputPorts, List.map_append, List.map_cons,
      List.map_nil, Port.id_ioIn, s.operands_group g id _ _ _ _ .anyObject]
  | makeMoveVec elem =>
    refine ⟨rfl, ?_, rfl, s.names.hands_allocPlural _, rfl⟩
    simp only [operation, Operation.operands, Command.inputPorts,
      s.operands_group g id _ _ _ _ elem]
  | moveCall call =>
    refine ⟨rfl, ?_, ?_, s.outputs_hands .., ?_⟩
    · have hargs := Command.map_zipIdx_snd
        (fun i => s.input g id (Command.indexed Command.argIn i)) call.params
      simpa [operation, Operation.operands, Command.inputPorts, Command.map_id_typeArgPorts,
        Command.map_id_numbered_ioIn, Scope.inputs, arguments, Function.comp_def] using hargs
    · simp [operation, Operation.outputs, Command.outputPorts, Command.numbered,
        Scope.length_outputs]
    · simp only [operation, Scope.produced_outputs, Command.outputPorts,
        Command.map_id_numbered_ioOut, Operation.outputs, List.range_eq_range']
  | publish => exact ⟨rfl, rfl, rfl, s.names.hands_alloc _, rfl⟩
  | upgrade => exact ⟨rfl, rfl, rfl, s.names.hands_alloc _, rfl⟩

theorem Emits.of_eq {g : Graph} {id : String} {c : Command} {s s' : Scope} {op : Operation}
    (h : operation g id c s = (op, s')) : Emits g id c s op s' := by
  have hemits := operation_emits g id c s
  rwa [h] at hemits

/-! ## Variables -/

/-- What binding variables adds: the program's variables, and the value at the output port of each
variable of the graph. -/
inductive Binds : List Variable → List Binding → List ((String × String) × Operand) → Prop
  | nil : Binds [] [] []
  | inlined {v : Variable} {vs : List Variable} {bs : List Binding}
    {ps : List ((String × String) × Operand)} {value : Operand}
    (h : v.inlined = .ok (some value)) (rest : Binds vs bs ps) :
    Binds (v :: vs) bs (((v.id, Port.variableOut), value) :: ps)
  | named {v : Variable} {vs : List Variable} {bs : List Binding}
    {ps : List ((String × String) × Operand)} {name : String}
    (h : v.inlined = .ok none) (rest : Binds vs bs ps) :
    Binds (v :: vs) (⟨name, v.initial⟩ :: bs) (((v.id, Port.variableOut), .ref name) :: ps)

theorem nameOf_hands (v : Variable) (names : NamePool) :
    names.Hands [(nameOf v names).1] (nameOf v names).2 := by
  unfold nameOf
  split
  · exact names.hands_allocPlural _
  · exact names.hands_alloc _

theorem bindVariables_binds {s s' : Scope} {bs : List Binding}
    (h : bindVariables vs s = .ok (bs, s')) :
    ∃ ps, Binds vs bs ps ∧ s'.produced = ps.reverse ++ s.produced ∧
      s.names.Hands (bs.map Binding.name) s'.names := by
  induction vs generalizing s bs with
  | nil =>
    cases h
    exact ⟨[], .nil, rfl, .nil _⟩
  | cons v vs ih =>
    obtain ⟨⟨first, t⟩, hfirst, h⟩ := bind_eq_ok.mp h
    obtain ⟨⟨more, t'⟩, hmore, h⟩ := bind_eq_ok.mp h
    cases h
    obtain ⟨ps, hps, hproduced, hhands⟩ := ih hmore
    obtain ⟨found, hfound, hfirst⟩ := bind_eq_ok.mp hfirst
    cases found with
    | some value =>
      cases hfirst
      exact ⟨_, .inlined hfound hps, by simp [hproduced, Scope.produce], hhands⟩
    | none =>
      cases hfirst
      exact ⟨_, .named hfound hps, by simp [hproduced, Scope.produce],
        (nameOf_hands v s.names).append hhands⟩

theorem Binds.inlined_ok {bs : List Binding} {ps : List ((String × String) × Operand)}
    (h : Binds vs bs ps) : ∀ v ∈ vs, ∃ found, v.inlined = .ok found := by
  induction h with
  | nil => simp
  | inlined h _ ih => exact List.forall_mem_cons.mpr ⟨⟨_, h⟩, ih⟩
  | named h _ ih => exact List.forall_mem_cons.mpr ⟨⟨_, h⟩, ih⟩

theorem exists_bindVariables (h : ∀ v ∈ vs, ∃ found, v.inlined = .ok found) (s : Scope) :
    ∃ result, bindVariables vs s = .ok result := by
  induction vs generalizing s with
  | nil => exact ⟨_, rfl⟩
  | cons v vs ih =>
    obtain ⟨found, hfound⟩ := h v List.mem_cons_self
    have hfirst : ∃ first, bindVariable v s = .ok first := by
      cases found with
      | some value => exact ⟨_, bind_eq_ok.mpr ⟨_, hfound, rfl⟩⟩
      | none => exact ⟨_, bind_eq_ok.mpr ⟨_, hfound, rfl⟩⟩
    obtain ⟨first, hfirst⟩ := hfirst
    obtain ⟨more, hmore⟩ := ih (fun w hw => h w (List.mem_cons_of_mem _ hw)) first.2
    exact ⟨_, bind_eq_ok.mpr ⟨first, hfirst, bind_eq_ok.mpr ⟨more, hmore, rfl⟩⟩⟩

/-! ## Commands -/

def commandsOf (g : Graph) (order : List String) : List (String × Command) :=
  order.filterMap fun id => ((g.node? id).bind Node.command?).map (id, ·)

inductive Runs (g : Graph) : Scope → List (String × Command) → List Operation → Scope → Prop
  | nil (s : Scope) : Runs g s [] [] s
  | cons {s s' s'' : Scope} {id : String} {c : Command} {op : Operation}
    {cs : List (String × Command)} {ops : List Operation}
    (h : operation g id c s = (op, s')) (rest : Runs g s' cs ops s'') :
    Runs g s ((id, c) :: cs) (op :: ops) s''

theorem operations_runs (g : Graph) (order : List String) (s : Scope) :
    ∃ s', Runs g s (commandsOf g order) (operations g order s) s' := by
  induction order generalizing s with
  | nil => exact ⟨s, .nil s⟩
  | cons id rest ih =>
    unfold operations commandsOf
    cases hc : (g.node? id).bind Node.command? with
    | none =>
      rw [List.filterMap_cons_none (by simp [hc])]
      exact ih s
    | some c =>
      rw [List.filterMap_cons_some (b := (id, c)) (by simp [hc])]
      obtain ⟨s', h⟩ := ih (operation g id c s).2
      exact ⟨s', .cons rfl h⟩

/-- The values that operations make available at the output ports of their commands. -/
def results : List (String × Command) → List Operation → List ((String × String) × Operand)
  | (id, c) :: cs, op :: ops => offers id (c.outputPorts.map Port.id) op.outputs ++ results cs ops
  | _, _ => []

namespace Runs

variable {g : Graph} {s s' : Scope} {cs : List (String × Command)} {ops : List Operation}

theorem hands (h : Runs g s cs ops s') : s.names.Hands (ops.flatMap Operation.outputs) s'.names := by
  induction h with
  | nil s => exact .nil _
  | cons h rest ih => exact (Emits.of_eq h).hands.append ih

theorem length_eq (h : Runs g s cs ops s') : ops.length = cs.length := by
  induction h with
  | nil s => rfl
  | cons h rest ih => simp [ih]

theorem produced (h : Runs g s cs ops s') :
    s'.produced = (results cs ops).reverse ++ s.produced := by
  induction h with
  | nil s => rfl
  | cons h rest ih => simp [results, ih, (Emits.of_eq h).produced]

theorem get? (h : Runs g s cs ops s') {k : Nat} {id : String} {c : Command}
    (hk : cs[k]? = some (id, c)) :
    ∃ op t t', ops[k]? = some op ∧ Runs g s (cs.take k) (ops.take k) t ∧
      operation g id c t = (op, t') := by
  induction h generalizing k with
  | nil s => simp at hk
  | @cons s s₁ s₂ id₁ c₁ op₁ cs ops h rest ih =>
    cases k with
    | zero =>
      cases hk
      exact ⟨op₁, s, s₁, rfl, .nil s, h⟩
    | succ k =>
      obtain ⟨op, t, t', hop, hbefore, hat⟩ := ih hk
      exact ⟨op, t, t', hop, .cons h hbefore, hat⟩

end Runs

end Compile

/-- A graph compiles if it has both ends and it is known what the variables that feed its commands
stand for. -/
theorem Graph.exists_compile_iff {reserved : List String} :
    (∃ p, g.compile reserved = .ok p) ↔ g.start?.isSome ∧ g.finish?.isSome ∧
      ∀ v ∈ Compile.usedVariables g g.flow.order, ∃ found, v.inlined = .ok found := by
  constructor
  · rintro ⟨p, h⟩
    unfold Graph.compile at h
    split at h
    · cases h
    case isFalse hstart =>
      split at h
      · cases h
      case isFalse hfinish =>
        split at h
        case h_2 => cases h
        case h_1 p' hp =>
          obtain ⟨⟨vars, s⟩, hvars, -⟩ := bind_eq_ok.mp hp
          obtain ⟨ps, hps, -, -⟩ := Compile.bindVariables_binds hvars
          exact ⟨Option.isSome_iff_ne_none.mpr (by simpa using hstart),
            Option.isSome_iff_ne_none.mpr (by simpa using hfinish), hps.inlined_ok⟩
  · rintro ⟨hstart, hfinish, hused⟩
    obtain ⟨⟨vars, s⟩, hbound⟩ := Compile.exists_bindVariables hused ⟨.seeded reserved, []⟩
    have hprogram : Compile.program g g.flow.order reserved =
        .ok ⟨vars, Compile.operations g g.flow.order s⟩ :=
      bind_eq_ok.mpr ⟨_, hbound, rfl⟩
    refine ⟨⟨vars, Compile.operations g g.flow.order s⟩, ?_⟩
    simp [compile, hprogram, Option.isSome_iff_ne_none.mp hstart,
      Option.isSome_iff_ne_none.mp hfinish]

theorem Compile.var_mem_of_mem_usedVariables {order : List String} {v : Variable}
    (h : v ∈ Compile.usedVariables g order) : Node.var v ∈ g.nodes := by
  obtain ⟨n, hn, hfound⟩ := List.mem_filterMap.mp h
  cases n with
  | var w =>
    dsimp only at hfound
    split at hfound
    · cases hfound
      exact hn
    · cases hfound
  | _ => cases hfound

theorem Graph.exists_compile {start finish : Node} (hstart : g.start? = some start)
    (hfinish : g.finish? = some finish)
    (hvars : ∀ v, .var v ∈ g.nodes → ∃ found, v.inlined = .ok found) (reserved : List String) :
    ∃ p, g.compile reserved = .ok p :=
  exists_compile_iff.mpr ⟨by simp [hstart], by simp [hfinish],
    fun v hv => hvars v (Compile.var_mem_of_mem_usedVariables hv)⟩

/-- A compiled program comes from binding the variables that are used and then compiling the
commands in their order. -/
theorem Graph.compile_runs {reserved : List String} {p : Program} (h : g.compile reserved = .ok p) :
    ∃ ps s s', Compile.Binds (Compile.usedVariables g g.flow.order) p.vars ps ∧
      s.produced = ps.reverse ∧
      (NamePool.seeded reserved).Hands (p.vars.map Binding.name) s.names ∧
      Compile.Runs g s (Compile.commandsOf g g.flow.order) p.ops s' := by
  unfold Graph.compile at h
  split at h
  · cases h
  split at h
  · cases h
  split at h
  case h_2 => cases h
  case h_1 p' hp =>
    cases h
    obtain ⟨⟨vars, s⟩, hvars, hops⟩ := bind_eq_ok.mp hp
    cases hops
    obtain ⟨ps, hps, hproduced, hhands⟩ := Compile.bindVariables_binds hvars
    obtain ⟨s', hruns⟩ := Compile.operations_runs g g.flow.order s
    dsimp only at hproduced hhands
    exact ⟨ps, s, s', hps, by rw [hproduced, List.append_nil], hhands, hruns⟩

end TxGraph
