import TxGraph.Proofs.Decoding.Fidelity

/-!
# Indices that start over

Decoding sets no bound on inputs, commands and outputs, and an argument has 16 bits for the number of
each. So in a long transaction several values answer to one argument, and the port of the argument is
fed by the last of them that is there before the command.
-/

namespace TxGraph

open Decoding (Value NodeName latest? gasId inputId commandId)

def Graph.outputsOf (g : Graph) (n : Nat) : List (Value × (String × String)) :=
  ((g.node? (commandId n)).bind Node.command?).elim [] fun c =>
    c.outputPorts.mapIdx fun m port => (.output n m, (commandId n, port.id))

/-- The values that are there before the command with number `k`, each with the port that produces it,
in the order in which they come up. -/
def Transaction.values (t : Transaction) (g : Graph) (k : Nat) : List (Value × (String × String)) :=
  (.gas, (gasId, Port.variableOut)) ::
    (List.range t.inputs.length).map (fun n => (.input n, (inputId n, Port.variableOut))) ++
    (List.range k).flatMap g.outputsOf

/-- What the edges of a decoded transaction carry, however long it is. -/
structure Decoded.Carries (d : Decoded) (t : Transaction) : Prop where
  /-- The port of an argument is fed by the last value that answers to the argument. -/
  wired (k : Nat) (c : TxCommand) (i : Nat) (arg : TxArg) : t.commands[k]? = some c →
    c.isSupported = true → c.isNested = false → c.args[i]? = some arg →
    ∃ port, c.argPorts[i]? = some port ∧
      d.graph.feeders (commandId k) port = (latest? (t.values d.graph k) arg).toList
  /-- Nothing else feeds a command, apart from variables of its own. -/
  fed (k : Nat) (c : TxCommand) (port : String) (source : String × String) :
    t.commands[k]? = some c → c.isSupported = true →
    source ∈ d.graph.feeders (commandId k) port →
    (∃ name : NodeName, name.number? = some k ∧ name ≠ .command k ∧
      source = (name.id, Port.variableOut)) ∨
    ∃ arg ∈ c.args, latest? (t.values d.graph k) arg = some source
  /-- That value is the one that the argument means exactly if no other value answers to it. -/
  right_iff (k : Nat) (arg : TxArg) :
    latest? (t.values d.graph k) arg = t.origin? d.graph k arg ↔
      ∀ x ∈ t.values d.graph k, x.1.answers arg = true → x.1 = .ofArg arg
  input_iff (k : Nat) (i : UInt16) :
    latest? (t.values d.graph k) (.input i) = t.origin? d.graph k (.input i) ↔
      t.inputs.length ≤ i.toNat + Limited.limit

namespace Decoding

/-! ## Order and ports of entries -/

theorem pairwise_before (vs : List Variable) (plan : Plan) :
    (inputLedger vs ++ plan.ledger).Pairwise fun x y => x.1.Before y.1 := by
  induction plan using List.reverseRecOn with
  | nil =>
    rw [Plan.ledger, List.zipIdx_nil, List.flatMap_nil, List.append_nil]
    refine List.pairwise_cons.mpr ⟨fun x hx => ?_, List.pairwise_iff_getElem.mpr ?_⟩
    · obtain ⟨n, hn, rfl⟩ := List.mem_mapIdx.mp hx
      trivial
    · intro i j hi hj hij
      simpa [Value.Before] using hij
  | append_singleton plan d ih =>
    cases d with
    | none => rwa [Plan.ledger_concat_none]
    | some d =>
      rw [Plan.ledger_concat_some, ← List.append_assoc]
      refine List.pairwise_append.mpr ⟨ih, List.pairwise_iff_getElem.mpr ?_, fun x hx y hy => ?_⟩
      · intro i j hi hj hij
        simpa [Drawing.outputs, Value.Before] using hij
      · obtain ⟨m, port, -, rfl⟩ := Drawing.mem_outputs.mp hy
        rcases List.mem_append.mp hx with hx | hx
        · rcases mem_inputLedger.mp hx with rfl | ⟨n, v, -, rfl⟩ <;> trivial
        · obtain ⟨n, d', hn, hx⟩ := Plan.mem_ledger.mp hx
          obtain ⟨m', port', -, rfl⟩ := Drawing.mem_outputs.mp hx
          exact .inl (List.getElem?_eq_some_iff.mp hn).1

def Value.producer : Value → NodeName
  | gas => .gas
  | input n => .input n
  | output n _ => .command n

section

variable {vs : List Variable} {plan : Plan} (hvs : ∀ n v, vs[n]? = some v → v.id = inputId n)

include hvs

theorem Entry.node_eq {v : Value} {p : Producer} (h : Entry vs plan v p) :
    p.node = v.producer.id := by
  cases v with
  | gas =>
    cases h
    rfl
  | input n =>
    obtain ⟨v, hv, rfl⟩ := h
    exact hvs n v hv
  | output n m =>
    obtain ⟨d, -, port, -, rfl⟩ := h
    rfl

theorem Entry.inj {v v' : Value} {p p' : Producer} (h : Entry vs plan v p)
    (h' : Entry vs plan v' p') (hnode : p.node = p'.node) (hport : p.port = p'.port) : v = v' := by
  have hsame : v.producer = v'.producer :=
    NodeName.id_inj ((h.node_eq hvs).symm.trans (hnode.trans (h'.node_eq hvs)))
  cases v <;> cases v' <;> cases hsame
  case gas.gas => rfl
  case input.input => rfl
  case output.output n m m' =>
    obtain ⟨d, hd, port, hm, rfl⟩ := h
    obtain ⟨d', hd', port', hm', rfl⟩ := h'
    cases Option.some.inj (Option.some.inj (hd.symm.trans hd'))
    have hids : (d.command.outputPorts.map Port.id)[m]? = (d.command.outputPorts.map Port.id)[m']? := by
      rw [List.getElem?_map, List.getElem?_map, hm, hm']
      exact congrArg some hport
    rw [(List.getElem?_inj (by simpa using (List.getElem?_eq_some_iff.mp hm).1)
      d.command.nodup_outputPorts).mp hids]

end

/-! ## Decoded transactions -/

section

variable {source : SignatureSource} {t : Transaction} {vs : List Variable} {plan : Plan}
  {packed : List String} {d : Decoded} (h : Sketched source t vs plan packed d)

include h

theorem Sketched.outputsOf_eq (n : Nat) : d.graph.outputsOf n =
    (plan[n]?.join.elim [] (Drawing.outputs n)).map fun x => (x.1, (x.2.node, x.2.port)) := by
  rw [Graph.outputsOf, h.command?_eq]
  cases plan[n]?.join with
  | none => rfl
  | some drawing =>
    refine List.ext_getElem? fun m => ?_
    simp [Drawing.outputs, producerOf, Function.comp_def]

theorem Sketched.values_eq (k : Nat) : t.values d.graph k =
    (inputLedger vs ++ Plan.ledger (plan.take k)).map fun x => (x.1, (x.2.node, x.2.port)) := by
  rw [Transaction.values, List.map_append]
  congr 1
  · refine congrArg (_ :: ·) (List.ext_getElem? fun n => ?_)
    rw [← h.vars.length_eq]
    by_cases hn : n < vs.length
    · have hid := h.id_var n _ (List.getElem?_eq_getElem hn)
      simp [hn, varProducer, hid]
    · simp [hn]
  · induction k with
    | zero => simp [Plan.ledger_nil]
    | succ k ih =>
      rw [List.range_succ, List.flatMap_append, ih, List.flatMap_singleton, h.outputsOf_eq,
        List.take_add_one, ← List.map_append]
      rcases hk : plan[k]? with _ | _ | drawing
      · simp
      · simp [Plan.ledger_concat_none]
      · have hlt := (List.getElem?_eq_some_iff.mp hk).1
        simp [Plan.ledger_concat_some, Nat.min_eq_left hlt.le]

theorem Sketched.mem_values {k : Nat} {x : Value × (String × String)} :
    x ∈ t.values d.graph k ↔
      ∃ p, Entry vs (plan.take k) x.1 p ∧ x.2 = (p.node, p.port) := by
  rw [h.values_eq, List.mem_map]
  constructor
  · rintro ⟨y, hy, rfl⟩
    exact ⟨y.2, mem_ledger_iff.mp hy, rfl⟩
  · rintro ⟨p, hp, hx⟩
    exact ⟨(x.1, p), mem_ledger_iff.mpr hp, Prod.ext rfl hx.symm⟩

theorem Sketched.latest?_values (k : Nat) (arg : TxArg) : latest? (t.values d.graph k) arg =
    (latest? (inputLedger vs ++ Plan.ledger (plan.take k)) arg).map fun p => (p.node, p.port) := by
  rw [h.values_eq]
  exact latest?_map (fun p : Producer => (p.node, p.port)) _ arg

theorem Sketched.right_iff (k : Nat) (arg : TxArg) :
    latest? (t.values d.graph k) arg = t.origin? d.graph k arg ↔
      ∀ x ∈ t.values d.graph k, x.1.answers arg = true → x.1 = .ofArg arg := by
  refine latest?_eq_iff (fun a => ?_) ?_ fun x hx y hy hports => ?_
  · rw [h.origin?_eq_some_iff, h.mem_values]
  · rw [h.values_eq]
    exact (pairwise_before vs (plan.take k)).map _ fun _ _ hbefore => hbefore
  · obtain ⟨p, hp, hx⟩ := h.mem_values.mp hx
    obtain ⟨q, hq, hy⟩ := h.mem_values.mp hy
    obtain ⟨hnode, hport⟩ := Prod.mk.inj (hx.symm.trans (hports.trans hy))
    exact hp.inj h.id_var hq hnode hport

theorem Sketched.input_iff (k : Nat) (i : UInt16) :
    latest? (t.values d.graph k) (.input i) = t.origin? d.graph k (.input i) ↔
      t.inputs.length ≤ i.toNat + Limited.limit := by
  have hi : i.toNat < Limited.limit := i.toNat_lt
  rw [h.right_iff, ← h.vars.length_eq]
  constructor
  · intro hright
    by_contra hlt
    obtain ⟨v, hv⟩ : ∃ v, vs[i.toNat + Limited.limit]? = some v :=
      ⟨_, List.getElem?_eq_getElem (by omega)⟩
    have hother : Value.input (i.toNat + Limited.limit) = .input i.toNat :=
      hright (.input _, _) (h.mem_values.mpr ⟨_, ⟨v, hv, rfl⟩, rfl⟩) <| by
        simp [Value.answers, Value.ofNat_eq_iff]
    have := Value.input.inj hother
    rw [Limited.limit] at this
    omega
  · intro hle x hx hanswers
    obtain ⟨p, hp, -⟩ := h.mem_values.mp hx
    obtain ⟨v, port⟩ := x
    cases v <;> simp only [Value.answers, Bool.false_eq_true, beq_iff_eq] at hanswers
    case input n =>
      obtain ⟨v, hv, -⟩ := hp
      have hlt := (List.getElem?_eq_some_iff.mp hv).1
      rw [Value.ofNat_eq_iff] at hanswers
      have : n = i.toNat := by
        rw [Limited.limit] at *
        omega
      rw [this, Value.ofArg]

theorem Sketched.fed {k : Nat} {c : TxCommand} {port : String} {feeder : String × String}
    (hk : t.commands[k]? = some c) (hsupported : c.isSupported = true)
    (hfrom : feeder ∈ d.graph.feeders (commandId k) port) :
    (∃ name : NodeName, name.number? = some k ∧ name ≠ .command k ∧
      feeder = (name.id, Port.variableOut)) ∨
    ∃ arg ∈ c.args, latest? (t.values d.graph k) arg = some feeder := by
  obtain ⟨e, he, rfl⟩ := List.mem_map.mp hfrom
  rcases h.plans.drawing_of_command hk with ⟨rfl, -⟩ | ⟨drawing, hdrawing, hdepicts⟩
  · cases hsupported
  rw [Nat.zero_add] at hdepicts
  rw [h.filter_feeds port hdrawing] at he
  rcases (edge_of_mem (List.mem_of_mem_filter he)).2.2 with ⟨f, hf, rfl⟩ | ⟨slot, hslot, hedge⟩
  · left
    obtain ⟨names, ⟨hids, -⟩, hown⟩ := named_vars hdepicts.outlines
    have hid : f.1.id ∈ names.map NodeName.id := by
      rw [← hids]
      exact List.mem_map.mpr ⟨.var f.1, List.mem_map.mpr ⟨f, hf, rfl⟩, rfl⟩
    obtain ⟨name, hname, heq⟩ := List.mem_map.mp hid
    exact ⟨name, (hown name hname).1, (hown name hname).2, by rw [heq]; rfl⟩
  · right
    obtain ⟨-, -, -, producer, hproducer, hsource, hhandle⟩ := edgeBy?_eq_some hedge
    refine ⟨slot.arg, arg_of_mem_slots hdepicts.outlines hslot, ?_⟩
    rw [h.latest?_values, hproducer, hsource, hhandle]
    rfl

end

end Decoding

/-- **What feeds an argument, however long a transaction is.** Numbers of inputs, commands and outputs
start over after the last index. So the port of an argument is fed by the last of the values that
answer to the argument before its command, not always by the one that it means: it is that one exactly
if no other value answers to it, and for an input exactly if no input comes 65536 later. -/
theorem Decoded.carries_of_ofTransaction (source : Decoding.SignatureSource) (t : Transaction) :
    (∀ cause, Decoded.ofTransaction source t = .error cause → Decoding.Uncuts source t cause) ∧
    ∀ d, Decoded.ofTransaction source t = .ok d → d.Carries t := by
  have hends := Decoding.ofTransaction_sketched source t
  refine ⟨fun cause herror => ?_, fun d hd => ?_⟩
  · rw [herror] at hends
    exact hends.of_error
  · rw [hd] at hends
    obtain ⟨vs, plan, packed, h⟩ := hends.of_ok
    refine ⟨fun k c i arg hk hsupported hnested harg => ?_, fun _ _ _ _ => h.fed, h.right_iff,
      h.input_iff⟩
    rw [h.latest?_values]
    exact h.feeders_eq hk hsupported hnested harg

/-- A transaction with one input more than there are indices, which merges the first. -/
def crowded : Transaction where
  sender := none
  gasBudget := none
  inputs := List.replicate 65537 (.pure (some "u8") [1])
  commands := [.mergeCoins .gasCoin [.input 0]]

theorem Decoded.carries_of_ofTransaction_crowded :
    ∃ d, Decoded.ofTransaction (fun id => .error (.noPackage id)) crowded = .ok d ∧
      crowded.origin? d.graph 0 (.input 0) = some ("input_0", "out") ∧
      d.graph.feeders "cmd_0" "in_source_0" = [("input_65536", "out")] := by
  obtain ⟨herror, hok⟩ :=
    Decoded.carries_of_ofTransaction (fun id => .error (.noPackage id)) crowded
  have hlength : crowded.inputs.length = 65536 + 1 := List.length_replicate
  cases hd : Decoded.ofTransaction (fun id => .error (.noPackage id)) crowded with
  | error cause =>
    exfalso
    rcases herror cause hd with ⟨x, hx, id, rfl, -⟩ | ⟨c, hc, hblocks⟩
    · cases List.eq_of_mem_replicate hx
    · cases List.mem_singleton.mp hc
      exact hblocks
  | ok d =>
    obtain ⟨port, hport, hfeeders⟩ := (hok d hd).wired 0 _ 1 (.input 0) rfl rfl rfl rfl
    cases hport
    refine ⟨d, rfl, ?_, hfeeders.trans ?_⟩
    · rw [Transaction.origin?, if_pos (by rw [hlength]; decide)]
      rfl
    · rw [Transaction.values, hlength, List.range_succ, List.map_append, List.range_zero,
        List.flatMap_nil, List.append_nil, ← List.cons_append, Decoding.latest?_append]
      rfl

end TxGraph
