import TxGraph.Proofs.Decoding.Shown

/-!
# Fidelity of decoding

A decoded graph keeps what the transaction does, as far as a graph can show it: the commands run in
their order, and each argument comes in at its own port from the port that produces it, whatever the
signatures are and wherever the arguments refer to.
-/

namespace TxGraph

/-! ## What a transaction asks for -/

namespace TxCommand

def isSupported (c : TxCommand) : Bool :=
  c.kind?.isSome

/-- Whether the command makes a vector of vectors, whose elements have no ports of their own. -/
def isNested : TxCommand → Bool
  | makeMoveVec (some elem) _ => (DataType.ofMove elem).isVector
  | _ => false

/-- The number of values that the command gives, where that does not depend on a signature. -/
def outputCount? : TxCommand → Option Nat
  | splitCoins _ amounts => some (max amounts.length 1)
  | mergeCoins .. => some 0
  | transferObjects .. => some 0
  | makeMoveVec .. => some 1
  | publish .. => some 1
  | upgrade .. => some 1
  | moveCall .. => none
  | unsupported => none

def argPorts : TxCommand → List String
  | moveCall _ _ _ _ args => (List.range args.length).map (Command.indexed Command.argIn)
  | splitCoins _ amounts =>
    Command.coinIn :: (List.range amounts.length).map (Command.indexed Command.amountIn)
  | mergeCoins _ sources =>
    Command.destinationIn :: (List.range sources.length).map (Command.indexed Command.sourceIn)
  | transferObjects objects _ =>
    (List.range objects.length).map (Command.indexed Command.objectIn) ++ [Command.recipientIn]
  | makeMoveVec _ elems => (List.range elems.length).map (Command.indexed Command.elemIn)
  | publish .. => []
  | upgrade .. => [Command.ticketIn]
  | unsupported => []

end TxCommand

namespace Graph

def feeders (g : Graph) (node port : String) : List (String × String) :=
  (g.edges.filter (·.feeds node port)).map fun e => (e.source, e.sourceHandle)

/-- An output port of the command with number `j`, as seen from a later command. -/
def output? (g : Graph) (k j r : Nat) : Option (String × String) :=
  if j < k then do
    let c ← (← g.node? (Decoding.commandId j)).command?
    let port ← c.outputPorts[r]?
    return (Decoding.commandId j, port.id)
  else none

end Graph

namespace Transaction

def supported (t : Transaction) : List Nat :=
  (t.commands.zipIdx.filter fun x => x.1.isSupported).map Prod.snd

/-- The port of a graph that produces an argument of the command with number `k`: the gas coin, an
input that exists, or an output that exists of an earlier command. -/
def origin? (t : Transaction) (g : Graph) (k : Nat) : TxArg → Option (String × String)
  | .gasCoin => some (Decoding.gasId, Port.variableOut)
  | .input j =>
    if j.toNat < t.inputs.length then some (Decoding.inputId j.toNat, Port.variableOut) else none
  | .result j => g.output? k j.toNat 0
  | .nested j r => g.output? k j.toNat r.toNat

/-- The argument refers to a result of a call before the command with number `k`, to any but the
last that an index can name. -/
def RefersToCall (t : Transaction) (k : Nat) (arg : TxArg) : Prop :=
  ∃ j r package module function typeArgs args, j.toNat < k ∧
    t.commands[j.toNat]? = some (.moveCall package module function typeArgs args) ∧
    (arg = .result j ∨ arg = .nested j r ∧ r.toNat < Word.max16)

end Transaction

structure Decoded.Faithful (t : Transaction) (d : Decoded) : Prop where
  order : d.graph.flow.order = t.supported.map Decoding.commandId
  shown (k : Nat) (c : TxCommand) : t.commands[k]? = some c → c.isSupported = true →
    ∃ shape, d.graph.node? (Decoding.commandId k) = some (.command (Decoding.commandId k) shape) ∧
      c.kind? = some shape.kind ∧ ∀ n, c.outputCount? = some n → shape.outputPorts.length = n
  /-- Each argument comes from the port that produces it; one that refers to nothing is left open. -/
  wired (k : Nat) (c : TxCommand) (i : Nat) (arg : TxArg) : t.commands[k]? = some c →
    c.isSupported = true → c.isNested = false → c.args[i]? = some arg →
    ∃ port, c.argPorts[i]? = some port ∧
      d.graph.feeders (Decoding.commandId k) port = (t.origin? d.graph k arg).toList
  calls (k : Nat) (c : TxCommand) (arg : TxArg) : t.commands[k]? = some c → arg ∈ c.args →
    t.RefersToCall k arg → (t.origin? d.graph k arg).isSome = true
  /-- No argument is moved to another port or dropped for want of one. -/
  direct (g : Diagnostic) : g ∈ d.diagnostics → (∀ arg, g.finding ≠ .noFreePort arg) ∧
    ∀ arg port wanted, g.finding ≠ .rerouted arg port wanted

namespace Decoding

variable {index : Nat} {inputs : List TxInput} {vs : List Variable} {plan : Plan}

/-! ## Plans and commands -/

section

variable {c : Context} {k : Nat} {commands : List TxCommand} {plan : Plan}
  (h : Plans c k commands plan)

include h

theorem Plans.length_eq : plan.length = commands.length := by
  induction h with
  | nil k => rfl
  | skip tail ih => rw [List.length_cons, List.length_cons, ih]
  | cons head tail ih => rw [List.length_cons, List.length_cons, ih]

theorem Plans.drawing_of_command {j : Nat} {command : TxCommand} (hj : commands[j]? = some command) :
    (command = .unsupported ∧ plan[j]? = some none) ∨
      ∃ d, plan[j]? = some (some d) ∧ Depicts c (k + j) command d := by
  induction h generalizing j with
  | nil k => cases hj
  | @skip k commands plan tail ih =>
    cases j with
    | zero =>
      cases hj
      exact .inl ⟨rfl, rfl⟩
    | succ j =>
      rw [Nat.add_comm j 1, ← Nat.add_assoc, Nat.add_comm 1 j]
      exact ih hj
  | @cons k first d commands plan head tail ih =>
    cases j with
    | zero =>
      cases hj
      exact .inr ⟨d, rfl, head⟩
    | succ j =>
      rw [Nat.add_comm j 1, ← Nat.add_assoc, Nat.add_comm 1 j]
      exact ih hj

theorem Plans.command_of_drawing {j : Nat} {d : Drawing} (hj : plan[j]? = some (some d)) :
    ∃ command, commands[j]? = some command ∧ Depicts c (k + j) command d := by
  have hlt : j < commands.length := h.length_eq ▸ (List.getElem?_eq_some_iff.mp hj).1
  have hcommand := List.getElem?_eq_getElem hlt
  refine ⟨_, hcommand, ?_⟩
  rcases h.drawing_of_command hcommand with ⟨-, hnone⟩ | ⟨found, hfound, hdepicts⟩
  · rw [hj] at hnone
    cases hnone
  · rw [hj] at hfound
    cases hfound
    exact hdepicts

theorem Plans.outlined : plan.Outlined c k := by
  intro j d hj
  obtain ⟨command, -, hdepicts⟩ := h.command_of_drawing hj
  exact ⟨command, hdepicts.outlines⟩

theorem Plans.shown_eq :
    plan.shown k = ((commands.zipIdx k).filter fun x => x.1.isSupported).map Prod.snd := by
  induction h with
  | nil k => rfl
  | skip tail ih =>
    rw [Plan.shown, ih, List.zipIdx_cons, List.filter_cons_of_neg (by exact Bool.false_ne_true)]
  | @cons k command d commands plan head tail ih =>
    have hsupported : command.isSupported = true := by
      cases command with
      | unsupported => cases head.outlines
      | _ => rfl
    rw [Plan.shown, ih, List.zipIdx_cons, List.filter_cons_of_pos (by exact hsupported),
      List.map_cons]

end

theorem VarsOf.length_eq (h : VarsOf index inputs vs) : vs.length = inputs.length := by
  induction h with
  | nil index => rfl
  | cons head tail ih => rw [List.length_cons, List.length_cons, ih]

theorem VarsOf.input_of_var (h : VarsOf index inputs vs) {n : Nat} {v : Variable}
    (hn : vs[n]? = some v) :
    ∃ x finding, inputs[n]? = some x ∧ inputVariable (index + n) x = .ok (v, finding) := by
  induction h generalizing n with
  | nil index => cases hn
  | cons head tail ih =>
    cases n with
    | zero =>
      cases hn
      exact ⟨_, _, rfl, head⟩
    | succ n =>
      rw [Nat.add_comm n 1, ← Nat.add_assoc, Nat.add_comm 1 n]
      exact ih hn

theorem VarsOf.id_eq (h : VarsOf index inputs vs) {n : Nat} {v : Variable} (hn : vs[n]? = some v) :
    v.id = inputId (index + n) := by
  obtain ⟨x, finding, -, hv⟩ := h.input_of_var hn
  exact (inputVariable_spec hv).1

/-! ## Slots -/

theorem map_port_ofCommand (command : TxCommand) :
    (ArgSlot.ofCommand command).map ArgSlot.port = command.argPorts := by
  cases command <;> simp [ArgSlot.ofCommand, TxCommand.argPorts, map_port_numbered, ArgSlot.single]

theorem map_arg_ofCommand (command : TxCommand) :
    (ArgSlot.ofCommand command).map ArgSlot.arg = command.args := by
  cases command <;> simp [ArgSlot.ofCommand, TxCommand.args, map_arg_numbered, ArgSlot.single]

/-- Apart from vectors of vectors, the slots of a drawing are those of its command. -/
theorem slots_of_outlines {c : Context} {k : Nat} {command : TxCommand} {d : Drawing}
    (h : Outlines c k command d) (hnested : command.isNested = false) :
    d.slots = ArgSlot.ofCommand command := by
  cases command with
  | moveCall =>
    obtain ⟨call, rfl⟩ := h
    rfl
  | makeMoveVec elem elems =>
    cases h
    have hvector : (elem.elim .anyObject DataType.ofMove).isVector = false := by
      cases elem with
      | none => rfl
      | some spelling => exact hnested
    simp [drawVector, hvector, ArgSlot.ofCommand]
  | unsupported => cases h
  | _ =>
    cases h
    rfl

theorem kind_of_outlines {c : Context} {k : Nat} {command : TxCommand} {d : Drawing}
    (h : Outlines c k command d) : command.kind? = some d.command.kind ∧
      ∀ n, command.outputCount? = some n → d.command.outputPorts.length = n := by
  cases command with
  | unsupported => cases h
  | moveCall =>
    obtain ⟨call, rfl⟩ := h
    exact ⟨rfl, nofun⟩
  | makeMoveVec elem elems =>
    cases h
    unfold drawVector
    split
    · split <;> exact ⟨rfl, fun n hn => Option.some_inj.mp hn⟩
    · exact ⟨rfl, fun n hn => Option.some_inj.mp hn⟩
  | splitCoins =>
    cases h
    refine ⟨rfl, fun n hn => ?_⟩
    cases hn
    simp [Command.outputPorts, Command.numbered]
  | _ =>
    cases h
    exact ⟨rfl, fun n hn => Option.some_inj.mp hn⟩

theorem filter_eq_singleton {α : Type} {p : α → Bool} {a : α} {xs : List α} (hxs : xs.Nodup)
    (ha : a ∈ xs) (hp : p a = true) (hunique : ∀ b ∈ xs, p b = true → b = a) : xs.filter p = [a] := by
  have hall : ∀ b ∈ xs.filter p, b = a := fun b hb =>
    hunique b (List.mem_filter.mp hb).1 (List.mem_filter.mp hb).2
  have hreplicate := List.eq_replicate_of_mem hall
  have hnodup := hxs.filter p
  rw [hreplicate, List.nodup_replicate] at hnodup
  have hpos : 0 < (xs.filter p).length := List.length_pos_of_mem (List.mem_filter.mpr ⟨ha, hp⟩)
  rw [hreplicate, show (xs.filter p).length = 1 by omega, List.replicate_one]

section

variable {lookup : TxArg → Option Producer} {k : Nat} {d : Drawing} (hports : d.ports.Nodup)

include hports

theorem filter_feeds_edge {e : Edge} (he : e ∈ d.edgesBy lookup k) :
    (d.edgesBy lookup k).filter (·.feeds (commandId k) e.targetHandle) = [e] := by
  have hhandles : ((d.edgesBy lookup k).map Edge.targetHandle).Nodup := nodup_targetHandle hports
  obtain ⟨hio, htarget, -⟩ := edge_of_mem he
  refine filter_eq_singleton hhandles.of_map he (by simp [Edge.feeds, hio, htarget])
    fun other hother hfeeds => List.inj_on_of_nodup_map hhandles hother he ?_
  simp only [Edge.feeds, Bool.and_eq_true, beq_iff_eq] at hfeeds
  exact hfeeds.2

/-- The edges into the port of a slot: the edge of the slot, if its argument stands for a value. -/
theorem filter_feeds_edgesBy {slot : ArgSlot} (hslot : slot ∈ d.slots) :
    (d.edgesBy lookup k).filter (·.feeds (commandId k) slot.port) =
      (edgeBy? lookup (commandId k) d.command.inputPorts slot).toList := by
  cases hedge : edgeBy? lookup (commandId k) d.command.inputPorts slot with
  | some e =>
    have he : e ∈ d.edgesBy lookup k :=
      List.mem_append_right _ (List.mem_filterMap.mpr ⟨slot, hslot, hedge⟩)
    rw [← (edgeBy?_eq_some hedge).2.2.1]
    exact filter_feeds_edge hports he
  | none =>
    refine List.filter_eq_nil_iff.mpr fun e he hfeeds => ?_
    simp only [Edge.feeds, Bool.and_eq_true, beq_iff_eq] at hfeeds
    obtain ⟨-, hslots, hapart⟩ := List.nodup_append.mp hports
    rcases (edge_of_mem he).2.2 with ⟨f, hf, rfl⟩ | ⟨other, hother, hsome⟩
    · exact hapart _ (List.mem_map_of_mem hf) _ (List.mem_map_of_mem hslot) hfeeds.2
    · have hsame : other = slot := by
        refine List.inj_on_of_nodup_map hslots hother hslot ?_
        rw [← (edgeBy?_eq_some hsome).2.2.1, hfeeds.2]
      rw [hsame, hedge] at hsome
      cases hsome

end

/-! ## Edges of plans -/

section

variable {ledger : List (Value × Producer)} {previous : String} {port : String} {n k : Nat}
  {d : Drawing}

theorem filter_feeds_of_ne {lookup : TxArg → Option Producer} (h : n ≠ k) :
    (d.edgesBy lookup k).filter (·.feeds (commandId n) port) = [] := by
  refine List.filter_eq_nil_iff.mpr fun e he hfeeds => h ?_
  simp only [Edge.feeds, Bool.and_eq_true, beq_iff_eq] at hfeeds
  exact commandId_inj (hfeeds.1.2.symm.trans (edge_of_mem he).2.1)

theorem filter_feeds_cons {rest : Plan} :
    (Plan.edges ledger k previous (some d :: rest)).filter (·.feeds (commandId n) port) =
      (d.edgesBy (latest? ledger) k).filter (·.feeds (commandId n) port) ++
      (Plan.edges (ledger ++ d.outputs k) (k + 1) (commandId k) rest).filter
        (·.feeds (commandId n) port) := by
  rw [Plan.edges, List.filter_append]
  congr 1

end

theorem filter_feeds_eq_nil : ∀ {ledger : List (Value × Producer)} {k : Nat}
    {previous : String} {n : Nat} {port : String}, n < k →
    (plan.edges ledger k previous).filter (·.feeds (commandId n) port) = [] := by
  induction plan with
  | nil => exact fun _ => rfl
  | cons first rest ih =>
    intro ledger k previous n port hn
    cases first with
    | none => exact ih (by omega)
    | some d => rw [filter_feeds_cons, filter_feeds_of_ne (by omega), ih (by omega), List.nil_append]

/-- The edges into a command are those of its drawing, with what is entered before it. -/
theorem filter_feeds_edges : ∀ (earlier : Plan)
    (previous port : String) {j : Nat} {d : Drawing}, plan[j]? = some (some d) →
    (plan.edges (inputLedger vs ++ earlier.ledger) earlier.length previous).filter
        (·.feeds (commandId (earlier.length + j)) port) =
      (d.edgesBy (latest? (inputLedger vs ++ Plan.ledger (earlier ++ plan.take j)))
        (earlier.length + j)).filter (·.feeds (commandId (earlier.length + j)) port) := by
  induction plan with
  | nil => exact fun _ _ _ _ _ hj => nomatch hj
  | cons first rest ih =>
    intro earlier previous port j d hj
    cases j with
    | zero =>
      cases hj
      rw [filter_feeds_cons, filter_feeds_eq_nil (by omega), List.append_nil, List.take_zero,
        List.append_nil, Nat.add_zero]
    | succ j =>
      have hlen : (earlier ++ [first]).length = earlier.length + 1 := by simp
      have hnumber : earlier.length + (j + 1) = (earlier ++ [first]).length + j := by omega
      rw [List.take_succ_cons, List.append_cons, hnumber]
      cases first with
      | none =>
        rw [Plan.edges, ← hlen, ← Plan.ledger_concat_none earlier]
        exact ih _ previous port hj
      | some d' =>
        rw [filter_feeds_cons, filter_feeds_of_ne (by omega), List.nil_append, ← hlen,
          List.append_assoc, ← Plan.ledger_concat_some]
        exact ih _ _ port hj

theorem links_edges : ∀ {ledger : List (Value × Producer)} {k : Nat}
    {previous : String},
    ((plan.edges ledger k previous).filter Edge.isFlow).map (fun e => (e.source, e.target)) =
      Flow.steps (previous :: ((plan.shown k).map commandId ++ [finishId])) := by
  induction plan with
  | nil => exact rfl
  | cons first rest ih =>
    intro ledger k previous
    cases first with
    | none => exact ih
    | some d =>
      rw [Plan.edges, List.filter_append, filter_isFlow_edgesBy, List.nil_append,
        List.filter_cons_of_pos (by rfl), List.map_cons, ih, Plan.shown, List.map_cons,
        List.cons_append, Flow.steps]
      rfl

/-! ## Decoded transactions -/

section

variable {source : SignatureSource} {t : Transaction} {vs : List Variable} {plan : Plan}
  {packed : List String} {d : Decoded} (h : Sketched source t vs plan packed d)
variable {k : Nat} {drawing : Drawing} {arg : TxArg} {c : TxCommand}

include h

theorem Sketched.id_var (n : Nat) (v : Variable) (hn : vs[n]? = some v) : v.id = inputId n := by
  rw [h.vars.id_eq hn, Nat.zero_add]

theorem Sketched.edges_eq : d.graph.edges = plan.edges (inputLedger vs) 0 startId := by
  rw [h.graph]
  exact (dropUnused_keeps _ _).1

theorem Sketched.nodes_sublist : d.graph.nodes.Sublist (markers ++ vs.map .var ++ plan.nodes 0) := by
  rw [h.graph]
  exact (dropUnused_keeps _ _).2.1

theorem Sketched.node?_touched {n : Node} {e : Edge} (he : e ∈ d.graph.edges)
    (hn : n ∈ markers ++ vs.map .var ++ plan.nodes 0) (htouches : e.touches n.id = true) :
    d.graph.node? n.id = some n := by
  rw [h.edges_eq] at he
  rw [h.graph]
  exact node?_dropUnused h.id_var h.plans.outlined packed hn (List.any_eq_true.mpr ⟨e, he, htouches⟩)

theorem Sketched.node?_shown (hk : plan[k]? = some (some drawing)) :
    d.graph.node? (commandId k) = some (.command (commandId k) drawing.command) := by
  rw [h.graph]
  exact node?_command h.id_var h.plans.outlined packed links_edges hk

theorem Sketched.command_of_node? {n : Node} (hn : d.graph.node? (commandId k) = some n) :
    ∃ drawing, plan[k]? = some (some drawing) := by
  have hid := Graph.id_of_node? hn
  have hmem := Graph.mem_of_node? hn
  rw [h.graph] at hmem
  have hname : n.id = (NodeName.command k).id := hid
  rcases List.mem_append.mp ((dropUnused_keeps _ _).2.1.subset hmem) with hmem | hmem
  · exfalso
    rcases List.mem_append.mp hmem with hmem | hmem
    · simp only [markers, List.mem_cons, List.not_mem_nil, or_false] at hmem
      rcases hmem with rfl | rfl | rfl
      · exact NodeName.noConfusion (NodeName.id_inj (a := .start) hname)
      · exact NodeName.noConfusion (NodeName.id_inj (a := .finish) hname)
      · exact NodeName.noConfusion (NodeName.id_inj (a := .gas) hname)
    · obtain ⟨v, hv, rfl⟩ := List.mem_map.mp hmem
      obtain ⟨i, hi⟩ := List.mem_iff_getElem?.mp hv
      have hinput : (NodeName.input i).id = (NodeName.command k).id :=
        (h.id_var i v hi).symm.trans hname
      exact NodeName.noConfusion (NodeName.id_inj hinput)
  · obtain ⟨names, hnames, hnumber⟩ := named_plan h.plans.outlined
    have hin : n.id ∈ names.map NodeName.id := hnames.1 ▸ List.mem_map_of_mem hmem
    obtain ⟨name, hmem, heq⟩ := List.mem_map.mp hin
    obtain ⟨j, drawing, hj, hdrawing⟩ := hnumber name hmem
    rw [NodeName.id_inj (heq.trans hname), Nat.zero_add] at hj
    cases hj
    exact ⟨drawing, hdrawing⟩

theorem Sketched.command?_eq (j : Nat) :
    (d.graph.node? (commandId j)).bind Node.command? = plan[j]?.join.map Drawing.command := by
  cases hdrawing : plan[j]?.join with
  | some drawing =>
    rw [h.node?_shown (Option.join_eq_some_iff.mp hdrawing)]
    rfl
  | none =>
    cases hnode : d.graph.node? (commandId j) with
    | none => rfl
    | some n =>
      obtain ⟨drawing, hsome⟩ := h.command_of_node? hnode
      rw [hsome] at hdrawing
      cases hdrawing

theorem Sketched.origin?_eq_some_iff {a : String × String} :
    t.origin? d.graph k arg = some a ↔
      ∃ p, Entry vs (plan.take k) (Value.ofArg arg) p ∧ a = (p.node, p.port) := by
  have houtput (j r : Nat) : d.graph.output? k j r = some a ↔
      ∃ p, Entry vs (plan.take k) (.output j r) p ∧ a = (p.node, p.port) := by
    unfold Graph.output?
    simp only [Entry, List.getElem?_take, Option.bind_eq_bind, ← Option.bind_assoc, h.command?_eq]
    split <;> simp only [Option.bind_eq_some_iff, Option.map_eq_some_iff, Option.join_eq_some_iff,
      producerOf] <;> grind
  cases arg with
  | gasCoin => simp [Transaction.origin?, Value.ofArg, Entry, varProducer, gasVar, @eq_comm _ a]
  | input j =>
    have hsource (v : Variable) (hv : vs[j.toNat]? = some v) :
        ((varProducer v).node, (varProducer v).port) = (inputId j.toNat, Port.variableOut) := by
      rw [varProducer, h.id_var _ v hv]
    rw [Transaction.origin?, ← h.vars.length_eq, Value.ofArg]
    constructor
    · intro horigin
      split at horigin
      case isTrue hlt =>
        have hv := List.getElem?_eq_getElem hlt
        exact ⟨_, ⟨_, hv, rfl⟩, by rw [hsource _ hv, Option.some.inj horigin]⟩
      case isFalse => cases horigin
    · rintro ⟨_, ⟨v, hv, rfl⟩, rfl⟩
      rw [if_pos (List.getElem?_eq_some_iff.mp hv).1, hsource v hv]
  | result j => exact houtput _ _
  | nested j r => exact houtput _ _

theorem Sketched.flowsAlong :
    d.graph.FlowsAlong startId finishId ((plan.shown 0).map commandId) := by
  rw [h.graph]
  exact flowsAlong_plan h.id_var h.plans.outlined packed links_edges

theorem Sketched.order_eq : d.graph.flow.order = t.supported.map commandId := by
  rw [h.flowsAlong.order_eq, h.plans.shown_eq]
  rfl

theorem Sketched.direct_finding (g : Diagnostic) (hg : g ∈ d.diagnostics) :
    (∀ arg, g.finding ≠ .noFreePort arg) ∧
      ∀ arg port wanted, g.finding ≠ .rerouted arg port wanted := by
  have hdirect := h.direct g hg
  constructor
  · rintro arg heq
    rw [heq] at hdirect
    cases hdirect
  · rintro arg port wanted heq
    rw [heq] at hdirect
    cases hdirect

theorem Sketched.exists_shape (hk : t.commands[k]? = some c) (hsupported : c.isSupported = true) :
    ∃ shape, d.graph.node? (commandId k) = some (.command (commandId k) shape) ∧
      c.kind? = some shape.kind ∧ ∀ n, c.outputCount? = some n → shape.outputPorts.length = n := by
  rcases h.plans.drawing_of_command hk with ⟨rfl, -⟩ | ⟨drawing, hdrawing, hdepicts⟩
  · cases hsupported
  · exact ⟨drawing.command, h.node?_shown hdrawing, kind_of_outlines hdepicts.outlines⟩

theorem Sketched.isSome_origin? (hk : t.commands[k]? = some c) (harg : arg ∈ c.args)
    (hrefers : t.RefersToCall k arg) : (t.origin? d.graph k arg).isSome = true := by
  obtain ⟨j, r, package, module, function, typeArgs, args, hj, hcall, harg'⟩ := hrefers
  have hin : arg ∈ (contextWith source t vs).args :=
    List.mem_flatMap.mpr ⟨c, List.mem_of_getElem? hk, harg⟩
  rcases h.plans.drawing_of_command hcall with ⟨hnone, -⟩ | ⟨drawing, hdrawing, hdepicts⟩
  · cases hnone
  rw [Nat.zero_add] at hdepicts
  -- an output with a number that the argument reaches is an output of the graph
  have hout {m : Nat} (hm : m < reach j arg) : (d.graph.output? k j.toNat m).isSome = true := by
    obtain ⟨port, hport⟩ := exists_result (UInt16.ofNat_toNat).symm hdepicts
      ⟨_, _, _, _, _, rfl⟩ hin hm
    simp [Graph.output?, hj, h.node?_shown hdrawing, Node.command?, hport]
  rcases harg' with rfl | ⟨rfl, hr⟩
  · exact hout (by simp [reach])
  · refine hout ?_
    simp only [reach, if_true]
    omega

theorem Sketched.filter_feeds (port : String) (hdrawing : plan[k]? = some (some drawing)) :
    d.graph.edges.filter (·.feeds (commandId k) port) =
      (drawing.edgesBy (latest? (inputLedger vs ++ Plan.ledger (plan.take k))) k).filter
        (·.feeds (commandId k) port) := by
  have hedges : (plan.edges (inputLedger vs ++ Plan.ledger []) 0 startId).filter _ = _ :=
    filter_feeds_edges [] startId port hdrawing
  rw [List.length_nil, Nat.zero_add, List.nil_append, Plan.ledger_nil, List.append_nil] at hedges
  rw [h.edges_eq, hedges]

/-- The port of a slot is fed by what is entered for its argument before the command. -/
theorem Sketched.feeders_slot {slot : ArgSlot} (hdrawing : plan[k]? = some (some drawing))
    (hdepicts : Depicts (contextWith source t vs) k c drawing) (hslot : slot ∈ drawing.slots) :
    d.graph.feeders (commandId k) slot.port =
      ((latest? (inputLedger vs ++ Plan.ledger (plan.take k)) slot.arg).map
        fun p => (p.node, p.port)).toList := by
  rw [Graph.feeders, h.filter_feeds slot.port hdrawing,
    filter_feeds_edgesBy (nodup_ports hdepicts.outlines) hslot]
  obtain ⟨port, hport⟩ := find?_of_mem_map (subset_inputPorts hdepicts (List.mem_map_of_mem hslot))
  cases hlatest : latest? (inputLedger vs ++ Plan.ledger (plan.take k)) slot.arg with
  | none => simp [edgeBy?, hlatest]
  | some producer =>
    simp only [edgeBy?, hlatest, hport, Option.bind_eq_bind, Option.bind_some, Option.map_some]
    rfl

/-- An argument of a command comes from what is entered for it before the command. -/
theorem Sketched.feeders_eq {i : Nat} (hk : t.commands[k]? = some c)
    (hsupported : c.isSupported = true) (hnested : c.isNested = false)
    (harg : c.args[i]? = some arg) :
    ∃ port, c.argPorts[i]? = some port ∧ d.graph.feeders (commandId k) port =
      ((latest? (inputLedger vs ++ Plan.ledger (plan.take k)) arg).map
        fun p => (p.node, p.port)).toList := by
  rcases h.plans.drawing_of_command hk with ⟨rfl, -⟩ | ⟨drawing, hdrawing, hdepicts⟩
  · cases hsupported
  rw [Nat.zero_add] at hdepicts
  rw [← map_arg_ofCommand, List.getElem?_map, Option.map_eq_some_iff] at harg
  obtain ⟨slot, hslot, rfl⟩ := harg
  have hmem : slot ∈ drawing.slots := by
    rw [slots_of_outlines hdepicts.outlines hnested]
    exact List.mem_of_getElem? hslot
  refine ⟨slot.port, by rw [← map_port_ofCommand, List.getElem?_map, hslot]; rfl, ?_⟩
  exact h.feeders_slot hdrawing hdepicts hmem

/-- Within the limits that is the port of the value that the argument means. -/
theorem Sketched.latest?_eq (hinputs : t.inputs.length ≤ Limited.limit)
    (hcommands : t.commands.length ≤ Limited.limit)
    (houtputs : ∀ id c, .command id c ∈ d.graph.nodes → c.outputPorts.length ≤ Limited.limit)
    (k : Nat) (arg : TxArg) :
    (latest? (inputLedger vs ++ Plan.ledger (plan.take k)) arg).map (fun p => (p.node, p.port)) =
      t.origin? d.graph k arg := by
  have hfew : Plan.FewOutputs (plan.take k) := by
    intro drawing hmem
    obtain ⟨j, hj⟩ := List.mem_iff_getElem?.mp (List.mem_of_mem_take hmem)
    exact houtputs _ _ (Graph.mem_of_node? (h.node?_shown hj))
  rw [← latest?_map]
  refine latest?_eq_of_forall (fun a => ?_) fun x hx hanswers => ?_
  · rw [h.origin?_eq_some_iff, List.mem_map]
    simp [← mem_ledger_iff, @eq_comm _ a]
  · obtain ⟨y, hy, rfl⟩ := List.mem_map.mp hx
    refine Value.eq_ofArg_of_low (Entry.low ?_ ?_ hfew (mem_ledger_iff.mp hy)) hanswers
    · rwa [h.vars.length_eq]
    · rw [List.length_take, h.plans.length_eq]
      omega

end

end Decoding

/-- **Decoding is faithful.** A transaction with at most as many inputs, commands and outputs of each
command as indices can name is decoded, whatever the signatures are, unless an address in it cannot be
cut to length. The graph runs the supported commands in their order. Every argument of a supported
command has its own port, fed by the port that produces the argument and by nothing else; it is left
open if the argument refers to nothing that exists before the command. -/
theorem Decoded.faithful_of_ofTransaction (source : Decoding.SignatureSource) (t : Transaction)
    (hinputs : t.inputs.length ≤ Limited.limit) (hcommands : t.commands.length ≤ Limited.limit) :
    (∀ cause, Decoded.ofTransaction source t = .error cause → Decoding.Uncuts source t cause) ∧
    ∀ d, Decoded.ofTransaction source t = .ok d →
      (∀ id c, .command id c ∈ d.graph.nodes → c.outputPorts.length ≤ Limited.limit) →
      d.Faithful t := by
  have hends := Decoding.ofTransaction_sketched source t
  refine ⟨fun cause herror => ?_, fun d hd houtputs => ?_⟩
  · rw [herror] at hends
    exact hends.of_error
  · rw [hd] at hends
    obtain ⟨vs, plan, packed, h⟩ := hends.of_ok
    refine ⟨h.order_eq, fun _ _ => h.exists_shape, fun k c i arg hk hsupported hnested harg => ?_,
      fun _ _ _ => h.isSome_origin?, h.direct_finding⟩
    obtain ⟨port, hport, hfeeders⟩ := h.feeders_eq hk hsupported hnested harg
    exact ⟨port, hport, hfeeders.trans (h.latest?_eq hinputs hcommands houtputs k arg ▸ rfl)⟩

/-- A transaction whose arguments refer to inputs and results that are there and to some that are not:
past the end, of an unsupported command, and of a later one. -/
def strays : Transaction where
  sender := none
  gasBudget := none
  inputs := [.pure (some "u64") [5, 0, 0, 0, 0, 0, 0, 0], .object "0x6"]
  commands := [.splitCoins .gasCoin [.input 0], .unsupported,
    .moveCall "0xa" "pool" "deposit" ["0x2::sui::SUI"] [.nested 0 0, .input 1, .input 7, .nested 0 1],
    .transferObjects [.result 2, .nested 2 3, .result 1, .result 4] (.input 1),
    .mergeCoins .gasCoin []]

theorem Decoded.faithful_of_ofTransaction_strays :
    ∃ d, Decoded.ofTransaction (fun id => .error (.noPackage id)) strays = .ok d ∧
      d.Faithful strays ∧ d.graph.flow.order = ["cmd_0", "cmd_2", "cmd_3", "cmd_4"] := by
  obtain ⟨herror, hok⟩ := Decoded.faithful_of_ofTransaction (fun id => .error (.noPackage id))
    strays (by decide) (by decide)
  have hfew : (Decoded.ofTransaction (fun id => .error (.noPackage id)) strays).map
      (fun d => d.graph.nodes.all fun n =>
        n.command?.all fun c => decide (c.outputPorts.length ≤ Limited.limit)) = .ok true := by
    decide +kernel
  cases hd : Decoded.ofTransaction (fun id => .error (.noPackage id)) strays with
  | error cause =>
    rw [hd] at hfew
    cases hfew
  | ok d =>
    rw [hd] at hfew
    have hfaithful := hok d hd fun id c hc => by
      have hall := List.all_eq_true.mp (Except.ok.inj hfew) _ hc
      simpa [Node.command?] using hall
    exact ⟨d, rfl, hfaithful, hfaithful.order.trans (by decide +kernel)⟩

end TxGraph
