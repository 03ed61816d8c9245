import TxGraph.Proofs.Decoding.Fidelity
import TxGraph.Proofs.Graph.Issue

/-!
# Structure of decoded graphs

Whatever a transaction refers to, the graph that is drawn for it is right in all but types. Every
producer that is entered is an output port of a node that is drawn, so every edge joins two ports;
edges into a command take ports of their own, and the flow is a path. Dropping packed inputs touches
no edge.
-/

namespace TxGraph

theorem DataType.castInto?_self : (type : DataType) → type.castInto? type = none
  | .vector elem => castInto?_self elem
  | .scalar kind => by cases kind <;> rfl
  | .integer _ | .object _ | .tuple _ | .typeParam _ | .unknown => rfl

namespace Decoding

/-! ## Ids -/

theorem NodeName.arrowless (name : NodeName) : Arrowless name.id := by
  have hdigits (n : Nat) : '-' ∉ Nat.toDigits 10 n := fun h =>
    absurd (Text.isDigit_of_mem_repr (Nat.toList_repr ▸ h)) (by decide)
  have hdash : '-' ∉ name.id.toList := by
    cases name with
    | start => decide
    | finish => decide
    | gas => decide
    | _ => simp [NodeName.id, inputId, commandId, hdigits]
  exact fun harrow => hdash (harrow.subset (by decide))

/-! ## Producers -/

def IsOutput (nodes : List Node) (p : Producer) : Prop :=
  ∃ n ∈ nodes, n.id = p.node ∧
    ∃ port ∈ n.ports, port.isIoOut = true ∧ port.id = p.port ∧ port.typeOrUnknown = p.type

def Sourced (nodes : List Node) (ledger : List (Value × Producer)) : Prop :=
  ∀ x ∈ ledger, IsOutput nodes x.2

theorem isOutput_varProducer {nodes : List Node} {v : Variable} (h : .var v ∈ nodes) :
    IsOutput nodes (varProducer v) :=
  ⟨_, h, rfl, _, List.mem_singleton_self _, rfl, rfl, rfl⟩

theorem Sourced.outputs {nodes : List Node} {ledger : List (Value × Producer)} {k : Nat} {d : Drawing}
    (h : Sourced nodes ledger) (hnode : .command (commandId k) d.command ∈ nodes) :
    Sourced nodes (ledger ++ d.outputs k) := by
  refine List.forall_mem_append.mpr ⟨h, fun x hx => ?_⟩
  obtain ⟨m, port, hport, rfl⟩ := Drawing.mem_outputs.mp hx
  have hmem := List.mem_of_getElem? hport
  refine ⟨_, hnode, rfl, port, ?_, (Command.among_of_mem_outputPorts port hmem).1, rfl, rfl⟩
  exact List.mem_cons_of_mem _ (List.mem_cons_of_mem _ (List.mem_append_right _ hmem))

theorem sourced_inputLedger (vs : List Variable) (rest : List Node) :
    Sourced (markers ++ vs.map .var ++ rest) (inputLedger vs) := by
  intro x hx
  rcases mem_inputLedger.mp hx with rfl | ⟨n, v, hv, rfl⟩
  all_goals refine isOutput_varProducer (List.mem_append_left _ ?_)
  · exact List.mem_append_left _ (by simp [markers])
  · exact List.mem_append_right _ (List.mem_map_of_mem (List.mem_of_getElem? hv))

/-! ## Edges join ports -/

/-- The edge joins ports of two of the nodes, as far as roles and narrowing go. -/
def Wired (nodes : List Node) (e : Edge) : Prop :=
  ∃ m ∈ nodes, ∃ n ∈ nodes, m.id = e.source ∧ n.id = e.target ∧
    ∃ p ∈ m.ports, ∃ q ∈ n.ports, p.id = e.sourceHandle ∧ q.id = e.targetHandle ∧
      Port.checkRoles e.role p q = .ok () ∧
      ∀ cast, e.kind = .io cast → cast = p.typeOrUnknown.castInto? q.typeOrUnknown

section

variable {nodes : List Node}

theorem flowIn_mem_ports (id : String) (c : Command) : .flowIn ∈ (Node.command id c).ports :=
  List.mem_cons_self

theorem flowOut_mem_ports (id : String) (c : Command) : .flowOut ∈ (Node.command id c).ports :=
  List.mem_cons_of_mem _ List.mem_cons_self

theorem wired_flow {m n : Node} {target : String} (hm : m ∈ nodes) (hout : .flowOut ∈ m.ports)
    (hn : n ∈ nodes) (hin : .flowIn ∈ n.ports) (htarget : n.id = target) :
    Wired nodes (.flow m.id target) :=
  ⟨m, hm, n, hn, rfl, htarget, _, hout, _, hin, rfl, rfl, rfl, fun _ h => nomatch h⟩

theorem wired_io {p : Producer} {node : String} {c : Command} {q : Port} (hp : IsOutput nodes p)
    (hnode : .command node c ∈ nodes) (hq : q ∈ c.inputPorts) :
    Wired nodes (.io p.node p.port node q.id (p.type.castInto? q.typeOrUnknown)) := by
  obtain ⟨m, hm, hid, port, hport, hio, hhandle, htype⟩ := hp
  refine ⟨m, hm, _, hnode, hid, rfl, port, hport, q, ?_, hhandle, rfl, ?_, fun cast hcast => ?_⟩
  · exact List.mem_cons_of_mem _ (List.mem_cons_of_mem _ (List.mem_append_left _ hq))
  · have hin := (Command.among_of_mem_inputPorts q hq).1
    simp only [Port.isIoOut, Port.isIoIn, Bool.and_eq_true, decide_eq_true_eq] at hio hin
    exact Graph.checkRoles_eq_ok.mpr ⟨⟨hio.1, hin.1⟩, hio.2, hin.2⟩
  · cases hcast
    rw [htype]

variable {c : Context} {k : Nat} {command : TxCommand} {d : Drawing}

theorem port_of_mem_feeds (h : Depicts c k command d) {f : Variable × String} (hf : f ∈ d.feeds) :
    ∃ q ∈ d.command.inputPorts, q.id = f.2 ∧ q.typeOrUnknown = f.1.type := by
  have hroomy := h.roomy
  have houtlines := h.outlines
  cases command with
  | unsupported => cases houtlines
  | moveCall =>
    obtain ⟨call, rfl⟩ := houtlines
    obtain ⟨i, hi⟩ := List.mem_iff_getElem?.mp hf
    simp only [drawCall, List.getElem?_mapIdx, Option.map_eq_some_iff] at hi
    obtain ⟨arg, harg, rfl⟩ := hi
    have hlt : i < call.typeParams.length :=
      Nat.lt_of_lt_of_le (List.getElem?_eq_some_iff.mp harg).1 hroomy.1
    refine ⟨_, List.mem_append_left _ (List.mem_map.mpr ⟨(call.typeParams[i], i), ?_, rfl⟩), rfl, rfl⟩
    exact List.mem_iff_getElem?.mpr ⟨i, by simp [hlt]⟩
  | makeMoveVec elem elems =>
    cases houtlines
    unfold drawVector at hf ⊢
    split at hf
    case isTrue hvector =>
      split at hf
      · cases List.mem_singleton.mp hf
        refine ⟨Port.ioIn Command.elemsIn (.vector (elem.elim .anyObject DataType.ofMove)), ?_, rfl, rfl⟩
        simp [hvector, Command.inputPorts, Command.groupPorts, Command.isExpanded]
      · cases hf
    case isFalse => cases hf
  | _ =>
    cases houtlines
    cases hf

theorem wired_edgesBy {ledger : List (Value × Producer)} (h : Depicts c k command d)
    (hnodes : d.nodes k ⊆ nodes) (hledger : Sourced nodes ledger) :
    ∀ e ∈ d.edgesBy (latest? ledger) k, Wired nodes e := by
  intro e he
  have hcommand : .command (commandId k) d.command ∈ nodes :=
    hnodes (List.mem_append_right _ List.mem_cons_self)
  rcases (edge_of_mem he).2.2 with ⟨f, hf, rfl⟩ | ⟨slot, -, hslot⟩
  · obtain ⟨q, hq, hid, htype⟩ := port_of_mem_feeds h hf
    have hvar : .var f.1 ∈ nodes := hnodes (List.mem_append_left _ (List.mem_map.mpr ⟨f, hf, rfl⟩))
    have hwired := wired_io (isOutput_varProducer hvar) hcommand hq
    rwa [hid, htype, varProducer, DataType.castInto?_self] at hwired
  · simp only [edgeBy?, Option.bind_eq_bind, Option.bind_eq_some_iff] at hslot
    obtain ⟨producer, hproducer, port, hport, he⟩ := hslot
    cases he
    obtain ⟨v, hv, -⟩ := exists_of_latest? hproducer
    exact wired_io (hledger _ hv) hcommand (List.mem_of_find?_eq_some hport)

/-- **The edges of a plan join ports**, if only output ports are entered and the flow comes from a node
that has a way out. -/
theorem wired_edges {commands : List TxCommand} {plan : Plan} (h : Plans c k commands plan)
    (hfinish : .finish finishId ∈ nodes) : ∀ {ledger : List (Value × Producer)} {previous : Node},
    plan.nodes k ⊆ nodes → Sourced nodes ledger → previous ∈ nodes → .flowOut ∈ previous.ports →
    ∀ e ∈ plan.edges ledger k previous.id, Wired nodes e := by
  induction h with
  | nil k =>
    intro ledger previous _ _ hprevious hout
    refine List.forall_mem_singleton.mpr ?_
    exact wired_flow hprevious hout hfinish (List.mem_singleton_self _) rfl
  | skip tail ih => exact ih
  | @cons k command d commands plan head tail ih =>
    intro ledger previous hnodes hledger hprevious hout
    obtain ⟨hown, hrest⟩ := List.append_subset.mp hnodes
    have hcommand : .command (commandId k) d.command ∈ nodes :=
      hown (List.mem_append_right _ List.mem_cons_self)
    refine List.forall_mem_append.mpr ⟨wired_edgesBy head hown hledger,
      List.forall_mem_cons.mpr ⟨?_, ?_⟩⟩
    · exact wired_flow hprevious hout hcommand (flowIn_mem_ports _ _) rfl
    · exact ih hrest (hledger.outputs hcommand) hcommand (flowOut_mem_ports _ _)

end

/-! ## Edges share no port -/

section

variable {c : Context} {k : Nat} {commands : List TxCommand} {plan : Plan}
  {ledger : List (Value × Producer)} {previous : String}

theorem formed_edges : ∀ {ledger : List (Value × Producer)} {k : Nat} {previous : String},
    ∀ e ∈ plan.edges ledger k previous, e.Formed := by
  induction plan with
  | nil => exact List.forall_mem_singleton.mpr (.flow _ _)
  | cons first rest ih =>
    intro ledger k previous
    cases first with
    | none => exact ih
    | some d =>
      refine List.forall_mem_append.mpr ⟨fun e he => ?_, List.forall_mem_cons.mpr ⟨.flow _ _, ih⟩⟩
      rcases (edge_of_mem he).2.2 with ⟨f, -, rfl⟩ | ⟨slot, -, hslot⟩
      · exact .io _ _ _ _ _
      · simp only [edgeBy?, Option.bind_eq_bind, Option.bind_eq_some_iff] at hslot
        obtain ⟨producer, -, port, -, he⟩ := hslot
        cases he
        exact .io _ _ _ _ _

theorem target_of_mem_edges : ∀ {ledger : List (Value × Producer)} {k : Nat} {previous : String}
    {e : Edge}, e ∈ plan.edges ledger k previous → e.isIo = true →
      ∃ j, k ≤ j ∧ e.target = commandId j := by
  induction plan with
  | nil =>
    intro ledger k previous e he hio
    cases List.mem_singleton.mp he
    cases hio
  | cons first rest ih =>
    intro ledger k previous e he hio
    have hlater {ledger : List (Value × Producer)} {previous : String}
        (he : e ∈ Plan.edges ledger (k + 1) previous rest) : ∃ j, k ≤ j ∧ e.target = commandId j := by
      obtain ⟨j, hj, htarget⟩ := ih he hio
      exact ⟨j, by omega, htarget⟩
    cases first with
    | none => exact hlater he
    | some d =>
      rcases List.mem_append.mp he with he | he
      · exact ⟨k, Nat.le_refl k, (edge_of_mem he).2.1⟩
      · rcases List.mem_cons.mp he with rfl | he
        · cases hio
        · exact hlater he

theorem nodup_targets (h : Plans c k commands plan) : ∀ {ledger : List (Value × Producer)}
    {previous : String}, (((plan.edges ledger k previous).filter Edge.isIo).map
      fun e => (e.target, e.targetHandle)).Nodup := by
  induction h with
  | nil k => exact List.nodup_nil
  | skip tail ih => exact ih
  | @cons k command d commands plan head tail ih =>
    intro ledger previous
    rw [Plan.edges, List.filter_append, List.filter_cons_of_neg (by exact Bool.false_ne_true),
      List.map_append]
    refine List.nodup_append.mpr ⟨?_, ih, ?_⟩
    · have hhandles : ((d.edgesBy (latest? ledger) k).map Edge.targetHandle).Nodup :=
        nodup_targetHandle (nodup_ports head.outlines)
      refine List.Nodup.of_map Prod.snd ?_
      rw [List.map_map]
      exact hhandles.sublist (List.filter_sublist.map _)
    · rintro _ ha _ hb rfl
      obtain ⟨e, he, rfl⟩ := List.mem_map.mp ha
      obtain ⟨f, hf, heq⟩ := List.mem_map.mp hb
      obtain ⟨j, hj, htarget⟩ := target_of_mem_edges (List.mem_of_mem_filter hf) (List.of_mem_filter hf)
      have hsame : commandId j = commandId k := by
        rw [← htarget, ← (edge_of_mem (List.mem_of_mem_filter he)).2.1]
        exact (Prod.mk.inj heq).1
      have := commandId_inj hsame
      omega

/-- **The edges of a plan share no input and no flow port.** -/
theorem apart_edges (h : Plans c 0 commands plan) :
    (plan.edges ledger 0 startId).Pairwise Edge.Apart := by
  have hpath : (path (plan.shown 0)).Nodup := nodup_path Plan.nodup_shown
  have hlinks : ((plan.edges ledger 0 startId).filter Edge.isFlow).map
      (fun e => (e.source, e.target)) = Flow.steps (path (plan.shown 0)) := links_edges
  have hsources : (((plan.edges ledger 0 startId).filter Edge.isFlow).map Edge.source).Nodup := by
    have hfirst := congrArg (List.map Prod.fst) hlinks
    rw [List.map_map, Flow.map_fst_steps] at hfirst
    exact hfirst ▸ hpath.sublist (List.dropLast_sublist _)
  have htargets : (((plan.edges ledger 0 startId).filter Edge.isFlow).map Edge.target).Nodup := by
    have hsecond := congrArg (List.map Prod.snd) hlinks
    rw [List.map_map, Flow.map_snd_steps] at hsecond
    exact hsecond ▸ hpath.sublist (List.tail_sublist _)
  have hports : (((plan.edges ledger 0 startId).filter Edge.isIo).map
      fun e => (e.target, e.targetHandle)).Nodup := nodup_targets h
  have hio := List.pairwise_filter.mp (List.pairwise_map.mp hports)
  have hsource := List.pairwise_filter.mp (List.pairwise_map.mp hsources)
  have htarget := List.pairwise_filter.mp (List.pairwise_map.mp htargets)
  refine hio.imp₂ ?_ (hsource.imp₂ (fun _ _ h₁ h₂ => And.intro h₁ h₂) htarget)
  intro e f hio hflow
  exact ⟨hio, fun he hf => ⟨hflow.1 he hf, hflow.2 he hf⟩⟩

end

/-! ## Decoded transactions -/

section

variable {source : SignatureSource} {t : Transaction} {vs : List Variable} {plan : Plan}
  {packed : List String} {d : Decoded} (h : Sketched source t vs plan packed d)

include h

theorem Sketched.drawn : d.graph.Drawn where
  distinct := (nodup_plan h.id_var h.plans.outlined).sublist (h.nodes_sublist.map _)
  arrowless id hid := by
    obtain ⟨names, hnames, -⟩ := named_graph h.id_var h.plans.outlined
    have hmem := (h.nodes_sublist.map Node.id).subset hid
    rw [hnames] at hmem
    obtain ⟨name, -, rfl⟩ := List.mem_map.mp hmem
    exact name.arrowless
  formed := by
    rw [h.edges_eq]
    exact formed_edges
  apart := by
    rw [h.edges_eq]
    exact apart_edges h.plans

theorem Sketched.attaches : ∀ e ∈ d.graph.edges, d.graph.Attaches e := by
  intro e he
  have hmarkers : ∀ n ∈ markers, n ∈ markers ++ vs.map .var ++ plan.nodes 0 :=
    fun n hn => List.mem_append_left _ (List.mem_append_left _ hn)
  have hstart : .start startId ∈ markers ++ vs.map .var ++ plan.nodes 0 :=
    hmarkers _ (by simp [markers])
  have hwired := wired_edges h.plans (hmarkers _ (by simp [markers])) (List.subset_append_right _ _)
    (sourced_inputLedger _ _) hstart (List.mem_singleton_self _) e (h.edges_eq ▸ he)
  obtain ⟨m, hm, n, hn, hsource, htarget, p, hp, q, hq, hhandle, hhandle', hroles, hcast⟩ := hwired
  have hm' := h.node?_touched he hm (by simp [Edge.touches, hsource])
  have hn' := h.node?_touched he hn (by simp [Edge.touches, htarget])
  refine ⟨p, q, ⟨?_, ?_, hroles⟩, hcast⟩
  · rw [← hsource, ← hhandle]
    exact Graph.resolvePort_eq_ok.mpr ⟨m, hm', Node.port?_of_mem hp⟩
  · rw [← htarget, ← hhandle']
    exact Graph.resolvePort_eq_ok.mpr ⟨n, hn', Node.port?_of_mem hq⟩

/-- A marker that is on the path of the flow is there once. -/
theorem Sketched.countP_marker {isMarker : Node → Bool} {n : Node}
    (hvar : ∀ v, isMarker (.var v) = false) (hcommand : ∀ id c, isMarker (.command id c) = false)
    (hone : markers.countP isMarker = 1) (hn : n ∈ markers) (hmarker : isMarker n = true)
    (hpath : n.id ∈ path (plan.shown 0)) : d.graph.nodes.countP isMarker = 1 := by
  have hall : (markers ++ vs.map Node.var ++ plan.nodes 0).countP isMarker = 1 := by
    have hvs : (vs.map Node.var).countP isMarker = 0 := by simp [List.countP_eq_zero, hvar]
    have hplan : (plan.nodes 0).countP isMarker = 0 := by
      refine List.countP_eq_zero.mpr fun m hm => ?_
      obtain ⟨j, drawing, -, hm⟩ := Plan.mem_nodes.mp hm
      rcases mem_drawing hm with ⟨f, -, rfl⟩ | rfl <;> simp [hvar, hcommand]
    rw [List.countP_append, List.countP_append, hone, hvs, hplan]
  have hlinks : Graph.links ⟨markers ++ vs.map .var ++ plan.nodes 0,
      plan.edges (inputLedger vs) 0 startId⟩ = Flow.steps (path (plan.shown 0)) := links_edges
  have hkept : n ∈ d.graph.nodes := by
    rw [h.graph]
    exact (dropUnused_keeps _ _).2.2 n (List.mem_append_left _ (List.mem_append_left _ hn))
      (touched_of_path hlinks hpath)
  have hle := h.nodes_sublist.countP_le (p := isMarker)
  have hpos := List.countP_pos_iff.mpr ⟨n, hkept, hmarker⟩
  omega

theorem Sketched.countP_isStart : d.graph.nodes.countP Node.isStart = 1 :=
  h.countP_marker (n := .start startId) (fun _ => rfl) (fun _ _ => rfl) rfl (by simp [markers]) rfl
    List.mem_cons_self

theorem Sketched.countP_isFinish : d.graph.nodes.countP Node.isFinish = 1 :=
  h.countP_marker (n := .finish finishId) (fun _ => rfl) (fun _ _ => rfl) rfl (by simp [markers]) rfl
    (by simp [path, Node.id])

end

end Decoding

/-- **The structure of a decoded graph is right.** Whatever a transaction refers to and however long
it is, nodes and edges of its graph have ids of their own, there is one start and one end, every edge
joins two ports that are there, with the narrowing that their types ask for, and no input and no flow
port holds two edges. So an issue of the graph is that a value is of a type that cannot flow into the
port that it is for. Decoding gives a graph, unless an address cannot be cut to length. -/
theorem Decoded.structured_of_ofTransaction (source : Decoding.SignatureSource) (t : Transaction) :
    (∀ cause, Decoded.ofTransaction source t = .error cause → Decoding.Uncuts source t cause) ∧
    ∀ d, Decoded.ofTransaction source t = .ok d → d.graph.Structured ∧
      (∀ i, i ∈ d.graph.issues ↔ d.graph.Mismatch i) ∧
      ∀ i ∈ d.graph.issues, ∃ sourceType targetType : DataType,
        i.message =
          "Type " ++ sourceType.display ++ " cannot flow into " ++ targetType.display := by
  have hends := Decoding.ofTransaction_sketched source t
  refine ⟨fun cause herror => ?_, fun d hd => ?_⟩
  · rw [herror] at hends
    exact hends.of_error
  · rw [hd] at hends
    obtain ⟨vs, plan, packed, h⟩ := hends.of_ok
    have hissues (i : Issue) : i ∈ d.graph.issues ↔ d.graph.Mismatch i :=
      h.drawn.mem_issues h.countP_isStart h.countP_isFinish h.attaches
    refine ⟨h.drawn.structured h.countP_isStart h.countP_isFinish h.attaches, hissues, fun i hi => ?_⟩
    obtain ⟨e, -, -, p, q, -, -, rfl⟩ := (hissues i).mp hi
    exact ⟨p.typeOrUnknown, q.typeOrUnknown, rfl⟩

/-- A transaction with values of wrong types, with two inputs that become one literal, and with
arguments that refer to nothing. -/
def misuse : Transaction where
  sender := none
  gasBudget := none
  inputs := [.pure (some "u64") [5, 0, 0, 0, 0, 0, 0, 0], .object "0x6",
    .pure (some "vector<u8>") [1, 1], .pure (some "vector<u8>") [1, 2]]
  commands := [.makeMoveVec (some "vector<u8>") [.input 2, .input 3], .unsupported,
    .transferObjects [.input 1, .nested 0 3, .result 1] (.input 1),
    .splitCoins (.input 0) [.input 9, .result 0]]

theorem Decoded.structured_of_ofTransaction_misuse :
    (Decoded.ofTransaction (fun id => .error (.noPackage id)) misuse).map
      (fun d => (d.graph.issues.map Issue.display, d.graph.nodes.map Node.id)) = .ok
        (["edge 'input_1:out->cmd_2:in_recipient': Type object cannot flow into address",
          "edge 'input_0:out->cmd_3:in_coin': Type u64 cannot flow into object",
          "edge 'cmd_0:out_vector->cmd_3:in_amount_1': Type vector<vector<u8>> cannot flow into u64"],
        ["start", "end", "gas", "input_0", "input_1", "cmd_0_elems", "cmd_0", "cmd_2", "cmd_3"]) ∧
      ∃ d, Decoded.ofTransaction (fun id => .error (.noPackage id)) misuse = .ok d ∧
        d.graph.Structured ∧ ∀ i, i ∈ d.graph.issues ↔ d.graph.Mismatch i := by
  have hok := (Decoded.structured_of_ofTransaction (fun id => .error (.noPackage id)) misuse).2
  have hsome : (Decoded.ofTransaction (fun id => .error (.noPackage id)) misuse).toOption.isSome :=
    by decide +kernel
  refine ⟨by decide +kernel, ?_⟩
  cases hd : Decoded.ofTransaction (fun id => .error (.noPackage id)) misuse with
  | error cause =>
    rw [hd] at hsome
    cases hsome
  | ok d => exact ⟨d, rfl, (hok d hd).1, (hok d hd).2.1⟩

end TxGraph
