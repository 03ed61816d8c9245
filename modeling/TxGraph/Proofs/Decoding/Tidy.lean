import Mathlib.Data.Set.List
import TxGraph.Proofs.Decoding.Fidelity

/-!
# Tidy transactions are shown

Every command of a tidy transaction has a drawing, and the decoded graph shows it (`exists_shown`), if
the source has the same for all spellings of a package. A call has an output for each result that is
used, whether its signature is known or not.
-/

namespace TxGraph.Decoding

variable {c : Context} {k : Nat} {command : TxCommand} {d : Drawing}
variable {t : Transaction}

theorem depicts_of_draw? (h : draw? c k command = some d) : Depicts c k command d := by
  refine ⟨outlines_of_draw? h, ?_⟩
  cases command with
  | moveCall package module function typeArgs args =>
    cases h
    exact ⟨package, .inl rfl, by rw [shownCall, callOf_eq]⟩
  | _ => trivial

theorem resultCount_lt (h : command.Formed) : command.resultCount < Limited.limit := by
  cases command with
  | splitCoins => exact h.2
  | _ =>
    simp only [TxCommand.resultCount]
    decide

theorem resultCount_of_single (h : command.isSingle = true) : command.resultCount = 1 := by
  cases command <;> first | rfl | cases h

theorem length_outputPorts (h : draw? c k command = some d) (hformed : command.Formed)
    (hcall : ∀ package module function typeArgs args,
      command ≠ .moveCall package module function typeArgs args) :
    d.command.outputPorts.length = command.resultCount := by
  cases command with
  | unsupported => cases h
  | splitCoins =>
    cases h
    have := List.length_pos_iff.mpr hformed.1
    simp only [Command.outputPorts, Command.numbered, List.length_map, List.length_zipIdx,
      List.length_replicate, TxCommand.resultCount]
    omega
  | makeMoveVec elem elems =>
    cases h
    unfold drawVector
    split
    · split <;> rfl
    · rfl
  | moveCall => exact absurd rfl (hcall _ _ _ _ _)
  | _ =>
    cases h
    rfl

theorem exists_outputPort (h : draw? c k command = some d) (hformed : command.Formed) {m : Nat}
    (hm : m < command.resultCount) (hused : command.resultAt k m ∈ c.args) :
    ∃ port, d.command.outputPorts[m]? = some port := by
  by_cases hcall : ∃ package module function typeArgs args,
      command = .moveCall package module function typeArgs args
  · have hreach : m < reach (UInt16.ofNat k) (command.resultAt k m) := by
      obtain ⟨package, module, function, typeArgs, args, rfl⟩ := hcall
      change m < Limited.limit - 1 at hm
      have hlimit : Limited.limit = Word.max16 + 1 := rfl
      simp only [TxCommand.resultAt, TxCommand.isSingle, Bool.false_eq_true, if_false, reach, if_true,
        toNat_index (show m < Limited.limit by omega)]
      omega
    exact exists_result rfl (depicts_of_draw? h) hcall hused hreach
  · have hcount := length_outputPorts h hformed fun package module function typeArgs args heq =>
      hcall ⟨package, module, function, typeArgs, args, heq⟩
    exact ⟨_, List.getElem?_eq_getElem (hcount ▸ hm)⟩

/-- Outputs have numbers. -/
theorem length_outputPorts_lt (h : draw? c k command = some d) (hformed : command.Formed)
    {agrees : List ParamKind → List ParamKind → Prop} {kinds : List ParamKind}
    (htakes : command.Takes (.shownBy c.source agrees) kinds) :
    d.command.outputPorts.length < Limited.limit := by
  cases command with
  | moveCall =>
    cases h
    obtain ⟨-, -, hreturns, -⟩ := htakes
    have := arity_lt c (UInt16.ofNat k)
    simp only [drawCall, shownCall, widen, padTypes, Command.outputPorts, Command.numbered,
      List.length_map, List.length_zipIdx, List.length_append, List.length_replicate]
    omega
  | _ =>
    rw [length_outputPorts h hformed fun _ _ _ _ _ => TxCommand.noConfusion]
    exact resultCount_lt hformed

theorem origin?_resultAt (t : Transaction) (g : Graph) {j m : Nat} (hj : j < Limited.limit)
    (hm : m < command.resultCount) (hfew : m < Limited.limit) :
    t.origin? g k (command.resultAt j m) = g.output? k j m := by
  unfold TxCommand.resultAt
  split
  case isTrue hsingle =>
    rw [resultCount_of_single hsingle, Nat.lt_one_iff] at hm
    rw [Transaction.origin?, toNat_index hj, hm]
  case isFalse => rw [Transaction.origin?, toNat_index hj, toNat_index hfew]

/-! ## What a graph shows -/

def DrawnAs (c : Context) (commands : List TxCommand) (ds : List Drawing) : Prop :=
  ds.length = commands.length ∧
    ∀ k command, commands[k]? = some command → ∃ d, ds[k]? = some d ∧ draw? c k command = some d

structure Shows (t : Transaction) (ds : List Drawing) (g : Graph) : Prop where
  flow : g.FlowsAlong startId finishId ((List.range ds.length).map commandId)
  command (k : Nat) (d : Drawing) : ds[k]? = some d →
    g.node? (commandId k) = some (.command (commandId k) d.command)
  feed (k : Nat) (d : Drawing) (v : Variable) (port : String) : ds[k]? = some d →
    (v, port) ∈ d.feeds → g.feeders (commandId k) port = [(v.id, Port.variableOut)] ∧
      g.node? v.id = some (.var v)
  slot (k : Nat) (d : Drawing) (slot : ArgSlot) (a : String × String) : ds[k]? = some d →
    slot ∈ d.slots → t.origin? g k slot.arg = some a → g.feeders (commandId k) slot.port = [a]
  /-- A variable that feeds a port is there. -/
  source (v : Variable) (node port : String) : v ∈ gasVar :: t.inputs.mapIdx inputVar →
    g.feeders node port = [(v.id, Port.variableOut)] → g.node? v.id = some (.var v)
  vars (v : Variable) : .var v ∈ g.nodes → v = gasVar ∨
    (∃ (i : Nat) (x : TxInput), t.inputs[i]? = some x ∧ v = inputVar i x) ∨
    ∃ (k : Nat) (d : Drawing) (port : String), ds[k]? = some d ∧ (v, port) ∈ d.feeds

theorem exists_feeder {g : Graph} {node port source handle : String}
    (h : g.feeders node port = [(source, handle)]) : ∃ e, g.incoming? node port = some e ∧
      e ∈ g.edges ∧ e.source = source ∧ e.sourceHandle = handle := by
  obtain ⟨e, hfilter, heq⟩ := List.map_eq_singleton_iff.mp h
  cases heq
  have hfind : g.incoming? node port = some e := by
    rw [Graph.incoming?, ← List.head?_filter, hfilter]
    rfl
  exact ⟨e, hfind, List.mem_of_find?_eq_some hfind, rfl, rfl⟩

/-- **A decoded graph shows the drawings**, where indices do not start over. -/
theorem Sketched.shows {source : SignatureSource} {ds : List Drawing} {packed : List String}
    {d : Decoded} (h : Sketched source t (t.inputs.mapIdx inputVar) (ds.map some) packed d)
    (hinputs : t.inputs.length ≤ Limited.limit) (hcommands : t.commands.length ≤ Limited.limit)
    (houtputs : ∀ drawing ∈ ds, drawing.command.outputPorts.length ≤ Limited.limit) :
    Shows t ds d.graph := by
  have hplan {k : Nat} {drawing : Drawing} (hk : ds[k]? = some drawing) :
      (ds.map some)[k]? = some (some drawing) := by rw [List.getElem?_map, hk]; rfl
  have hdepicts {k : Nat} {drawing : Drawing} (hk : ds[k]? = some drawing) :
      ∃ command, Depicts (contextWith source t (t.inputs.mapIdx inputVar)) k command drawing := by
    obtain ⟨command, -, hdepicts⟩ := h.plans.command_of_drawing (hplan hk)
    exact ⟨command, by rwa [Nat.zero_add] at hdepicts⟩
  -- the nodes of the plan, as nodes of drawings
  have hnodes {n : Node} (hn : n ∈ Plan.nodes 0 (ds.map some)) :
      ∃ (k : Nat) (drawing : Drawing), ds[k]? = some drawing ∧ n ∈ drawing.nodes k := by
    obtain ⟨k, drawing, hk, hn⟩ := Plan.mem_nodes.mp hn
    rw [List.getElem?_map, Option.map_eq_some_iff] at hk
    obtain ⟨_, hk, heq⟩ := hk
    cases heq
    exact ⟨k, drawing, hk, by rwa [Nat.zero_add] at hn⟩
  have hvar {v : Variable} {node port : String}
      (hfeeders : d.graph.feeders node port = [(v.id, Port.variableOut)])
      (hv : .var v ∈ markers ++ (t.inputs.mapIdx inputVar).map .var ++ Plan.nodes 0 (ds.map some)) :
      d.graph.node? v.id = some (.var v) := by
    obtain ⟨e, -, he, hsource, -⟩ := exists_feeder hfeeders
    exact h.node?_touched (n := .var v) he hv (by simp [Edge.touches, hsource, Node.id])
  refine ⟨?_, fun k drawing hk => h.node?_shown (hplan hk), fun k drawing v port hk hfeed => ?_,
    fun k drawing slot a hk hslot horigin => ?_, fun v node port hv hfeeders => ?_, fun v hv => ?_⟩
  · have hflow := h.flowsAlong
    rwa [Plan.shown_map_some, ← List.range_eq_range'] at hflow
  · obtain ⟨command, hdepicts⟩ := hdepicts hk
    have hfilter : d.graph.edges.filter (·.feeds (commandId k) port) =
        [.io v.id Port.variableOut (commandId k) port none] :=
      (h.filter_feeds port (hplan hk)).trans (filter_feeds_edge (nodup_ports hdepicts.outlines)
        (List.mem_append_left _ (List.mem_map.mpr ⟨(v, port), hfeed, rfl⟩)))
    have hfeeders : d.graph.feeders (commandId k) port = [(v.id, Port.variableOut)] := by
      rw [Graph.feeders, hfilter]
      rfl
    refine ⟨hfeeders, hvar hfeeders (List.mem_append_right _ ?_)⟩
    refine Plan.mem_nodes.mpr ⟨k, drawing, hplan hk, ?_⟩
    rw [Nat.zero_add]
    exact List.mem_append_left _ (List.mem_map.mpr ⟨(v, port), hfeed, rfl⟩)
  · obtain ⟨command, hdepicts⟩ := hdepicts hk
    rw [h.feeders_slot (hplan hk) hdepicts hslot, h.latest?_eq hinputs hcommands ?_, horigin]
    · rfl
    · intro id c hc
      rcases List.mem_append.mp (h.nodes_sublist.subset hc) with hn | hn
      · simp [markers] at hn
      · obtain ⟨j, other, hj, hn⟩ := hnodes hn
        rcases mem_drawing hn with ⟨f, -, hf⟩ | hf <;> cases hf
        exact houtputs other (List.mem_of_getElem? hj)
  · refine hvar hfeeders (List.mem_append_left _ ?_)
    rcases List.mem_cons.mp hv with rfl | hv
    · exact List.mem_append_left _ (by simp [markers])
    · exact List.mem_append_right _ (List.mem_map_of_mem hv)
  · rcases List.mem_append.mp (h.nodes_sublist.subset hv) with hn | hn
    · rcases List.mem_append.mp hn with hn | hn
      · simp only [markers, List.mem_cons, List.not_mem_nil, or_false] at hn
        rcases hn with hn | hn | hn <;> cases hn
        exact .inl rfl
      · obtain ⟨_, hmem, heq⟩ := List.mem_map.mp hn
        cases heq
        obtain ⟨i, hi, rfl⟩ := List.mem_mapIdx.mp hmem
        exact .inr (.inl ⟨i, _, List.getElem?_eq_getElem hi, rfl⟩)
    · obtain ⟨k, drawing, hk, hn⟩ := hnodes hn
      rcases mem_drawing hn with ⟨f, hf, heq⟩ | heq <;> cases heq
      exact .inr (.inr ⟨k, drawing, f.2, hk, hf⟩)

/-! ## Tidy transactions -/

theorem VarsOf.eq_mapIdx {index : Nat} {inputs : List TxInput} {vs : List Variable}
    (h : VarsOf index inputs vs)
    (hfull : ∀ x ∈ inputs, ∀ id, x = .object id → Address.normalize id = .ok id) :
    vs = inputs.mapIdx fun i x => inputVar (index + i) x := by
  induction h with
  | nil index => rfl
  | @cons index x v finding inputs vs head tail ih =>
    obtain ⟨hx, hrest⟩ := List.forall_mem_cons.mp hfull
    have hv : v = inputVar index x := by
      cases x with
      | object id =>
        rw [inputVariable, hx id rfl] at head
        cases head
        rfl
      | pure type bytes =>
        cases head
        rfl
    rw [List.mapIdx_cons, Nat.add_zero, ← hv, ih hrest]
    simp only [Nat.add_assoc, Nat.add_comm 1]

theorem mem_args (source : SignatureSource) (hk : t.commands[k]? = some command) {arg : TxArg}
    (harg : arg ∈ command.args) : arg ∈ (contextOf source t).args :=
  List.mem_flatMap.mpr ⟨command, List.mem_of_getElem? hk, harg⟩

theorem exists_command {source : SignatureSource} {ds : List Drawing}
    (hds : DrawnAs (contextOf source t) t.commands ds) (hk : ds[k]? = some d) :
    ∃ command, t.commands[k]? = some command ∧
      draw? (contextOf source t) k command = some d := by
  have hlt : k < t.commands.length := hds.1 ▸ lt_of_getElem? hk
  obtain ⟨d', hd', hdraw⟩ := hds.2 k _ (List.getElem?_eq_getElem hlt)
  rw [hk] at hd'
  cases hd'
  exact ⟨_, List.getElem?_eq_getElem hlt, hdraw⟩

section

variable {source : SignatureSource} {agrees : List ParamKind → List ParamKind → Prop}
  {kinds : UInt16 → ParamKind} {t : Transaction}
  (h : Transaction.Tidy (.shownBy source agrees) kinds t.inputs t.commands)

include h

theorem draw?_of_tidy {k : Nat} {command : TxCommand} (hk : t.commands[k]? = some command) :
    ∃ d, draw? (contextOf source t) k command = some d := by
  have hformed := (h.commands k command hk).formed
  cases command with
  | unsupported => exact hformed.elim
  | _ => exact ⟨_, rfl⟩

theorem exists_drawnAs : ∃ ds, t.commands.mapIdx (draw? (contextOf source t)) = ds.map some ∧
    DrawnAs (contextOf source t) t.commands ds := by
  have hrange : t.commands.mapIdx (draw? (contextOf source t)) ∈ Set.range (List.map some) := by
    rw [Set.range_list_map]
    intro x hx
    obtain ⟨k, hk, rfl⟩ := List.mem_mapIdx.mp hx
    obtain ⟨d, hd⟩ := draw?_of_tidy h (List.getElem?_eq_getElem hk)
    exact ⟨d, hd.symm⟩
  obtain ⟨ds, hds⟩ := hrange
  refine ⟨ds, hds.symm, ?_, fun k command hk => ?_⟩
  · simpa using congrArg List.length hds
  · obtain ⟨d, hd⟩ := draw?_of_tidy h hk
    have hget := congrArg (·[k]?) hds
    simp only [List.getElem?_map, List.getElem?_mapIdx, hk, Option.map_some, hd] at hget
    obtain ⟨_, hsome, heq⟩ := Option.map_eq_some_iff.mp hget
    cases heq
    exact ⟨d, hsome, hd⟩

/-- **The graph of a tidy transaction shows its drawings.** Without errors no element of a vector is
dropped. -/
theorem exists_shown (huniform : Uniform source) :
    ∃ d ds, Decoded.ofTransaction source t = .ok d ∧ d.options = ⟨t.sender, t.gasBudget⟩ ∧
      DrawnAs (contextOf source t) t.commands ds ∧ Shows t ds d.graph ∧
      (d.hasErrors = false → ∀ c ∈ t.commands, ¬ Drops (contextOf source t) c) := by
  have hfull : ∀ x ∈ t.inputs, ∀ id, x = .object id → Address.normalize id = .ok id := by
    rintro _ hx id rfl
    obtain ⟨n, hn⟩ := List.mem_iff_getElem?.mp hx
    obtain ⟨text, htext⟩ := h.full n id hn
    exact Transaction.Builder.normalize_fullAddress htext
  obtain ⟨ds, hplan, hds⟩ := exists_drawnAs h
  obtain ⟨d, hdecode, vs, plan, packed, hd⟩ :=
    (ofTransaction_sketched source t).exists_ok fun cause hcause => by
      rcases hcause with ⟨x, hx, id, hid, herror⟩ | ⟨command, hmem, hblocks⟩
      · rw [hfull x hx id hid] at herror
        cases herror
      · obtain ⟨k, hk⟩ := List.mem_iff_getElem?.mp hmem
        have hformed := (h.commands k command hk).formed
        cases command with
        | moveCall =>
          obtain ⟨bs, hbs⟩ := Option.isSome_iff_exists.mp hformed.1
          have hkey := Address.normalize_of_parse? hbs
          rcases hblocks with herror | herror
          · rw [hkey] at herror
            cases herror
          · exact huniform.reads hkey herror
        | _ => exact hblocks
  have hvs : vs = t.inputs.mapIdx inputVar := by
    have := hd.vars.eq_mapIdx hfull
    simpa only [Nat.zero_add] using this
  have hcontext : contextWith source t vs = contextOf source t := by
    rw [hvs, contextWith_inputVar]
  have hdrops := hd.drops
  have hsame := hd.draws huniform
  rw [hcontext] at hdrops hsame
  subst hvs
  subst hsame
  rw [hplan] at hd
  refine ⟨d, ds, hdecode, hd.options, hds, hd.shows h.fewInputs h.fewCommands fun drawing hmem => ?_,
    hdrops⟩
  obtain ⟨k, hk⟩ := List.mem_iff_getElem?.mp hmem
  obtain ⟨command, hcommand, hdraw⟩ := exists_command hds hk
  obtain ⟨params, htakes, -⟩ := (h.commands k command hcommand).args
  exact (length_outputPorts_lt hdraw (h.commands k command hcommand).formed htakes).le

end

end TxGraph.Decoding
