import TxGraph.Proofs.Decoding.Tidy
import TxGraph.Proofs.Decoding.Variables
import TxGraph.Proofs.Transaction.Recall

/-!
# Compiling decoded graphs

The graph of a tidy transaction compiles, and its program recalls the transaction: what arrives at
the port of an argument stands for that argument.
-/

namespace TxGraph.Decoding

open Transaction (Builder)

/-- The name under which the program of a graph declares an input. -/
def inputSymbol (t : Transaction) (g : Graph) (p : Program) (i : UInt16) : Option String :=
  t.inputs[i.toNat]?.bind fun x => g.symbol? p (inputVar i.toNat x)

theorem inputSymbol_inj {t : Transaction} {g : Graph} {p : Program} (hnames : p.symbols.Nodup)
    {i j : UInt16} {name : String} (hi : inputSymbol t g p i = some name)
    (hj : inputSymbol t g p j = some name) : i = j := by
  obtain ⟨x, -, hx⟩ := Option.bind_eq_some_iff.mp hi
  obtain ⟨y, -, hy⟩ := Option.bind_eq_some_iff.mp hj
  have hids := Graph.symbol?_inj (List.nodup_append.mp hnames).1 hx hy
  rw [id_inputVar, id_inputVar] at hids
  have hnumbers : i.toNat = j.toNat := by simpa [inputId] using hids
  exact UInt16.toNat_inj.mp hnumbers

section

variable {source : SignatureSource} {agrees : List ParamKind → List ParamKind → Prop}
  {kinds : UInt16 → ParamKind} {t : Transaction}
  {ds : List Drawing} {g : Graph} {reserved : List String} {p : Program}
variable {k : Nat} {d : Drawing}

theorem getElem?_order (hg : Shows t ds g) (hk : k < ds.length) :
    g.flow.order[k]? = some (commandId k) := by
  simp [hg.flow.order_eq, hk]

variable (h : Transaction.Tidy (.shownBy source agrees) kinds t.inputs t.commands)

include h

theorem exists_recodes {n : Nat} {type : Option String} {bs : Bytes}
    (hx : t.inputs[n]? = some (.pure type bs)) :
    ∃ eff data again, PureValue.Recodes (kinds (UInt16.ofNat n)) eff type bs data again := by
  have hindex := toNat_index ((lt_of_getElem? hx).trans_le h.fewInputs)
  obtain ⟨hdeclared, hencodes⟩ := h.encodes (UInt16.ofNat n) type bs (by rwa [hindex])
  exact hencodes.recodes hdeclared

variable (hds : DrawnAs (contextOf source t) t.commands ds) (hg : Shows t ds g)

include hds hg

/-! ## Arguments -/

variable (hp : g.compile reserved = .ok p)

include hp

theorem exists_output {j m : Nat} {c : TxCommand} (hj : t.commands[j]? = some c)
    (hm : m < c.resultCount) (hused : c.resultAt j m ∈ (contextOf source t).args) :
    ∃ d port op name, ds[j]? = some d ∧
      d.command.outputPorts[m]? = some port ∧ p.ops[j]? = some op ∧
      op.outputs[m]? = some name := by
  obtain ⟨d, hd, hdraw⟩ := hds.2 j c hj
  obtain ⟨port, hport⟩ := exists_outputPort hdraw (h.commands j c hj).formed hm hused
  obtain ⟨found, op, s, s', hfound, hop, hcompiled, -⟩ :=
    Graph.compile_operation hg.flow.ids hp (getElem?_order hg (lt_of_getElem? hd))
  rw [hg.command j d hd] at hfound
  cases hfound
  have hnames : m < op.outputs.length := by
    rw [(Compile.Emits.of_eq hcompiled).outputs]
    exact lt_of_getElem? hport
  exact ⟨d, port, op, _, hd, hport, hop, List.getElem?_eq_getElem hnames⟩

/-- **What arrives at the port of a slot stands for the argument in it.** -/
theorem recalled_slot (hd : ds[k]? = some d) {slot : ArgSlot} (hslot : slot ∈ d.slots) :
    slot.arg.Recalled kinds t (inputSymbol t g p) p k
      (g.operandAt p k (commandId k) slot.port) := by
  obtain ⟨command, hk, hdraw⟩ := exists_command hds hd
  have harg := arg_of_mem_slots (outlines_of_draw? hdraw) hslot
  have hused := mem_args source hk harg
  obtain ⟨params, -, hargs⟩ := (h.commands k command hk).args
  obtain ⟨kind, -, hfits⟩ := exists_of_forall₂ hargs harg
  have hid : commandId k ∈ g.flow.order :=
    List.mem_of_getElem? (getElem?_order hg (lt_of_getElem? hd))
  have hslot (a : String × String) (horigin : t.origin? g k slot.arg = some a) :=
    hg.slot k d slot a hd hslot horigin
  generalize slot.arg = arg at hfits hused hslot ⊢
  have hvar {v : Variable} (hv : v ∈ gasVar :: t.inputs.mapIdx inputVar)
      (horigin : t.origin? g k arg = some (v.id, Port.variableOut)) :
      ∃ e, g.incoming? (commandId k) slot.port = some e ∧ g.node? e.source = some (.var v) ∧
        e.sourceHandle = Port.variableOut := by
    obtain ⟨e, he, -, hsource, hhandle⟩ := exists_feeder (hslot _ horigin)
    exact ⟨e, he, hsource ▸ hg.source v _ _ hv (hslot _ horigin), hhandle⟩
  have hinput {i : UInt16} {x : TxInput} (hx : t.inputs[i.toNat]? = some x) (harg : arg = .input i) :=
    hvar (v := inputVar i.toNat x)
      (List.mem_cons_of_mem _ (List.mem_of_getElem? (by rw [List.getElem?_mapIdx, hx]; rfl)))
      (by rw [harg, Transaction.origin?, if_pos (lt_of_getElem? hx), id_inputVar])
  rcases hfits with hstands | ⟨i, rfl, ⟨type, bs, hx⟩, -⟩
  · cases hstands with
    | gasCoin =>
      obtain ⟨e, he, hv, hhandle⟩ := hvar List.mem_cons_self rfl
      rw [Graph.operandAt_inlined he hv hhandle inlined_gasVar]
      exact .gasCoin
    | @object i id hx =>
      obtain ⟨e, he, hv, hhandle⟩ := hinput hx rfl
      obtain ⟨text, htext⟩ := h.full i.toNat id hx
      rcases inlined_object htext i.toNat with ⟨o, known, ho, href, hknown⟩ | ⟨hnamed, hinit⟩
      · rw [Graph.operandAt_inlined he hv hhandle ho]
        exact .shared hx href hknown
      · obtain ⟨name, -, hvar, hname⟩ :=
          Graph.operandAt_named (k := k) he hg.flow.ids hp hid hv hhandle hnamed
        rw [hname]
        exact .object hx (hinit ▸ hvar)
    | @result j m c hj hm =>
      have hlt : j < k := by
        have := lt_of_getElem? hj
        rw [List.length_take] at this
        omega
      rw [List.getElem?_take_of_lt hlt] at hj
      obtain ⟨before, port, op, name, hbefore, hport, hop, hname⟩ :=
        exists_output h hds hg hp hj hm hused
      have hnode := hg.command j before hbefore
      -- the edge to the slot comes from the port that shows the result
      have horigin : t.origin? g k (c.resultAt j m) = some (commandId j, port.id) := by
        rw [origin?_resultAt t g ((lt_of_getElem? hj).trans_le h.fewCommands) hm
          (hm.trans (resultCount_lt (h.commands j c hj).formed))]
        simp [Graph.output?, hlt, hnode, Node.command?, hport]
      obtain ⟨e, he, -, hsource, hhandle⟩ := exists_feeder (hslot _ horigin)
      rw [← hsource] at hnode
      have horder : g.flow.order[j]? = some e.source :=
        hsource ▸ getElem?_order hg (lt_of_getElem? hbefore)
      rw [Graph.operandAt_result he hnode horder hlt hport hhandle.symm hop hname]
      exact .result hlt hj hop hname
  · obtain ⟨e, he, hv, hhandle⟩ := hinput hx rfl
    obtain ⟨eff, data, again, hrecodes⟩ := exists_recodes h hx
    rw [UInt16.ofNat_toNat] at hrecodes
    obtain ⟨hnamed, hliteral⟩ := inlined_pure hrecodes i.toNat
    obtain ⟨name, hsymbol, hvar, hname⟩ :=
      Graph.operandAt_named (k := k) he hg.flow.ids hp hid hv hhandle hnamed
    rw [hname]
    refine .pure hx ?_ hvar hliteral hrecodes.encodes
    rw [inputSymbol, hx, Option.bind_some, hsymbol]

theorem recalled_numbered (hd : ds[k]? = some d) {group : String} {args : List TxArg}
    (hslots : ArgSlot.numbered group args ⊆ d.slots) :
    List.Forall₂ (TxArg.Recalled kinds t (inputSymbol t g p) p k) args
      ((List.range args.length).map fun i =>
        g.operandAt p k (commandId k) (Command.indexed group i)) := by
  have hports : ((List.range args.length).map fun i =>
      g.operandAt p k (commandId k) (Command.indexed group i)) =
      (ArgSlot.numbered group args).map fun slot => g.operandAt p k (commandId k) slot.port := by
    have := congrArg (List.map (g.operandAt p k (commandId k))) (map_port_numbered group args)
    simpa [Function.comp_def] using this.symm
  rw [hports]
  conv in args => rw [← map_arg_numbered group args]
  rw [List.forall₂_map_left_iff, List.forall₂_map_right_iff, List.forall₂_same]
  exact fun slot hslot => recalled_slot h hds hg hp hd (hslots hslot)

omit h in
/-- A variable that a command brings for one of its ports arrives there by its name. -/
theorem operandAt_feed (hd : ds[k]? = some d) {v : Variable} {port : String}
    (hfeed : (v, port) ∈ d.feeds) : ∃ name,
      g.operandAt p k (commandId k) port = .ref name ∧ ⟨name, v.initial⟩ ∈ p.vars := by
  obtain ⟨command, -, hdraw⟩ := exists_command hds hd
  obtain ⟨hfeeders, hv⟩ := hg.feed k d v port hd hfeed
  obtain ⟨e, he, -, hsource, hhandle⟩ := exists_feeder hfeeders
  have hid : commandId k ∈ g.flow.order :=
    List.mem_of_getElem? (getElem?_order hg (lt_of_getElem? hd))
  obtain ⟨name, -, hvar, hname⟩ := Graph.operandAt_named (k := k) he hg.flow.ids hp hid
    (hsource ▸ hv) hhandle
    (inlined_of_feed (outlines_of_draw? hdraw) hfeed)
  exact ⟨name, hname, hvar⟩

omit h in
theorem names_typeArgs (hd : ds[k]? = some d) {args : List String}
    (hfeeds : d.feeds = args.mapIdx fun i arg =>
      (typeArgVar (commandId k) i arg, Command.indexed Command.typeArgIn i)) :
    List.Forall₂ (Operand.Names p) args ((List.range args.length).map fun i =>
      g.operandAt p k (commandId k) (Command.indexed Command.typeArgIn i)) := by
  refine List.forall₂_iff_get.mpr ⟨by simp, fun i hi hi' => ?_⟩
  have hfeed : (typeArgVar (commandId k) i args[i], Command.indexed Command.typeArgIn i) ∈
      d.feeds := by
    rw [hfeeds]
    exact List.mem_mapIdx.mpr ⟨i, hi, rfl⟩
  obtain ⟨name, hname, hvar⟩ := operandAt_feed hds hg hp hd hfeed
  simp only [List.get_eq_getElem, List.getElem_map, List.getElem_range]
  exact ⟨name, hname, hvar⟩


end

/-! ## Vectors of vectors -/

theorem dataType_of_recodes {elem : String} {eff : ParamKind} {type : Option String} {bs : Bytes}
    {data : Json} {again : Literal} (hspelling : (DataType.ofMove elem).moveSpelling? = some elem)
    (h : PureValue.Recodes (Lowering.Context.vectorElemKind (some elem)) eff type bs data again) :
    eff.dataType = DataType.ofMove elem := by
  have heff : eff = ParamKind.ofType (DataType.ofMove elem) := by
    refine h.effective.resolve_left fun hother => ?_
    rw [ParamKind.moveSpelling?_of_other hother] at hspelling
    cases hspelling
  have hsolid := h.solid
  rw [heff] at hsolid ⊢
  exact ParamKind.dataType_ofType (DataType.isMove_ofMove elem) hsolid

theorem getElem?_contextOf (source : SignatureSource) (t : Transaction) (n : Nat) :
    (contextOf source t).inputs[n]? = t.inputs[n]?.map fun x => (x, inputVar n x) := by
  simp [contextOf]

section

variable {source : SignatureSource} {agrees : List ParamKind → List ParamKind → Prop}
  {kinds : UInt16 → ParamKind} {t : Transaction}
  (h : Transaction.Tidy (.shownBy source agrees) kinds t.inputs t.commands) {commands : List TxCommand}
  {elem : Option String}

include h

theorem fits_elems {k : Nat} {elems : List TxArg}
    (hk : t.commands[k]? = some (.makeMoveVec elem elems)) : ∀ arg ∈ elems,
      arg.Fits kinds t.inputs (t.commands.take k) (Lowering.Context.vectorElemKind elem) := by
  intro arg harg
  obtain ⟨params, rfl, hargs⟩ := (h.commands k _ hk).args
  obtain ⟨kind, hkind, hfits⟩ := exists_of_forall₂ hargs harg
  rwa [List.eq_of_mem_replicate hkind] at hfits

/-- The elements of a vector that can be part of a literal are encodings, and are encoded again as
what they were. -/
theorem spelled_of_element? {type : DataType} {arg : TxArg} {found : String × Json}
    (hfits : arg.Fits kinds t.inputs commands (Lowering.Context.vectorElemKind elem))
    (hfound : (contextOf source t).element? type arg = some found) :
    arg.isPure t.inputs = true ∧ ∃ again, (Operand.ofValue type found.2).literal? = some again ∧
      arg.Spelled t (Lowering.Context.vectorElemKind elem) again := by
  cases arg with
  | input i =>
    simp only [Context.element?, getElem?_contextOf] at hfound
    cases hx : t.inputs[i.toNat]? with
    | none => simp [hx] at hfound
    | some x =>
      cases x with
      | object id => simp [hx] at hfound
      | pure recorded bs =>
        obtain ⟨eff, data, again, hrecodes⟩ := exists_recodes h hx
        rw [UInt16.ofNat_toNat] at hrecodes
        simp only [hx, Option.map_some, inputVar_of_recodes hrecodes] at hfound
        split at hfound
        case isFalse => cases hfound
        case isTrue htype =>
          cases hfound
          have hkind : kinds i = Lowering.Context.vectorElemKind elem := by
            rcases hfits with hstands | ⟨j, heq, -, hkind⟩
            · obtain ⟨id, hobject⟩ := TxArg.object_of_stands hstands
              rw [hx] at hobject
              cases hobject
            · cases heq
              exact hkind
          refine ⟨by simp [TxArg.isPure, hx], again, htype ▸ hrecodes.literal, i, recorded, bs,
            rfl, hx, ?_⟩
          rw [← hkind]
          exact hrecodes.encodes
  | _ => cases hfound

theorem spelled_of_mapM {type : DataType} {elems : List TxArg} {sources : List (String × Json)}
    (hfits : ∀ arg ∈ elems, arg.Fits kinds t.inputs commands
      (Lowering.Context.vectorElemKind elem))
    (hsources : elems.mapM ((contextOf source t).element? type) = some sources) :
    elems.all (TxArg.isPure t.inputs) = true ∧ ∃ values,
      Operand.literal?.all? (sources.map fun s => Operand.ofValue type s.2) = some values ∧
      List.Forall₂ (TxArg.Spelled t (Lowering.Context.vectorElemKind elem)) elems values := by
  induction elems generalizing sources with
  | nil =>
    cases hsources
    exact ⟨rfl, [], rfl, .nil⟩
  | cons arg rest ih =>
    obtain ⟨harg, hrest⟩ := List.forall_mem_cons.mp hfits
    rw [List.mapM_cons] at hsources
    obtain ⟨found, hfound, hsources⟩ := Option.bind_eq_some_iff.mp hsources
    obtain ⟨more, hmore, hsources⟩ := Option.bind_eq_some_iff.mp hsources
    cases hsources
    obtain ⟨hpure, again, hliteral, hspelled⟩ := spelled_of_element? h harg hfound
    obtain ⟨hall, values, hvalues, helems⟩ := ih hrest hmore
    refine ⟨by simp [hpure, hall], again :: values, ?_, .cons hspelled helems⟩
    simp [Operand.literal?.all?, hliteral, hvalues]

/-- An encoding that is given to a vector can be part of a literal. -/
theorem element?_of_isPure {spelling : String} {arg : TxArg}
    (hspelling : (DataType.ofMove spelling).moveSpelling? = some spelling)
    (hfits : arg.Fits kinds t.inputs commands
      (Lowering.Context.vectorElemKind (some spelling)))
    (hpure : arg.isPure t.inputs = true) :
    ∃ found, (contextOf source t).element? (DataType.ofMove spelling) arg = some found := by
  rcases hfits with hstands | ⟨i, rfl, ⟨type, bs, hx⟩, hkind⟩
  · cases arg with
    | input i =>
      obtain ⟨id, hobject⟩ := TxArg.object_of_stands hstands
      simp [TxArg.isPure, hobject] at hpure
    | _ => cases hpure
  · obtain ⟨eff, data, again, hrecodes⟩ := exists_recodes h hx
    rw [UInt16.ofNat_toNat, hkind] at hrecodes
    refine ⟨(inputId i.toNat, data), ?_⟩
    simp [Context.element?, getElem?_contextOf, hx, inputVar_of_recodes hrecodes,
      dataType_of_recodes hspelling hrecodes]

variable {ds : List Drawing} {g : Graph} (hds : DrawnAs (contextOf source t) t.commands ds)
  (hg : Shows t ds g)

include hds hg

/-- A variable of a decoded graph is inlined, or stands for an object or a literal. -/
theorem inlined_or {v : Variable} (hv : .var v ∈ g.nodes) : (∃ o, v.inlined = .ok (some o)) ∨
    v.inlined = .ok none ∧
      ((∃ id, v.initial = .object (.byId id)) ∨ ∃ value, v.initial.literal? = some value) := by
  rcases hg.vars v hv with rfl | ⟨i, x, hx, rfl⟩ | ⟨k, d, port, hd, hfeed⟩
  · exact .inl ⟨_, inlined_gasVar⟩
  · cases x with
    | object id =>
      obtain ⟨text, htext⟩ := h.full i id hx
      rcases inlined_object htext i with ⟨o, known, ho, -⟩ | ⟨hnone, hinit⟩
      · exact .inl ⟨_, ho⟩
      · exact .inr ⟨hnone, .inl ⟨id, hinit⟩⟩
    | pure type bs =>
      obtain ⟨eff, data, again, hrecodes⟩ := exists_recodes h hx
      obtain ⟨hnone, hliteral⟩ := inlined_pure hrecodes i
      exact .inr ⟨hnone, .inr ⟨again, hliteral⟩⟩
  · obtain ⟨command, hk, hdraw⟩ := exists_command hds hd
    refine .inr ⟨inlined_of_feed (outlines_of_draw? hdraw) hfeed, .inr ?_⟩
    cases command with
    | makeMoveVec elem elems =>
      cases hdraw
      unfold drawVector at hfeed
      split at hfeed
      · split at hfeed
        case h_1 sources hsources =>
          cases List.mem_singleton.mp hfeed
          have hfits := fits_elems h hk
          obtain ⟨-, values, hvalues, -⟩ := spelled_of_mapM h hfits hsources
          refine ⟨.list values, ?_⟩
          rw [(inlined_elemsVar _ _ _).2, List.map_map, Operand.literal?]
          exact Option.map_eq_some_iff.mpr ⟨values, hvalues, rfl⟩
        case h_2 => cases hfeed
      · cases hfeed
    | moveCall =>
      cases hdraw
      obtain ⟨i, hi, heq⟩ := List.mem_mapIdx.mp hfeed
      cases heq
      exact ⟨_, rfl⟩
    | unsupported => cases hdraw
    | _ =>
      cases hdraw
      cases hfeed

theorem object_or_literal {v : Variable} (hv : .var v ∈ g.nodes) (hnamed : v.inlined = .ok none) :
    (∃ id, v.initial = .object (.byId id)) ∨ ∃ value, v.initial.literal? = some value := by
  rcases inlined_or h hds hg hv with ⟨o, ho⟩ | ⟨-, hinit⟩
  · cases ho.symm.trans hnamed
  · exact hinit

/-- **Decoded graphs compile.** -/
theorem exists_compile (reserved : List String) : ∃ p, g.compile reserved = .ok p := by
  refine g.exists_compile hg.flow.starts hg.flow.ends (fun v hv => ?_) reserved
  rcases inlined_or h hds hg hv with ⟨_, ho⟩ | ⟨hnone, -⟩
  · exact ⟨_, ho⟩
  · exact ⟨_, hnone⟩

end

/-! ## Commands -/

theorem shownCall_target (c : Context) (k : Nat) (package module function : String)
    (typeArgs : List String) (args : List TxArg) :
    (shownCall c k package module function typeArgs args).package = package ∧
    (shownCall c k package module function typeArgs args).module = module ∧
    (shownCall c k package module function typeArgs args).function = function := by
  rw [shownCall, callOf_eq, callBy]
  cases ((c.source package).toOption.bind fun s => s.function? module function) <;>
    exact ⟨rfl, rfl, rfl⟩

section

variable {source : SignatureSource} {kinds : UInt16 → ParamKind} {t : Transaction}
  {ds : List Drawing} {g : Graph} {reserved : List String} {p : Program}
  (h : Transaction.Tidy (.shownBy source Eq) kinds t.inputs t.commands)
  (hds : DrawnAs (contextOf source t) t.commands ds) (hg : Shows t ds g)
  (hp : g.compile reserved = .ok p)
variable {k : Nat} {op : Operation}

include h hds hg hp

theorem recalled_vector {elem : Option String} {elems : List TxArg} {d : Drawing}
    {s s' : Compile.Scope} (hk : t.commands[k]? = some (.makeMoveVec elem elems))
    (hd : ds[k]? = some d)
    (hdraw : draw? (contextOf source t) k (.makeMoveVec elem elems) = some d)
    (hdrops : ¬ Drops (contextOf source t) (.makeMoveVec elem elems))
    (hcompiled : Compile.operation g (commandId k) d.command s = (op, s'))
    (hinput : ∀ port, s.input g (commandId k) port = g.operandAt p k (commandId k) port) :
    (TxCommand.makeMoveVec elem elems).Recalled kinds t (inputSymbol t g p) p k op := by
  obtain ⟨-, -, hformed⟩ := h.commands k _ hk
  have hfits := fits_elems h hk
  have hspelling : (elem.elim .anyObject DataType.ofMove).moveSpelling? = elem := by
    cases elem with
    | none => rfl
    | some spelling => exact hformed spelling rfl
  cases hdraw
  unfold drawVector at hd hcompiled
  by_cases hvector : (elem.elim .anyObject DataType.ofMove).isVector = true
  · rw [if_pos hvector] at hd hcompiled
    obtain ⟨spelling, rfl⟩ : ∃ spelling, elem = some spelling := by
      cases elem with
      | none => cases hvector
      | some spelling => exact ⟨spelling, rfl⟩
    simp only [Option.elim_some] at hd hcompiled hvector hspelling
    cases hsources : elems.mapM ((contextOf source t).element? (DataType.ofMove spelling)) with
    | some sources =>
      simp only [hsources] at hd hcompiled
      simp only [Compile.operation, Command.isExpanded, Bool.false_and, Compile.Scope.group,
        Bool.false_eq_true, if_false, hinput, hspelling] at hcompiled
      cases hcompiled
      obtain ⟨name, hname, hvar⟩ := operandAt_feed hds hg hp hd List.mem_cons_self
      obtain ⟨hall, values, hvalues, helems⟩ := spelled_of_mapM h hfits hsources
      rw [hname]
      refine .packed ?_ ((inlined_elemsVar _ _ _).2 ▸ hvar) ?_ helems
      · simp [TxCommand.isPacked, hvector, hall]
      · simpa [Function.comp_def] using hvalues
    | none =>
      simp only [hsources] at hd hcompiled
      simp only [Compile.operation, Command.isExpanded, Bool.false_and, Compile.Scope.group,
        Bool.false_eq_true, if_false, hinput, hspelling] at hcompiled
      cases hcompiled
      -- more than one element would have been dropped, and none at all makes an empty literal
      have hone : ∃ arg, elems = [arg] := by
        rcases elems with _ | ⟨arg, _ | ⟨_, _⟩⟩
        · cases hsources
        · exact ⟨arg, rfl⟩
        · exact absurd ⟨hvector, hsources, by simp⟩ hdrops
      obtain ⟨arg, rfl⟩ := hone
      have hslot : ArgSlot.single Command.elemsIn arg ∈
          ([arg].take 1).map (ArgSlot.single Command.elemsIn) := by simp
      refine .whole ?_ (recalled_slot h hds hg hp hd hslot)
      rw [← Bool.not_eq_true]
      intro hpure
      obtain ⟨found, hfound⟩ := element?_of_isPure h hspelling (hfits arg (by simp)) hpure
      simp [List.mapM_cons, hfound] at hsources
  · rw [if_neg hvector] at hd hcompiled
    rw [Bool.not_eq_true] at hvector
    simp only [Compile.operation, Command.isExpanded, hvector, Bool.true_and, Bool.not_false,
      Compile.Scope.group, if_true, Compile.Scope.inputs, hinput, hspelling] at hcompiled
    cases hcompiled
    refine .elements ?_ (recalled_numbered h hds hg hp hd (List.Subset.refl _))
    cases elem with
    | none => rfl
    | some spelling =>
      simp only [Option.elim_some] at hvector
      simp [TxCommand.isPacked, hvector]

theorem recalled_call {package module function : String} {typeArgs : List String}
    {args : List TxArg} {d : Drawing} {s s' : Compile.Scope}
    (hk : t.commands[k]? = some (.moveCall package module function typeArgs args))
    (hd : ds[k]? = some d)
    (hdraw : draw? (contextOf source t) k (.moveCall package module function typeArgs args) =
      some d) (hcompiled : Compile.operation g (commandId k) d.command s = (op, s'))
    (hinput : ∀ port, s.input g (commandId k) port = g.operandAt p k (commandId k) port) :
    (TxCommand.moveCall package module function typeArgs args).Recalled kinds t
      (inputSymbol t g p) p k op := by
  obtain ⟨⟨kinds', htakes, hargs⟩, -, hformed⟩ := h.commands k _ hk
  have hfew := length_outputPorts_lt hdraw hformed htakes
  obtain ⟨htypes, hparams, -, rfl⟩ := htakes
  cases hdraw
  rw [← (Compile.Emits.of_eq hcompiled).outputs] at hfew
  obtain ⟨hpackage, hmodule, hfunction⟩ :=
    shownCall_target (contextOf source t) k package module function typeArgs args
  simp only [drawCall, Compile.operation, Compile.Scope.inputs, hinput] at hcompiled
  cases hcompiled
  rw [hpackage, hmodule, hfunction] at hfew ⊢
  have hnames : (shownCall (contextOf source t) k package module function typeArgs
      args).typeParams.length = typeArgs.length :=
    (length_padTypeParams _ _).trans (Nat.max_eq_left htypes)
  have hlength : (shownCall (contextOf source t) k package module function typeArgs
      args).params.length = args.length := (length_padTypes _ _).trans (Nat.max_eq_left hparams)
  have hvalues : (Compile.arguments s g (commandId k) (shownCall (contextOf source t) k package
      module function typeArgs args).params).map Argument.value =
      (List.range args.length).map fun i =>
        g.operandAt p k (commandId k) (Command.indexed Command.argIn i) := by
    rw [← hlength, ← Command.map_zipIdx_snd]
    simp [Compile.arguments, hinput, Function.comp_def]
  refine .moveCall ?_ (hvalues ▸ recalled_numbered h hds hg hp hd (List.Subset.refl _)) ?_ hfew
  · rw [hnames]
    exact names_typeArgs hds hg hp hd rfl
  · rw [← List.forall₂_map_right_iff (f := Argument.kind)]
    have hkinds : (Compile.arguments s g (commandId k) (shownCall (contextOf source t) k package
        module function typeArgs args).params).map Argument.kind =
        (shownCall (contextOf source t) k package module function typeArgs args).params.map
          ParamKind.ofType := by
      conv_rhs => rw [← List.zipIdx_map_fst 0 (shownCall _ k _ _ _ _ _).params, List.map_map]
      simp [Compile.arguments, Function.comp_def]
    rw [hkinds]
    exact hargs

/-- **The operation of a command recalls the command.** -/
theorem recalled_command {c : TxCommand} (hk : t.commands[k]? = some c) (hop : p.ops[k]? = some op)
    (hdrops : ¬ Drops (contextOf source t) c) (helements : c.HasElements) :
    c.Recalled kinds t (inputSymbol t g p) p k op := by
  obtain ⟨d, hd, hdraw⟩ := hds.2 k c hk
  obtain ⟨found, found', s, s', hfound, hfound', hcompiled, hinput⟩ :=
    Graph.compile_operation hg.flow.ids hp (getElem?_order hg (lt_of_getElem? hd))
  rw [hg.command k d hd] at hfound
  cases hfound
  cases hop.symm.trans hfound'
  have hsingle {port : String} {arg : TxArg} (hslot : ArgSlot.single port arg ∈ d.slots) :
      arg.Recalled kinds t (inputSymbol t g p) p k (g.operandAt p k (commandId k) port) :=
    recalled_slot h hds hg hp hd hslot
  have hgroup {group : String} {args : List TxArg}
      (hslots : ArgSlot.numbered group args ⊆ d.slots) :=
    recalled_numbered h hds hg hp hd hslots
  -- drawing and compiling both count at least one port, which changes nothing here
  have hports {args : List TxArg} (hsome : args ≠ []) : max (max args.length 1) 1 = args.length := by
    have := List.length_pos_iff.mpr hsome
    omega
  cases c with
  | unsupported => cases hdraw
  | makeMoveVec elem elems =>
    exact recalled_vector h hds hg hp hk hd hdraw hdrops hcompiled hinput
  | moveCall =>
    exact recalled_call h hds hg hp hk hd hdraw hcompiled hinput
  | splitCoins coin amounts =>
    obtain ⟨-, -, hsome, -⟩ := h.commands k _ hk
    have hcount := hports hsome
    cases hdraw
    simp only [Compile.operation, Compile.Scope.inputs, hinput, hcount] at hcompiled
    cases hcompiled
    exact .splitCoins (hsingle List.mem_cons_self)
      (hgroup (List.subset_cons_self _ _)) (Compile.Scope.length_outputs ..)
  | mergeCoins destination sources =>
    have hcount := hports helements
    cases hdraw
    simp only [Compile.operation, Command.isExpanded, Compile.Scope.group, if_true,
      Compile.Scope.inputs, hinput, hcount] at hcompiled
    cases hcompiled
    exact .mergeCoins (hsingle List.mem_cons_self)
      (hgroup (List.subset_cons_self _ _))
  | transferObjects objects recipient =>
    have hcount := hports helements
    cases hdraw
    simp only [Compile.operation, Command.isExpanded, Compile.Scope.group, if_true,
      Compile.Scope.inputs, hinput, hcount] at hcompiled
    cases hcompiled
    exact .transferObjects (hgroup (List.subset_append_left _ _))
      (hsingle (List.mem_append_right _ List.mem_cons_self))
  | publish =>
    cases hdraw
    cases hcompiled
    exact .publish
  | upgrade =>
    cases hdraw
    simp only [Compile.operation, hinput] at hcompiled
    cases hcompiled
    exact .upgrade (hsingle List.mem_cons_self)

/-- **The program of a decoded graph recalls the transaction.** -/
theorem recalled_of_compile (hdrops : ∀ c ∈ t.commands, ¬ Drops (contextOf source t) c)
    (helements : ∀ c ∈ t.commands, c.HasElements) :
    Transaction.Recalled kinds t (inputSymbol t g p) p where
  distinct := (Program.wellScoped_of_compile hp).distinct
  unsigned b hb := by
    obtain ⟨v, hv, hnamed, hinit⟩ := Graph.exists_variable hp hb
    rw [hinit]
    rcases object_or_literal h hds hg hv hnamed with ⟨id, hid⟩ | ⟨value, hvalue⟩
    · rw [hid]
      rfl
    · exact (Operand.spells_of_literal? hvalue).usesSender
  symbols := inputSymbol_inj (Program.wellScoped_of_compile hp).distinct
  length := by rw [Graph.length_ops hp, hg.flow.order_eq, List.length_map, List.length_range, hds.1]
  command _ c _ hk hop := by
    have hmem := List.mem_of_getElem? hk
    exact recalled_command h hds hg hp hk hop (hdrops c hmem) (helements c hmem)

end

end TxGraph.Decoding
