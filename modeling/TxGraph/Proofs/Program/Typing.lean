import TxGraph.Proofs.Graph.Issue
import TxGraph.Proofs.Lowering.Typing
import TxGraph.Proofs.Program.DataFlow

/-!
# Typed graphs

A graph without issues has edges that agree with the types of their ports. If these types are
concrete, the program of the graph is typed: what stands at a port has the type of the port. So the
lowering of the program fails for the values in the graph and for the options only.
-/

namespace TxGraph

/-! ## Concrete types -/

namespace DataType

/-- No wildcard, no tuple and no id that is passed by value occurs in the type. -/
def isConcrete : DataType → Bool
  | scalar _ => true
  | integer _ => true
  | object tag => tag != some idTag
  | vector elem => elem.isConcrete
  | tuple _ => false
  | typeParam _ => false
  | unknown => false

/-- Whether the type is one of objects, or of vectors with objects at the bottom. -/
def holdsObjects : DataType → Bool
  | object _ => true
  | vector elem => elem.holdsObjects
  | _ => false

theorem ofType_of_holdsObjects : {type : DataType} → type.isConcrete = true →
    type.holdsObjects = true → ParamKind.ofType type = .handle
  | .object tag, h, _ => if_neg (by simpa [isConcrete] using h)
  | .vector elem, h, hobjects => by
    have helem : ParamKind.ofType elem = .handle := ofType_of_holdsObjects h hobjects
    rw [ParamKind.ofType, helem, ParamKind.vectorOf]

theorem solid_of_not_holdsObjects : {type : DataType} → type.isConcrete = true →
    type.holdsObjects = false → (ParamKind.ofType type).Solid
  | .scalar kind, _, _ => by cases kind <;> trivial
  | .integer _, _, _ => trivial
  | .vector elem, h, hobjects => by
    have helem : (ParamKind.ofType elem).Solid := solid_of_not_holdsObjects h hobjects
    rw [ParamKind.ofType, ParamKind.vectorOf_of_solid helem]
    exact helem

/-- How a concrete type enters another: numbers are narrowed, tags of objects do not count. -/
inductive Enters : DataType → DataType → Prop
  | refl (type : DataType) : Enters type type
  | number (width : Width) : Enters .number (.integer width)
  | object {tag tag' : Option String} (h : (object tag).isConcrete = true) :
    Enters (.object tag) (.object tag')
  | vector {elem elem' : DataType} (h : Enters elem elem') : Enters (.vector elem) (.vector elem')

theorem enters_of_flowsInto : {source target : DataType} → source.isConcrete = true →
    target.isConcrete = true → source.flowsInto target = true → Enters source target
  | .scalar kind, .scalar kind', _, _, h => by
    have heq : scalar kind = scalar kind' := by cases kind <;> simpa [flowsInto] using h
    exact heq ▸ .refl _
  | .scalar .number, .integer width, _, _, _ => .number width
  | .integer width, .integer width', _, _, h => by
    have heq : integer width = integer width' := by simpa [flowsInto] using h
    exact heq ▸ .refl _
  | .object _, .object _, hs, _, _ => .object hs
  | .vector _, .vector _, hs, ht, h => .vector (enters_of_flowsInto hs ht h)

theorem Enters.solid {source target : DataType} (h : Enters source target)
    (hsolid : (ParamKind.ofType source).Solid) : (ParamKind.ofType target).Solid := by
  induction h with
  | refl => exact hsolid
  | number => trivial
  | object hconcrete =>
    rw [ofType_of_holdsObjects hconcrete rfl] at hsolid
    cases hsolid
  | vector _ ih =>
    have helem := ih (ParamKind.solid_elem hsolid)
    rw [ParamKind.ofType, ParamKind.vectorOf_of_solid helem]
    exact helem

end DataType

/-- What has one type has every type that it enters. -/
theorem Operand.HasType.enters {signed : Bool} {source target : DataType}
    (h : source.Enters target) {value : Operand} (hvalue : value.HasType signed source) :
    value.HasType signed target := by
  induction h generalizing value with
  | refl => exact hvalue
  | number width =>
    cases value with
    | constant k => cases k <;> trivial
    | _ => trivial
  | object => cases value <;> trivial
  | vector helem ih =>
    cases value with
    | absent => trivial
    | vector items =>
      exact ⟨fun hnil => helem.solid (hvalue.1 hnil), fun item hitem => ih (hvalue.2 item hitem)⟩
    | constant k => cases k <;> cases hvalue
    | _ => cases hvalue

/-! ## Values of variables -/

/-- Whether an empty array is reached through arrays. -/
def Json.hasEmptyArray : Json → Bool
  | .arr items => items.isEmpty || anyHasEmptyArray items
  | _ => false
where
  anyHasEmptyArray : List Json → Bool
    | [] => false
    | item :: rest => item.hasEmptyArray || anyHasEmptyArray rest

theorem Json.hasEmptyArray_of_mem {items : List Json} (h : (Json.arr items).hasEmptyArray = false) :
    items ≠ [] ∧ ∀ item ∈ items, item.hasEmptyArray = false := by
  obtain ⟨hitems, hall⟩ := Bool.or_eq_false_iff.mp h
  refine ⟨by simpa using hitems, ?_⟩
  clear h hitems
  induction items with
  | nil => nofun
  | cons item rest ih =>
    obtain ⟨hitem, hrest⟩ := Bool.or_eq_false_iff.mp hall
    exact List.forall_mem_cons.mpr ⟨hitem, ih hrest⟩

theorem Operand.hasType_ofValue {signed : Bool} : {type : DataType} → type.isConcrete = true →
    {j : Json} → (type.isVector = true → type.holdsObjects = true → j.hasEmptyArray = false) →
    (ofValue type j).HasType signed type
  | .scalar .bool, _, j, _ => by
    rw [← DataType.bool, ofValue_bool]
    rcases boolOf_eq j with h | ⟨b, h⟩ <;> rw [h] <;> trivial
  | .scalar .string, _, j, _ => by cases j <;> trivial
  | .scalar .address, _, j, _ => by cases j <;> trivial
  | .scalar .number, _, j, _ => by cases j <;> trivial
  | .integer _, _, j, _ => by cases j <;> trivial
  | .object tag, h, j, _ => by
    have htag : tag ≠ some DataType.idTag := by simpa [DataType.isConcrete] using h
    rw [ofValue_object htag]
    rcases objectOf_eq j with h | ⟨id, h⟩ <;> rw [h] <;> trivial
  | .vector elem, h, j, hfull => by
    cases j with
    | arr items =>
      refine ⟨fun hnil => ?_, fun item hitem => ?_⟩
      · cases hobjects : elem.holdsObjects with
        | false => exact DataType.solid_of_not_holdsObjects h hobjects
        | true =>
          have hitems := (Json.hasEmptyArray_of_mem (hfull rfl hobjects)).1
          exact absurd (List.map_eq_nil_iff.mp hnil) hitems
      · obtain ⟨k, hk, rfl⟩ := List.mem_map.mp hitem
        have helem : elem.isConcrete = true := h
        refine hasType_ofValue helem fun _ hobjects => ?_
        exact (Json.hasEmptyArray_of_mem (hfull rfl hobjects)).2 k hk
    | _ => trivial

theorem Operand.hasType_absent (signed : Bool) (type : DataType) :
    Operand.absent.HasType signed type := by
  cases type <;> trivial

theorem Variable.hasType_inlined {v : Variable} {value : Operand} {signed : Bool}
    (h : v.inlined = .ok (some value)) (hsender : value.usesSender = true → signed = true) :
    value.HasType signed v.type := by
  unfold inlined at h
  split at h
  case h_1 tag htype =>
    rw [htype]
    split at h
    · cases h
    obtain ⟨found, -, h⟩ := bind_eq_ok.mp h
    obtain ⟨o, -, rfl⟩ := Option.map_eq_some_iff.mp (Except.ok.inj h)
    trivial
  case h_2 htype =>
    rw [htype]
    have hvalue := Except.ok.inj h
    split at hvalue
    · cases hvalue
      exact hsender rfl
    · cases hvalue
  case h_3 => cases h

/-! ## Typed graphs -/

def Node.variable? : Node → Option Variable
  | .var v => some v
  | _ => none

def Command.typeArgs : Command → List Port
  | moveCall call => typeArgPorts call.typeParams
  | _ => []

namespace Graph

def vars (g : Graph) : List Variable :=
  g.nodes.filterMap Node.variable?

def active (g : Graph) : List (String × Command) :=
  Compile.commandsOf g g.flow.order

def textAt? (g : Graph) (id port : String) : Option String := do
  let e ← g.incoming? id port
  let v ← (g.node? e.source).bind Node.variable?
  if v.type = .string then v.value.map Operand.textOf else none

/-- No issue is reported of the graph; the types of its variables and of the ports of its active
commands are concrete; each type argument is a text that is not blank; and no vector of objects that
is used has an empty array in it. -/
structure WellTyped (g : Graph) : Prop where
  issues : g.issues = []
  varTypes : ∀ v ∈ g.vars, v.type.isConcrete = true
  portTypes : ∀ x ∈ g.active, ∀ q ∈ x.2.ports, q.role = .io → q.typeOrUnknown.isConcrete = true
  typeArgs : ∀ x ∈ g.active, ∀ q ∈ x.2.typeArgs,
    ∃ text ∈ g.textAt? x.1 q.id, (Text.trim text).isEmpty = false
  values : ∀ v ∈ Compile.usedVariables g g.flow.order, v.type.isVector = true →
    v.type.holdsObjects = true → ∀ j ∈ v.value, j.hasEmptyArray = false

/-- The edge into an input of a command comes from an output whose type flows into that of the
input. -/
theorem source_of_incoming {g : Graph} (hissues : g.issues = []) {id : String} {c : Command}
    (hc : g.node? id = some (.command id c)) {q : Port} (hq : q ∈ c.inputPorts) {e : Edge}
    (he : g.incoming? id q.id = some e) : ∃ n r, g.node? e.source = some n ∧
      r ∈ n.ports ∧ r.id = e.sourceHandle ∧ r.isIoOut = true ∧
      r.typeOrUnknown.flowsInto q.typeOrUnknown = true := by
  have hfeeds : e.isIo = true ∧ e.target = id ∧ e.targetHandle = q.id := by
    simpa [Edge.feeds, and_assoc] using List.find?_some he
  obtain ⟨r, q', hr, hq', hkind⟩ :=
    refit_eq_ok.mp (refit_of_issues hissues (List.mem_of_find?_eq_some he))
  obtain ⟨cast, hcheck⟩ : ∃ cast, Port.checkIo r q' = .ok cast := by
    rcases hkind with ⟨hflow, -, -⟩ | ⟨old, cast, -, hcheck, -⟩
    · simp [Edge.isIo, Edge.isFlow, hflow] at hfeeds
    · exact ⟨cast, hcheck⟩
  obtain ⟨⟨hrole, hrole'⟩, hdirection, hdirection'⟩ :=
    checkRoles_eq_ok.mp (checkRoles_of_checkIo hcheck)
  obtain ⟨n, hn, hr⟩ := resolvePort_eq_ok.mp hr
  obtain ⟨m, hm, hq'⟩ := resolvePort_eq_ok.mp hq'
  rw [hfeeds.2.1, hc] at hm
  cases hm
  rw [hfeeds.2.2] at hq'
  -- the port that the edge ends at is the input, for ids of inputs are unique
  have hsame : q' = q := by
    have hmem : q' ∈ c.inputPorts := by
      rw [← c.filter_isIoIn_ports]
      exact List.mem_filter.mpr
        ⟨List.mem_of_find?_eq_some hq', by simp [Port.isIoIn, hrole', hdirection']⟩
    have hid : q'.id = q.id := by simpa using List.find?_some hq'
    exact List.inj_on_of_nodup_map c.nodup_inputPorts hmem hq hid
  subst hsame
  refine ⟨n, r, hn, List.mem_of_find?_eq_some hr, by simpa using List.find?_some hr,
    by simp [Port.isIoOut, hrole, hdirection], ?_⟩
  obtain ⟨_, -, hflows⟩ := bind_eq_ok.mp hcheck
  dsimp only at hflows
  split at hflows
  · assumption
  · cases hflows

section Operands

variable {g : Graph} {reserved : List String} {p : Program} {k : Nat} {id : String} {c : Command}

theorem mem_active (hk : g.flow.order[k]? = some id) (hc : g.node? id = some (.command id c)) :
    (id, c) ∈ g.active :=
  Compile.mem_commandsOf.mpr ⟨List.mem_of_getElem? hk, hc⟩

theorem WellTyped.inputTypes (hg : g.WellTyped) (hactive : (id, c) ∈ g.active) :
    ∀ q ∈ c.inputPorts, q.typeOrUnknown.isConcrete = true := by
  intro q hq
  rw [← c.filter_isIoIn_ports] at hq
  obtain ⟨hmem, hin⟩ := List.mem_filter.mp hq
  exact hg.portTypes _ hactive q hmem (by simp_all [Port.isIoIn])

theorem WellTyped.outputTypes (hg : g.WellTyped) (hactive : (id, c) ∈ g.active) :
    ∀ q ∈ c.outputPorts, q.typeOrUnknown.isConcrete = true := by
  intro q hq
  rw [← c.filter_isIoOut_ports] at hq
  obtain ⟨hmem, hout⟩ := List.mem_filter.mp hq
  exact hg.portTypes _ hactive q hmem (by simp_all [Port.isIoOut])

theorem WellTyped.hasType_initial (hg : g.WellTyped) {v : Variable}
    (hv : v ∈ Compile.usedVariables g g.flow.order) (signed : Bool) :
    v.initial.HasType signed v.type := by
  have hconcrete : v.type.isConcrete = true :=
    hg.varTypes v (List.mem_filterMap.mpr ⟨.var v, (Compile.mem_usedVariables.mp hv).1, rfl⟩)
  unfold Variable.initial
  split
  case h_1 j hj =>
    exact Operand.hasType_ofValue hconcrete fun hvector hobjects =>
      hg.values v hv hvector hobjects j hj
  case h_2 => exact Operand.hasType_absent _ _

theorem suits_result (h : g.compile reserved = .ok p) {port name : String}
    (hname : g.result? p k id port c = some name) (signed : Bool) (type : DataType) :
    (Operand.ref name).Suits signed p.vars type := by
  obtain ⟨j, -, hname⟩ := Option.bind_eq_some_iff.mp hname
  obtain ⟨m, -, hname⟩ := Option.bind_eq_some_iff.mp hname
  obtain ⟨op, hop, hname⟩ := Option.bind_eq_some_iff.mp hname
  have hout : name ∈ p.ops.flatMap Operation.outputs :=
    List.mem_flatMap.mpr ⟨op, List.mem_of_getElem? hop, List.mem_of_getElem? hname⟩
  obtain ⟨-, -, hdisjoint⟩ := List.nodup_append.mp (Program.wellScoped_of_compile h).distinct
  rintro v hv rfl
  exact absurd rfl (hdisjoint v.name (List.mem_map_of_mem hv) v.name hout)

theorem WellTyped.suits_variable (hg : g.WellTyped) (h : g.compile reserved = .ok p)
    (hid : id ∈ g.flow.order) {port : String} {e : Edge} (he : g.incoming? id port = some e)
    {v : Variable} (hv : g.node? e.source = some (.var v))
    (hout : e.sourceHandle = Port.variableOut) {type : DataType} (htype : v.type.Enters type)
    (hsender : (g.operandAt p k id port).usesSender = true → p.usesSender = true) :
    (g.operandAt p k id port).Suits p.usesSender p.vars type := by
  have hids := nodup_of_issues hg.issues
  have hused := Compile.mem_usedVariables_of_incoming hid he hv
  obtain ⟨ps, s, s', hbinds, -⟩ := compile_runs h
  rcases hbinds.named_or_inlined hused with hnamed | ⟨value, hvalue⟩
  · obtain ⟨name, -, hmem, heq⟩ :=
      operandAt_named (k := k) he hids h hid hv hout (Variable.isNamed_iff.mp hnamed)
    rw [heq]
    -- the name stands for this variable alone
    intro b hb hname
    obtain ⟨hnames, -⟩ := List.nodup_append.mp (Program.wellScoped_of_compile h).distinct
    obtain rfl := List.inj_on_of_nodup_map hnames hb hmem hname
    exact (hg.hasType_initial hused _).enters htype
  · have heq : g.operandAt p k id port = value := operandAt_inlined he hv hout hvalue
    rw [heq] at hsender ⊢
    have hvalue' := (Variable.hasType_inlined hvalue hsender).enters htype
    rcases Variable.inlined_eq hvalue with rfl | ⟨o, -, rfl⟩ <;> exact hvalue'

/-- What stands at a port of a typed graph has the type of the port. -/
theorem WellTyped.suits_operandAt (hg : g.WellTyped) (h : g.compile reserved = .ok p)
    (hk : g.flow.order[k]? = some id) (hc : g.node? id = some (.command id c)) {q : Port}
    (hq : q ∈ c.inputPorts)
    (hsender : (g.operandAt p k id q.id).usesSender = true → p.usesSender = true) :
    (g.operandAt p k id q.id).Suits p.usesSender p.vars q.typeOrUnknown := by
  have habsent : Operand.absent.Suits p.usesSender p.vars q.typeOrUnknown :=
    Operand.hasType_absent _ _
  cases he : g.incoming? id q.id with
  | none => simpa only [operandAt, he] using habsent
  | some e =>
    obtain ⟨n, r, hn, hr, hport, -, hflows⟩ := source_of_incoming hg.issues hc hq he
    cases n with
    | var v =>
      obtain rfl := List.mem_singleton.mp hr
      have hsource : v.type.isConcrete = true :=
        hg.varTypes v (List.mem_filterMap.mpr ⟨.var v, mem_of_node? hn, rfl⟩)
      have htarget := hg.inputTypes (mem_active hk hc) q hq
      exact hg.suits_variable h (List.mem_of_getElem? hk) he hn hport.symm
        (DataType.enters_of_flowsInto hsource htarget hflows) hsender
    | command id' c' =>
      simp only [operandAt, he, carried, hn]
      cases hname : g.result? p k id' e.sourceHandle c' with
      | none => exact habsent
      | some name => exact suits_result h hname _ _
    | start id' => simpa only [operandAt, he, carried, hn] using habsent
    | finish id' => simpa only [operandAt, he, carried, hn] using habsent

/-- A type argument of a typed graph is the name of a text. -/
theorem WellTyped.namesType_operandAt (hg : g.WellTyped) (h : g.compile reserved = .ok p)
    (hk : g.flow.order[k]? = some id) (hc : g.node? id = some (.command id c)) {q : Port}
    (hq : q ∈ c.typeArgs) : (g.operandAt p k id q.id).NamesType p.vars := by
  have hin : q ∈ c.inputPorts := by
    cases c with
    | moveCall call => exact List.mem_append_left _ hq
    | _ => cases hq
  obtain ⟨text, htext, hblank⟩ := hg.typeArgs _ (mem_active hk hc) q hq
  obtain ⟨e, he, htext⟩ := Option.bind_eq_some_iff.mp htext
  obtain ⟨v, hv, htext⟩ := Option.bind_eq_some_iff.mp htext
  obtain ⟨n, hn, hv⟩ := Option.bind_eq_some_iff.mp hv
  cases n with
  | var w =>
    cases hv
    split at htext
    case isFalse => cases htext
    case isTrue hstring =>
      obtain ⟨j, hj, rfl⟩ := Option.map_eq_some_iff.mp htext
      obtain ⟨n, r, hn', hr, hport, -⟩ := source_of_incoming hg.issues hc hin he
      rw [hn] at hn'
      cases hn'
      obtain rfl := List.mem_singleton.mp hr
      have hnamed : v.inlined = .ok none := by
        simp only [Variable.inlined, hstring]
        rfl
      obtain ⟨name, -, hmem, heq⟩ := operandAt_named (k := k) he (nodup_of_issues hg.issues) h
        (List.mem_of_getElem? hk) hn hport.symm hnamed
      refine ⟨_, hmem, heq, ?_⟩
      simp only [Variable.initial, hj, hstring]
      cases j with
      | null => trivial
      | _ => exact hblank
  | _ => cases hv

end Operands

end Graph

/-! ## Typed programs -/

namespace Compile

section

variable {g : Graph} {id : String} {s : Scope} {signed : Bool} {vars : List Binding}
variable {group : String}

theorem suits_inputs {types : List DataType}
    (h : ∀ q ∈ Command.numbered Port.ioIn group types,
      (s.input g id q.id).Suits signed vars q.typeOrUnknown) {i : Nat} {type : DataType}
    (hi : types[i]? = some type) :
    (s.input g id (Command.indexed group i)).Suits signed vars type :=
  h (.ioIn (Command.indexed group i) type)
    (List.mem_map.mpr ⟨(type, i), List.mem_zipIdx_iff_getElem?.mpr hi, rfl⟩)

theorem suits_replicate {count : Nat} {type : DataType}
    (h : ∀ q ∈ Command.numbered Port.ioIn group (List.replicate count type),
      (s.input g id q.id).Suits signed vars q.typeOrUnknown) :
    ∀ value ∈ s.inputs g id group count, value.Suits signed vars type := by
  intro value hvalue
  obtain ⟨i, hi, rfl⟩ := List.mem_map.mp hvalue
  refine suits_inputs h ?_
  rw [List.getElem?_replicate, if_pos (List.mem_range.mp hi)]

theorem suits_group {expanded : Bool} {vector : String} {count : Nat} {elem : DataType}
    (h : ∀ q ∈ Command.groupPorts expanded group vector count elem,
      (s.input g id q.id).Suits signed vars q.typeOrUnknown) :
    (s.group g id expanded group vector count).Suits signed vars elem := by
  cases expanded with
  | true => exact suits_replicate h
  | false => exact h _ List.mem_cons_self

/-- A command whose inputs have the types of the ports becomes a typed operation. -/
theorem wellTyped_operation {c : Command}
    (hports : ∀ q ∈ c.inputPorts, (s.input g id q.id).Suits signed vars q.typeOrUnknown)
    (htypeArgs : ∀ q ∈ c.typeArgs, (s.input g id q.id).NamesType vars)
    (hout : ∀ q ∈ c.outputPorts, q.typeOrUnknown.isConcrete = true) :
    (operation g id c s).1.WellTyped signed vars := by
  cases c with
  | splitCoins amounts =>
    obtain ⟨hcoin, hamounts⟩ := List.forall_mem_cons.mp hports
    exact ⟨hcoin, suits_replicate hamounts⟩
  | mergeCoins =>
    obtain ⟨hdestination, hsources⟩ := List.forall_mem_cons.mp hports
    exact ⟨hdestination, suits_group hsources⟩
  | transferObjects =>
    obtain ⟨hobjects, hrecipient⟩ := List.forall_mem_append.mp hports
    exact ⟨suits_group hobjects, hrecipient _ List.mem_cons_self⟩
  | makeMoveVec elem =>
    have hconcrete : elem.isConcrete = true := hout _ List.mem_cons_self
    refine ⟨elem, rfl, ?_, suits_group hports⟩
    cases hobjects : elem.holdsObjects with
    | true => exact .inr (DataType.ofType_of_holdsObjects hconcrete hobjects)
    | false => exact .inl (DataType.solid_of_not_holdsObjects hconcrete hobjects)
  | moveCall call =>
    obtain ⟨-, hargs⟩ := List.forall_mem_append.mp hports
    refine ⟨fun value hvalue => ?_, fun arg harg => ?_⟩
    · obtain ⟨i, hi, rfl⟩ := List.mem_map.mp hvalue
      have hid : Command.indexed Command.typeArgIn i ∈
          (Command.typeArgPorts call.typeParams).map Port.id := by
        rw [Command.map_id_typeArgPorts]
        exact List.mem_map_of_mem hi
      obtain ⟨q, hq, hid⟩ := List.mem_map.mp hid
      exact hid ▸ htypeArgs q hq
    · obtain ⟨⟨type, i⟩, hi, rfl⟩ := List.mem_map.mp harg
      exact ⟨type, rfl, suits_inputs hargs (List.mem_zipIdx_iff_getElem?.mp hi)⟩
  | publish => trivial
  | upgrade => exact hports _ List.mem_cons_self

end

end Compile

namespace Graph

variable {g : Graph} {reserved : List String} {p : Program}

/-- Every operation of the program of a typed graph is typed. -/
theorem WellTyped.wellTyped_ops (hg : g.WellTyped) (h : g.compile reserved = .ok p) :
    ∀ op ∈ p.ops, op.WellTyped p.usesSender p.vars := by
  intro op hop
  obtain ⟨k, hk⟩ := List.mem_iff_getElem?.mp hop
  have hlt : k < g.flow.order.length := length_ops h ▸ (List.getElem?_eq_some_iff.mp hk).1
  have hid := List.getElem?_eq_getElem hlt
  obtain ⟨c, op', s, s', hc, hop', hcompiled, hinput⟩ :=
    compile_operation (nodup_of_issues hg.issues) h hid
  rw [hk] at hop'
  cases hop'
  have hemits := Compile.Emits.of_eq hcompiled
  have hsender : ∀ q ∈ c.inputPorts,
      (g.operandAt p k g.flow.order[k] q.id).usesSender = true → p.usesSender = true := by
    intro q hq huses
    have hmem : g.operandAt p k g.flow.order[k] q.id ∈ op.operands := by
      rw [hemits.operands, ← hinput, List.map_map]
      exact List.mem_map.mpr ⟨q, hq, rfl⟩
    refine Bool.or_eq_true_iff.mpr (.inr (List.any_eq_true.mpr ⟨_, ?_, huses⟩))
    exact List.mem_flatMap.mpr ⟨op, hop, hmem⟩
  have hop : op = (Compile.operation g g.flow.order[k] c s).1 := by rw [hcompiled]
  rw [hop]
  refine Compile.wellTyped_operation (fun q hq => ?_) (fun q hq => ?_)
    (hg.outputTypes (mem_active hid hc))
  · rw [hinput]
    exact hg.suits_operandAt h hid hc hq (hsender q hq)
  · rw [hinput]
    exact hg.namesType_operandAt h hid hc hq

end Graph

/-- **Typed graphs do not go wrong.** The program of a typed graph becomes a transaction, unless a
value is missing, is not one of its type or has no room, or the options lack a good sender. No
operand has the wrong shape, no name is missing, and no value is encoded at the kind of another. -/
theorem compile_typeSafe {g : Graph} {reserved : List String} {p : Program} (hg : g.WellTyped)
    (h : g.compile reserved = .ok p) (options : ExecOptions) :
    (∃ t, Transaction.ofProgram p options = .ok t) ∨
      ∃ e, Transaction.ofProgram p options = .error e ∧ e.IsOfValues := by
  have hends : Ends Lowering.OfValues (fun _ => True) (Transaction.ofProgram p options) := by
    unfold Transaction.ofProgram
    split
    case isTrue => exact .error (e := LowerError.missingSender) fun _ => trivial
    case isFalse hsender =>
      have hsender : p.usesSender = true → options.sender.isSome := by
        simpa [Option.isSome_iff_ne_none, imp_not_comm] using hsender
      have hrun := Lowering.run_typed Lowering.builder_tame hsender
        (Program.wellScoped_of_compile h).distinct (hg.wellTyped_ops h) Transaction.Builder.empty
      exact .bind hrun fun b _ =>
        .bind (Lowering.configure_ends (fun _ _ => trivial) b options) fun _ _ => .ok trivial
  have hresolved := (Lowering.ofProgram_resolved h options).1
  cases hresult : Transaction.ofProgram p options with
  | ok t => exact .inl ⟨t, rfl⟩
  | error e =>
    rw [hresult] at hends hresolved
    exact .inr ⟨e, rfl, hends.of_error hresolved.of_error⟩

/-- A parcel is packed from boxes for the sender. Its number does not fit the width to which it is
narrowed, which shows only when it is encoded. -/
def parcel : Graph where
  nodes := [.start "s", .finish "e", .var ⟨"n", "amount", .number, some (.str "300")⟩,
    .var ⟨"t", "type", .string, some (.str " 0x2::sui::SUI ")⟩,
    .var ⟨"o", "boxes", .vector (.vector .anyObject), some (.arr [.arr [.str "0xa", .str "0xb"]])⟩,
    .var ⟨"me", "sender", .address, none⟩,
    .command "v" (.makeMoveVec (.integer .u8) 2 true),
    .command "c" (.moveCall ⟨"0x2", "shop", "pack", ["T"],
      [.vector (.integer .u8), .vector (.vector (.objectOf "0x2::shop::Box")), .address],
      [.objectOf "0x2::shop::Parcel"]⟩),
    .command "x" (.transferObjects 1 true)]
  edges := [.flow "s" "v", .flow "v" "c", .flow "c" "x", .flow "x" "e",
    .io "n" "out" "v" "in_elem_0" (some .u8), .io "n" "out" "v" "in_elem_1" (some .u8),
    .io "t" "out" "c" "in_targ_0" none, .io "v" "out_vector" "c" "in_arg_0" none,
    .io "o" "out" "c" "in_arg_1" none, .io "me" "out" "c" "in_arg_2" none,
    .io "c" "out_ret_0" "x" "in_object_0" none, .io "me" "out" "x" "in_recipient" none]

def parcelProgram : Program where
  vars := [⟨"amount", .constant (.number "300")⟩, ⟨"type_2", .constant (.string " 0x2::sui::SUI ")⟩,
    ⟨"boxes", .vector [.vector [.object (.byId "0xa"), .object (.byId "0xb")]]⟩]
  ops := [.makeMoveVec (some "u8") (.each [.ref "amount", .ref "amount"]) "items",
    .moveCall "0x2" "shop" "pack" [.ref "type_2"]
      [⟨.ref "items", .vector (.integer .u8)⟩, ⟨.ref "boxes", .handle⟩,
        ⟨.constant .sender, .address⟩] ["pack_result"],
    .transferObjects (.each [.ref "pack_result"]) (.constant .sender)]

theorem compile_typeSafe_parcel :
    parcel.WellTyped ∧ parcel.compile [] = .ok parcelProgram ∧ ∀ options,
      (∃ t, Transaction.ofProgram parcelProgram options = .ok t) ∨
        ∃ e, Transaction.ofProgram parcelProgram options = .error e ∧ e.IsOfValues := by
  have hg : parcel.WellTyped := ⟨by decide +kernel, by decide +kernel, by decide +kernel,
    by decide +kernel, by decide +kernel⟩
  have h : parcel.compile [] = .ok parcelProgram := by decide +kernel
  exact ⟨hg, h, compile_typeSafe hg h⟩

end TxGraph
