import TxGraph.Proofs.Lowering.Layers
import TxGraph.Proofs.Lowering.Scope

/-!
# Lowering typed programs

A typed operand resolves to something of its type: an object to a handle, a vector to a list or a
literal, anything else to a literal that is encoded at the kind of the type. So the lowering of
typed operations fails for the values in them and for the options, never for the way they are put
together.
-/

namespace TxGraph

/-! ## Errors -/

/-- The error says that a value is not one of its type, or that there is no room for it. -/
def EncodeError.IsOfValues : EncodeError → Prop
  | invalidNumber _ _ => True
  | invalidAddress _ => True
  | kindNotPure _ => True
  | typeNotPure _ => True
  | emptyVector => True
  | tooMany _ => True
  | _ => False

def Refusal.IsOfValues : Refusal → Prop
  | encode cause => cause.IsOfValues
  | uncut _ => False

/-- The error comes from a value, one that is missing included, or from the options. -/
def LowerError.IsOfValues : LowerError → Prop
  | undefinedOperand _ _ => True
  | missingSender => True
  | invalidSender _ => True
  | encode _ cause => cause.IsOfValues
  | _ => False

/-! ## Types of values -/

/-- Literals of a type. A placeholder of the sender is an address where a sender is known, which
`signed` says. -/
def Literal.HasType (signed : Bool) : DataType → Literal → Prop
  | .scalar .bool, .bool _ => True
  | .scalar .string, .string _ => True
  | .scalar .address, .address _ => True
  | .scalar .address, .sender => signed = true
  | .scalar .number, .number _ => True
  | .integer _, .number _ => True
  | .integer _, .integer _ _ => True
  | .vector elem, .list items =>
    (ParamKind.ofType elem).Solid ∧ ∀ item ∈ items, HasType signed elem item
  | _, _ => False

/-- A handle may have any type; its type is settled where it comes from. -/
def Lowering.Resolved.HasType {η : Type} (signed : Bool) : DataType → Resolved η → Prop
  | _, .handle _ => True
  | type, .literal value => value.HasType signed type
  | .vector elem, .list items => ∀ item ∈ items, HasType signed elem item
  | _, .list _ => False

/-- Operands without references of a type. An empty vector is a literal, so its elements must be
such that they are encoded. -/
def Operand.HasType (signed : Bool) : DataType → Operand → Prop
  | _, .absent => True
  | .object _, .object _ => True
  | .vector elem, .vector items =>
    (items = [] → (ParamKind.ofType elem).Solid) ∧ ∀ item ∈ items, HasType signed elem item
  | type, .constant k => (Lowering.constantLiteral k).HasType signed type
  | type, .integer width digits => (Literal.integer width digits).HasType signed type
  | _, _ => False

/-- What stands at a port of a type. A reference to a variable stands for its value, any other for
a handle. -/
def Operand.Suits (signed : Bool) (vars : List Binding) (type : DataType) : Operand → Prop
  | .ref name => ∀ v ∈ vars, v.name = name → v.init.HasType signed type
  | value => value.HasType signed type

/-- Whether a value is a type argument where it is given at all. -/
def Operand.IsTypeName : Operand → Prop
  | .absent => True
  | .constant (.string s) => (Text.trim s).isEmpty = false
  | _ => False

/-- What stands at a port of a type argument. -/
def Operand.NamesType (vars : List Binding) (value : Operand) : Prop :=
  ∃ v ∈ vars, value = .ref v.name ∧ v.init.IsTypeName

def Group.Suits (signed : Bool) (vars : List Binding) (elem : DataType) : Group → Prop
  | .each values => ∀ value ∈ values, value.Suits signed vars elem
  | .packed value => value.Suits signed vars (.vector elem)

/-- Every operand of the operation has the type that the operation asks for. -/
def Operation.WellTyped (signed : Bool) (vars : List Binding) : Operation → Prop
  | .splitCoins coin amounts _ => coin.Suits signed vars .anyObject ∧
    ∀ amount ∈ amounts, amount.Suits signed vars (.integer .u64)
  | .mergeCoins destination sources =>
    destination.Suits signed vars .anyObject ∧ sources.Suits signed vars .anyObject
  | .transferObjects objects recipient =>
    objects.Suits signed vars .anyObject ∧ recipient.Suits signed vars .address
  | .makeMoveVec elem elems _ => ∃ type : DataType, elem = type.moveSpelling? ∧
    ((ParamKind.ofType type).Solid ∨ ParamKind.ofType type = .handle) ∧
    elems.Suits signed vars type
  | .moveCall _ _ _ typeArgs args _ => (∀ value ∈ typeArgs, value.NamesType vars) ∧
    ∀ arg ∈ args, ∃ type, arg.kind = .ofType type ∧ arg.value.Suits signed vars type
  | .publish .. => True
  | .upgrade _ _ _ ticket _ => ticket.Suits signed vars (.objectOf Command.upgradeTicketTag)

/-! ## Literals -/

namespace Literal

variable {signed : Bool}

theorem HasType.solid : {type : DataType} → {value : Literal} → value.HasType signed type →
    (ParamKind.ofType type).Solid
  | .scalar kind, value, h => by cases kind <;> trivial
  | .integer _, _, _ => trivial
  | .vector elem, value, h => by
    cases value with
    | list items =>
      rw [ParamKind.ofType, ParamKind.vectorOf_of_solid h.1]
      exact h.1
    | _ => cases h
  | .object _, value, h => by cases value <;> cases h
  | .tuple _, value, h => by cases value <;> cases h
  | .typeParam _, value, h => by cases value <;> cases h
  | .unknown, value, h => by cases value <;> cases h

theorem HasType.withSender (s : String) : {type : DataType} → {value : Literal} →
    value.HasType signed type → (value.withSender s).HasType false type
  | .scalar kind, value, h => by cases kind <;> cases value <;> trivial
  | .integer _, value, h => by cases value <;> trivial
  | .vector elem, value, h => by
    cases value with
    | list items =>
      refine ⟨h.1, ?_⟩
      rw [withSenderAll_eq_map]
      intro item hitem
      obtain ⟨original, horiginal, rfl⟩ := List.mem_map.mp hitem
      exact (h.2 original horiginal).withSender s
    | _ => cases h
  | .object _, value, h => by cases value <;> cases h
  | .tuple _, value, h => by cases value <;> cases h
  | .typeParam _, value, h => by cases value <;> cases h
  | .unknown, value, h => by cases value <;> cases h

end Literal

namespace PureValue

theorem encodeNumber_ends (width : Width) (text : String) :
    Ends EncodeError.IsOfValues (fun _ => True) (encodeNumber width text) := by
  rw [encodeNumber_eq]
  split
  · exact .ok trivial
  · exact .error (e := EncodeError.invalidNumber text width) trivial

theorem encodeAddress_ends (text : String) :
    Ends EncodeError.IsOfValues (fun _ => True) (encodeAddress text) := by
  unfold encodeAddress
  split
  · exact .ok trivial
  · exact .error (e := EncodeError.invalidAddress text) trivial

theorem encodeLength_ends (limit length : Nat) :
    Ends EncodeError.IsOfValues (fun _ => True) (encodeLength limit length) := by
  unfold encodeLength
  split
  · exact .ok trivial
  · exact .error (e := EncodeError.typeNotPure _) trivial

/-- A literal of a type is encoded at the kind of the type, unless its text is bad or it is too
long. -/
theorem encodeAs_ends : {type : DataType} → {value : Literal} → value.HasType false type →
    Ends EncodeError.IsOfValues (fun _ => True) (encodeAs (.ofType type) value)
  | .scalar kind, value, h => by
    cases kind <;> cases value <;> cases h
    case bool.bool b => exact .ok trivial
    case string.string s => exact .bind (encodeLength_ends _ _) fun _ _ => .ok trivial
    case address.address s => exact encodeAddress_ends s
    case number.number digits => exact encodeNumber_ends .u64 digits
  | .integer width, value, h => by
    cases value <;> cases h
    case number digits => exact encodeNumber_ends width digits
    case integer _ digits => exact encodeNumber_ends width digits
  | .vector elem, value, h => by
    cases value with
    | list items =>
      obtain ⟨hsolid, hitems⟩ := h
      rw [ParamKind.ofType, ParamKind.vectorOf_of_solid hsolid]
      have hbytes : Ends EncodeError.IsOfValues (fun _ => True)
          (encodeAs.encodeItems (.ofType elem) items) := by
        induction items with
        | nil => exact .ok trivial
        | cons item rest ih =>
          obtain ⟨hitem, hrest⟩ := List.forall_mem_cons.mp hitems
          exact .bind (encodeAs_ends hitem) fun _ _ => .bind (ih hrest) fun _ _ => .ok trivial
      exact .bind (encodeLength_ends _ _) fun _ _ => .bind hbytes fun _ _ => .ok trivial
    | _ => cases h
  | .object _, value, h => by cases value <;> cases h
  | .tuple _, value, h => by cases value <;> cases h
  | .typeParam _, value, h => by cases value <;> cases h
  | .unknown, value, h => by cases value <;> cases h

theorem encode_ends {type : DataType} {value : Literal} (h : value.HasType false type) :
    Ends EncodeError.IsOfValues (fun _ => True) (encode (.ofType type) value) := by
  have hkind : Ends EncodeError.IsOfValues (· = .ofType type)
      (effectiveKind (.ofType type) value) := by
    have hsolid := h.solid
    unfold effectiveKind
    split
    case h_1 hother =>
      rw [hother] at hsolid
      cases hsolid
    case h_2 => exact .ok rfl
  cases value with
  | bytes bs => exact .ok trivial
  | _ =>
    refine .bind hkind fun kind heq => ?_
    rw [heq]
    exact .bind (encodeAs_ends h) fun _ _ => .ok trivial

end PureValue

namespace Lowering

variable {σ η α : Type} {signed : Bool} {vars : List Binding}

/-! ## Targets and environments -/

abbrev Tame (x : Except Refusal (α × σ)) : Prop :=
  Ends Refusal.IsOfValues (fun _ => True) x

/-- The target refuses nothing but values, if literals are given at the kind of a type that they
have. -/
structure TameTarget (T : Target σ η) : Prop extends Refuses Refusal.IsOfValues T where
  pure {type : DataType} {value : Literal} (h : value.HasType false type)
    (symbol : Option String) (s : σ) : Tame (T.pure (.ofType type) value symbol s)

/-- The environment has the values of the variables and no others. -/
def Declares (env : Directory (Entry η)) (vars : List Binding) : Prop :=
  ∀ name value, Directory.get? env name = some (.init value) ↔ ⟨name, value⟩ ∈ vars

theorem declares_initialEnv (h : (vars.map Binding.name).Nodup) :
    Declares (initialEnv (η := η) vars) vars := by
  intro name value
  constructor
  · intro hfound
    obtain ⟨v, hv, rfl, heq⟩ := init_of_initialEnv hfound
    cases heq
    exact hv
  · intro hmem
    exact get?_initialEnv_of_mem h hmem

theorem Declares.bindEnv {env : Directory (Entry η)} (h : Declares env vars) {names : List String}
    (hnames : ∀ name ∈ names, name ∉ vars.map Binding.name) (handles : List η) :
    Declares (bindEnv names handles env) vars := by
  intro name value
  constructor
  · intro hfound
    rcases get?_bindEnv hfound with hold | ⟨_, _, -, -, heq⟩
    · exact (h name value).mp hold
    · cases heq
  · intro hmem
    rw [get?_bindEnv_of_notMem fun hname =>
      hnames name (List.mem_of_mem_take hname) (List.mem_map_of_mem hmem)]
    exact (h name value).mpr hmem

/-- An error that does not miss a name comes from a value. -/
def OfValues (e : LowerError) : Prop :=
  IsResolved e → e.IsOfValues

theorem ofValues_report (site : Site) (e : Refusal) (h : e.IsOfValues) :
    OfValues (e.report site) := by
  cases e with
  | encode cause => exact fun _ => h
  | uncut cause => cases h

/-! ## Resolved values -/

namespace Resolved

theorem hasType_vector {elem : DataType} {items : List (Resolved η)}
    (hempty : items = [] → (ParamKind.ofType elem).Solid)
    (hitems : ∀ item ∈ items, item.HasType signed elem) :
    (Resolved.vector items).HasType signed (.vector elem) := by
  unfold Resolved.vector
  split
  case h_2 => simpa [HasType] using hitems
  case h_1 ls hls =>
    obtain rfl := literals?_eq_some hls
    have htyped : ∀ l ∈ ls, l.HasType signed elem := fun l hl =>
      by simpa [HasType] using hitems (.literal l) (List.mem_map_of_mem hl)
    refine ⟨?_, htyped⟩
    cases ls with
    | nil => exact hempty rfl
    | cons l rest => exact (htyped l List.mem_cons_self).solid

end Resolved

/-! ## Operands -/

section Operands

variable (c : Context σ η) {env : Directory (Entry η)}

theorem resolveWith_typed (hT : TameTarget c.target)
    {expand : String → Operand → WalkM σ η (Resolved η)} (slot : Slot) :
    (symbol : Option String) → (type : DataType) → (value : Operand) →
    value.HasType signed type → Quiet OfValues env (c.resolveWith expand slot symbol value)
      fun found => found.HasType signed type
  | _, _, .absent, _ => .throw fun _ => trivial
  | _, type, .ref name, h => by cases type <;> cases h
  | _, type, .constant k, h => .pure (by cases type <;> exact h)
  | _, type, .integer width digits, h => .pure (by cases type <;> exact h)
  | symbol, type, .object o, h =>
    .bind (.call c fun s => (hT.object o symbol s).mono_error (ofValues_report c.site))
      fun _ _ => .pure (by cases type <;> trivial)
  | _, type, .vector items, h => by
    cases type with
    | vector elem =>
      exact .bind (items_typed elem items h.2) fun found ⟨hlen, hfound⟩ => .pure <|
        Resolved.hasType_vector (fun hnil => h.1 (by simpa [hnil] using hlen)) hfound
    | _ => cases h
where
  items_typed (elem : DataType) : (items : List Operand) →
      (∀ item ∈ items, item.HasType signed elem) →
      Quiet OfValues env (Context.resolveWith.resolveItems c expand slot items) fun found =>
        items.length = found.length ∧ ∀ item ∈ found, item.HasType signed elem
    | [], _ => .pure ⟨rfl, nofun⟩
    | item :: rest, h =>
      .bind (resolveWith_typed hT slot none elem item (h item List.mem_cons_self)) fun _ hitem =>
        .bind (items_typed elem rest fun other hother => h other (List.mem_cons_of_mem _ hother))
          fun _ ⟨hlen, hrest⟩ =>
            .pure ⟨by simp [hlen], List.forall_mem_cons.mpr ⟨hitem, hrest⟩⟩

theorem resolve_ref (hdeclares : Declares env vars) (hdepth : vars.length ≤ c.depth) (slot : Slot)
    {name : String} {post : Resolved η → Prop}
    (hbound : ∀ handle, Directory.get? env name = some (.bound handle) → post (.handle handle))
    (hinit : ∀ v ∈ vars, v.name = name → ∀ expand,
      Quiet OfValues env (c.resolveWith expand slot (some name) v.init) post) :
    Quiet OfValues env (c.resolve slot (.ref name)) post := by
  have hstep {expand : String → Operand → WalkM σ η (Resolved η)}
      (hexpand : ∀ v ∈ vars, v.name = name → Quiet OfValues env (expand name v.init) post) :
      Quiet OfValues env (c.resolveWith expand slot (some name) (.ref name)) post :=
    ref_quiet c (.inl False.elim) hbound
      (fun value hvalue => hexpand _ ((hdeclares name value).mp hvalue) rfl) slot _
  unfold Context.resolve
  cases hd : c.depth with
  | zero =>
    have hnil : vars = [] := List.eq_nil_of_length_eq_zero (by omega)
    exact hstep (by simp [hnil])
  | succ depth =>
    refine hstep fun v hv hname => ?_
    cases depth <;> exact hinit v hv hname _

theorem resolve_typed (hT : TameTarget c.target) (hdeclares : Declares env vars)
    (hdepth : vars.length ≤ c.depth) (slot : Slot) {type : DataType} {value : Operand}
    (h : value.Suits signed vars type) :
    Quiet OfValues env (c.resolve slot value) fun found => found.HasType signed type := by
  have hclosed (expand : String → Operand → WalkM σ η (Resolved η)) {symbol : Option String}
      {value : Operand} (hvalue : value.HasType signed type) :
      Quiet OfValues env (c.resolveWith expand slot symbol value) fun found =>
        found.HasType signed type :=
    resolveWith_typed c hT slot symbol type value hvalue
  cases value with
  | ref name =>
    refine resolve_ref c hdeclares hdepth slot (fun _ _ => by cases type <;> trivial)
      fun v hv hname expand => hclosed expand (h v hv hname)
  | _ =>
    unfold Context.resolve
    cases c.depth <;> exact hclosed _ h

/-- The kind at which values of the type are encoded. Objects never are, so any kind is theirs. -/
def Serves (kind : ParamKind) (type : DataType) : Prop :=
  ParamKind.ofType type = .handle ∨ kind = .ofType type

theorem Serves.eq_of_literal {kind : ParamKind} {type : DataType} {value : Literal}
    (h : Serves kind type) (hvalue : value.HasType signed type) : kind = .ofType type := by
  refine h.resolve_left fun hhandle => ?_
  have hsolid := hvalue.solid
  rw [hhandle] at hsolid
  exact hsolid

theorem Serves.elem {kind : ParamKind} {elem : DataType} (h : Serves kind (.vector elem)) :
    Serves (Context.elemKind kind) elem := by
  rcases h with h | rfl
  · left
    rw [ParamKind.ofType] at h
    cases hkind : ParamKind.ofType elem <;> rw [hkind, ParamKind.vectorOf] at h
    all_goals first | rfl | cases h
  · rcases ParamKind.declared_ofType elem with hkind | hkind | hkind
    · exact .inl hkind
    · right
      rw [ParamKind.ofType, hkind, ParamKind.vectorOf, Context.elemKind]
      rintro _ ⟨⟩
    · right
      rw [ParamKind.ofType, ParamKind.vectorOf_of_solid hkind, Context.elemKind]

theorem resolve_typeName (hdeclares : Declares env vars) (hdepth : vars.length ≤ c.depth)
    (slot : Slot) {value : Operand} (h : value.NamesType vars) :
    Quiet OfValues env (c.resolve slot value) fun found =>
      ∃ s, found = .literal (.string s) ∧ (Text.trim s).isEmpty = false := by
  obtain ⟨v, hv, rfl, hinit⟩ := h
  have hentry := (hdeclares v.name v.init).mpr hv
  refine resolve_ref c hdeclares hdepth slot (fun handle hbound => ?_) fun w hw hname => ?_
  · rw [hentry] at hbound
    cases hbound
  · -- the environment has one value for the name
    have hsame : w.init = v.init := by
      have := (hdeclares w.name w.init).mpr hw
      rw [hname, hentry] at this
      exact (Entry.init.inj (Option.some.inj this)).symm
    rw [hsame]
    cases hvalue : v.init <;> rw [hvalue] at hinit
    case absent => exact fun _ => .throw fun _ => trivial
    case constant k =>
      cases k with
      | string s => exact fun _ => .pure ⟨s, rfl, hinit⟩
      | _ => cases hinit
    all_goals cases hinit

end Operands

/-! ## Operations -/

/-- The elements of a vector are encoded at the kind of their type, which is read off its
spelling. -/
theorem serves_vectorElemKind {type : DataType}
    (h : (ParamKind.ofType type).Solid ∨ ParamKind.ofType type = .handle) :
    Serves (Context.vectorElemKind type.moveSpelling?) type := by
  rcases h with hsolid | hhandle
  · right
    rw [ParamKind.moveSpelling?_of_solid hsolid, Context.vectorElemKind_pureType hsolid]
  · exact .inl hhandle

/-- The walk fails for values only. The values that it uses at a kind have a type of the kind. -/
def typed (η : Type) (signed : Bool) : Manner η where
  raised := OfValues
  refused := Refusal.IsOfValues
  fits kind value := ∃ type, value.HasType signed type ∧ Serves kind type

theorem typed_met {c : Context σ η} (hT : TameTarget c.target)
    (hsender : signed = true → c.sender.isSome) : (typed η signed).Met c where
  refuses := hT.toRefuses
  reports := ofValues_report c.site
  items := by
    rintro kind items ⟨type, h, hkind⟩
    cases type with
    | vector elem => exact fun item hitem => ⟨elem, h item hitem, hkind.elem⟩
    | _ => cases h
  noHandle := by
    rintro l ⟨type, h, hkind⟩
    have hl : l.HasType signed type := by cases type <;> exact h
    have hsolid := hl.solid
    rw [← hkind.eq_of_literal hl] at hsolid
    cases hsolid
  literal := by
    rintro kind l ⟨type, h, hkind⟩ symbol s
    have hl : l.HasType signed type := by cases type <;> exact h
    rw [hkind.eq_of_literal hl]
    refine hT.pure ?_ symbol s
    cases hs : c.sender with
    | some address => exact hl.withSender address
    | none =>
      cases signed with
      | false => exact hl
      | true => simp [hs] at hsender

inductive Use.Typed (signed : Bool) (vars : List Binding) : Use → Operand → Prop
  | handle {tag : Option String} {value : Operand} (h : value.Suits signed vars (.object tag)) :
    Typed signed vars .handle value
  | value {kind : ParamKind} {type : DataType} {value : Operand} (hkind : Serves kind type)
    (h : value.Suits signed vars type) : Typed signed vars (.value kind) value
  | vector {kind : ParamKind} {type : DataType} {value : Operand} (hkind : Serves kind type)
    (h : value.Suits signed vars (.vector type)) : Typed signed vars (.vector kind) value
  | typeName {value : Operand} (h : value.NamesType vars) : Typed signed vars .typeName value

theorem Use.typed_of_group {kind : ParamKind} {type : DataType} (hkind : Serves kind type)
    {g : Group} (h : g.Suits signed vars type) :
    ∀ u ∈ uses kind g, Use.Typed signed vars u.1 u.2 := by
  cases g with
  | each values => exact List.forall_mem_map.mpr fun v hv => .value hkind (h v hv)
  | packed value => exact List.forall_mem_singleton.mpr (.vector hkind h)

theorem Use.typed_of_wellTyped {op : Operation} (h : op.WellTyped signed vars) :
    ∀ u ∈ Use.all op, Use.Typed signed vars u.1 u.2 := by
  have hobject : Serves .handle .anyObject := .inl rfl
  cases op with
  | splitCoins =>
    refine List.forall_mem_cons.mpr ⟨.handle h.1, List.forall_mem_map.mpr fun v hv => ?_⟩
    exact .value (.inr rfl) (h.2 v hv)
  | mergeCoins =>
    exact List.forall_mem_cons.mpr ⟨.handle h.1, typed_of_group hobject h.2⟩
  | transferObjects =>
    refine List.forall_mem_append.mpr ⟨typed_of_group hobject h.1, ?_⟩
    exact List.forall_mem_singleton.mpr (.value (.inr rfl) h.2)
  | makeMoveVec =>
    obtain ⟨type, rfl, hkind, helems⟩ := h
    exact typed_of_group (serves_vectorElemKind hkind) helems
  | moveCall =>
    refine List.forall_mem_append.mpr ⟨List.forall_mem_map.mpr fun v hv => .typeName (h.1 v hv), ?_⟩
    refine List.forall_mem_map.mpr fun arg harg => ?_
    obtain ⟨type, hkind, harg⟩ := h.2 arg harg
    exact .value (.inr hkind) harg
  | publish => exact List.forall_mem_nil _
  | upgrade =>
    exact List.forall_mem_singleton.mpr (.handle h)

theorem Use.Typed.resolve {use : Use} {value : Operand} (h : use.Typed signed vars value)
    (c : Context σ η) {env : Directory (Entry η)} (hT : TameTarget c.target)
    (hdeclares : Declares env vars) (hdepth : vars.length ≤ c.depth) (slot : Slot) :
    Quiet OfValues env (c.resolve slot value)
      (Lockstep.asks OfValues (typed η signed).fits c.site use) := by
  cases h with
  | handle h =>
    refine (resolve_typed c hT hdeclares hdepth slot h).mono fun found hfound => ?_
    cases found with
    | handle a => exact .inl ⟨a, rfl⟩
    | literal l => cases l <;> cases hfound
    | list _ => cases hfound
  | @value _ type _ hkind h =>
    exact (resolve_typed c hT hdeclares hdepth slot h).mono fun _ hfound => ⟨type, hfound, hkind⟩
  | @vector _ type _ hkind h =>
    refine (resolve_typed c hT hdeclares hdepth slot h).mono fun found hfound => ?_
    cases found with
    | handle _ => trivial
    | list items => exact fun item hitem => ⟨type, hfound item hitem, hkind⟩
    | literal l =>
      cases l with
      | list items =>
        refine fun item hitem => ⟨type, ?_, hkind⟩
        cases type <;> exact hfound.2 item hitem
      | _ => cases hfound
  | typeName h => exact (resolve_typeName c hdeclares hdepth slot h).mono fun _ => .inl

/-- Lowering a typed program fails for a value only, unless it misses a name. -/
theorem run_typed {T : Target σ η} (hT : TameTarget T) {sender : Option String} {p : Program}
    (hsender : p.usesSender = true → sender.isSome) (hnames : p.symbols.Nodup)
    (hops : ∀ op ∈ p.ops, op.WellTyped p.usesSender p.vars) (start : σ) :
    Ends OfValues (fun _ => True) (run T sender p start) := by
  obtain ⟨hvars, -, hdisjoint⟩ := List.nodup_append.mp hnames
  have hmet (site : Site) : (typed η p.usesSender).Met
      (⟨T, site, sender, p.vars.length⟩ : Context σ η) := typed_met hT hsender
  have hrun := Manner.operations_follow hmet p.vars.length (fun ops env => Declares env p.vars ∧
      ∀ op ∈ ops, op.WellTyped p.usesSender p.vars ∧
        ∀ name ∈ op.outputs, name ∉ p.vars.map Binding.name) ?_ ?_ 0 p.ops
    (w := ⟨start, initialEnv p.vars, []⟩) ⟨declares_initialEnv hvars, fun op hop => ⟨hops op hop, ?_⟩⟩
  · exact Ends.bind hrun.2 fun _ _ => .ok trivial
  · rintro site op rest env ⟨hdeclares, hops⟩ u hu slot
    have huse := Use.typed_of_wellTyped (List.forall_mem_cons.mp hops).1.1 u hu
    exact ⟨huse.resolve _ hT hdeclares le_rfl slot, fun _ _ => .refl _⟩
  · rintro op rest env handles ⟨hdeclares, hops⟩ -
    obtain ⟨⟨-, hop⟩, hrest⟩ := List.forall_mem_cons.mp hops
    exact ⟨hdeclares.bindEnv hop handles, hrest⟩
  · exact fun name hname hvar =>
      hdisjoint name hvar name (List.mem_flatMap.mpr ⟨op, hop, hname⟩) rfl

/-! ## The builder -/

section Builder

open Transaction Builder

theorem tame_ite {p : Prop} [Decidable p] {x : Except Refusal (α × σ)} (h : Tame x)
    (what : Limited) : Tame (if p then x else .error (.encode (.tooMany what))) := by
  split
  · exact h
  · exact .error (e := Refusal.encode (.tooMany what)) trivial

theorem pushInput_tame (input : TxInput) (b : Builder) : Tame (asTarget (pushInput input) b) := by
  rw [asTarget_pushInput]
  exact tame_ite (.ok trivial) _

theorem addObject_tame (id : String) (b : Builder) : Tame (asTarget (addObject id) b) := by
  have hfull : Ends EncodeError.IsOfValues (fun _ => True) (fullAddress id) :=
    .bind (PureValue.encodeAddress_ends id) fun _ _ => .ok trivial
  rw [asTarget_addObject]
  cases h : fullAddress id with
  | error cause =>
    have hcause := (h ▸ hfull).of_error
    exact .error (e := Refusal.encode cause) hcause
  | ok full =>
    dsimp only
    split
    · exact .ok trivial
    · exact pushInput_tame _ b

theorem objectRef_tame (o : ObjectRef) (b : Builder) : Tame (asTarget (objectRef o) b) := by
  cases o with
  | gas =>
    rw [objectRef, asTarget_pure]
    exact .ok trivial
  | byId id => exact addObject_tame id b
  | system => exact addObject_tame "0x5" b
  | clock => exact addObject_tame "0x6" b
  | random => exact addObject_tame "0x8" b

theorem literal_tame {type : DataType} {value : Literal} (h : value.HasType false type)
    (b : Builder) : Tame (asTarget (literal (.ofType type) value) b) := by
  have hencode := PureValue.encode_ends h
  rw [asTarget_literal]
  cases hv : PureValue.encode (.ofType type) value with
  | error cause =>
    have hcause := (hv ▸ hencode).of_error
    exact .error (e := Refusal.encode cause) hcause
  | ok v => exact pushInput_tame _ b

theorem appends_tame {x : BuilderM α} {c : TxCommand} {count : Nat} {answer : UInt16 → α}
    (h : Appends x c count answer) (b : Builder) : Tame (asTarget x b) := by
  rw [h.asTarget]
  exact tame_ite (tame_ite (.ok trivial) _) _

theorem builder_tame : TameTarget Builder.target where
  object o _ b := objectRef_tame o b
  pure h _ b := literal_tame h b
  splitCoins _ _ _ b := appends_tame (appends_pushWithResults _ _) b
  mergeCoins _ _ b := appends_tame (appends_pushOnly _) b
  transferObjects _ _ b := appends_tame (appends_pushOnly _) b
  makeMoveVec _ _ _ b := appends_tame (appends_pushWithResult _) b
  moveCall _ _ _ b := appends_tame (appends_pushWithResults _ _) b
  publish _ _ _ b := appends_tame (appends_pushWithResult _) b
  upgrade _ _ _ _ _ b := appends_tame (appends_pushWithResult _) b

end Builder

end Lowering

end TxGraph
