import TxGraph.Proofs.Lowering.Accounts
import TxGraph.Proofs.Lowering.Placement

/-!
# The class of an argument

A parameter declares how its argument is put on the wire. If its kind is pure, a value without
objects is given to it as an encoding that is recorded with the type of the kind. A value that holds
an object is given as a handle whatever the kind: tags of objects do not count when ports are
joined, so a graph without issues may lead an object to a parameter for an id. `Labelled` says of a
draft that what it remembers is an encoding of the right type.
-/

namespace TxGraph

/-! ## Arguments by class -/

/-- The argument is an encoding that is recorded with the type. -/
def TxArg.Encoded (inputs : List TxInput) (type : Option String) (arg : TxArg) : Prop :=
  ∃ i bs, arg = .input i ∧ inputs[i.toNat]? = some (.pure type bs)

def TxArg.IsHandle (inputs : List TxInput) (arg : TxArg) : Prop :=
  arg = .gasCoin ∨ (∃ i id, arg = .input i ∧ inputs[i.toNat]? = some (.object id)) ∨
    ∃ j, arg = .result j

def Operand.holdsObject : Operand → Bool
  | object _ => true
  | vector items => anyHoldsObject items
  | _ => false
where
  anyHoldsObject : List Operand → Bool
    | [] => false
    | item :: rest => item.holdsObject || anyHoldsObject rest

/-- The argument is that of the operand where a kind is declared: an encoding of the kind, or a
handle. -/
structure Operand.Sent (inputs : List TxInput) (kind : ParamKind) (value : Operand) (arg : TxArg) :
    Prop where
  encoded : value.holdsObject = false → arg.Encoded inputs kind.pureType?
  handle : value.holdsObject = true → arg.IsHandle inputs

section

variable {inputs inputs' : List TxInput} {type : Option String} {arg : TxArg}

theorem TxArg.Encoded.mono (h : arg.Encoded inputs type) (hinputs : inputs <+: inputs') :
    arg.Encoded inputs' type := by
  obtain ⟨i, bs, rfl, hi⟩ := h
  exact ⟨i, bs, rfl, getElem?_mono hinputs hi⟩

theorem TxArg.IsHandle.mono (h : arg.IsHandle inputs) (hinputs : inputs <+: inputs') :
    arg.IsHandle inputs' := by
  rcases h with rfl | ⟨i, id, rfl, hi⟩ | hresult
  · exact .inl rfl
  · exact .inr (.inl ⟨i, id, rfl, getElem?_mono hinputs hi⟩)
  · exact .inr (.inr hresult)

theorem Operand.Sent.mono {kind : ParamKind} {value : Operand} (h : value.Sent inputs kind arg)
    (hinputs : inputs <+: inputs') : value.Sent inputs' kind arg :=
  ⟨fun hobject => (h.encoded hobject).mono hinputs, fun hobject => (h.handle hobject).mono hinputs⟩

theorem TxArg.IsHandle.not_encoded (h : arg.IsHandle inputs) : ¬ arg.Encoded inputs type := by
  rintro ⟨i, bs, rfl, hi⟩
  rcases h with h | ⟨j, id, h, hj⟩ | ⟨j, h⟩
  · cases h
  · cases h
    rw [hi] at hj
    cases hj
  · cases h

end

/-- What a pure value is recorded with is the type of the declared kind. -/
theorem PureValue.type_of_encode {kind : ParamKind} {value : Literal} {found : PureValue}
    (hkind : kind ≠ .other) (h : encode kind value = .ok found) : found.type = kind.pureType? := by
  by_cases hbytes : ∃ bs, value = .bytes bs
  · obtain ⟨bs, rfl⟩ := hbytes
    cases h
    rfl
  · obtain ⟨eff, bs, heff, -, rfl⟩ := (encode_eq_ok (not_exists.mp hbytes)).mp h
    have hsame : effectiveKind kind value = .ok kind := by
      cases kind <;> first | rfl | exact absurd rfl hkind
    rw [hsame] at heff
    cases heff
    rfl

namespace Lowering

open Transaction (Builder)

/-! ## Labelled drafts -/

/-- The inputs can be numbered, and what was encoded in this operation at a declared kind is an
encoding that is recorded with its type. -/
structure Labelled (w : Draft) : Prop where
  few : w.inputs.length ≤ Limited.limit
  memo : ∀ e ∈ w.memo, e.1.1 ≠ .other → e.2.Encoded w.inputs e.1.1.pureType?

section

variable {w w' : Draft}

theorem Labelled.addInput (h : Labelled w) (hroom : w.inputs.length < Limited.limit)
    (input : TxInput) : Labelled (w.addInput input) := by
  refine ⟨?_, fun e he hkind => (h.memo e he hkind).mono ((Grows.refl w).addInput input).inputs⟩
  rw [inputs_addInput, List.length_append, List.length_singleton]
  omega

theorem getElem?_inputs_addInput (hroom : w.inputs.length < Limited.limit) (input : TxInput) :
    (w.addInput input).inputs[(UInt16.ofNat w.inputs.length).toNat]? = some input := by
  rw [inputs_addInput, toNat_index hroom, List.getElem?_concat_length]

theorem Collects.labelled (h : Collects w w') (hw : Labelled w) : Labelled w' := by
  induction h with
  | nil => exact hw
  | object _ id hroom ih => exact ih.addInput hroom (.object id)
  | @pure w₁ _ kind _ found _ hfound hroom hmemo ih =>
    have hadded := ih.addInput hroom (.pure found.type found.bytes)
    refine ⟨hadded.few, fun e he hkind => ?_⟩
    rcases hmemo e he with hold | ⟨hsame, hnew⟩
    · exact hadded.memo e hold hkind
    · rw [hsame] at hkind ⊢
      rw [hnew, ← PureValue.type_of_encode hkind hfound]
      exact ⟨_, found.bytes, rfl, getElem?_inputs_addInput hroom _⟩
  | vector _ _ _ ih => exact ⟨ih.few, ih.memo⟩

theorem Obtains.isHandle {arg : TxArg} (h : Obtains w arg w') (hw : Labelled w) :
    arg.IsHandle w'.inputs := by
  cases h with
  | gas => exact .inl rfl
  | @known n id h =>
    refine .inr (.inl ⟨_, id, rfl, ?_⟩)
    rwa [toNat_index ((lt_of_getElem? h).trans_le hw.few)]
  | @new _ id _ _ hroom => exact .inr (.inl ⟨_, id, rfl, getElem?_inputs_addInput hroom _⟩)

end

/-! ## Resolving -/

/-- What the operand is resolved to: a literal, unless it holds an object. -/
structure Classed (inputs : List TxInput) (value : Operand) (r : Resolved TxArg) : Prop where
  literal : value.holdsObject = false → ∃ v, r = .literal v
  handle : value.holdsObject = true →
    (∃ items, r = .list items) ∨ ∃ arg, r = .handle arg ∧ arg.IsHandle inputs

theorem Classed.mono {inputs inputs' : List TxInput} {value : Operand} {r : Resolved TxArg}
    (h : Classed inputs value r) (hinputs : inputs <+: inputs') : Classed inputs' value r :=
  ⟨h.literal, fun hobject => (h.handle hobject).imp id fun ⟨arg, hr, harg⟩ =>
    ⟨arg, hr, harg.mono hinputs⟩⟩

theorem classed_vector {inputs : List TxInput} {items : List Operand} {rs : List (Resolved TxArg)}
    (h : List.Forall₂ (Classed inputs) items rs) : Classed inputs (.vector items) (.vector rs) := by
  have hall : (Operand.holdsObject.anyHoldsObject items = false → ∃ vs, literals? rs = some vs) ∧
      (Operand.holdsObject.anyHoldsObject items = true → literals? rs = none) := by
    induction h with
    | nil => exact ⟨fun _ => ⟨[], rfl⟩, nofun⟩
    | @cons item r items rs hitem _ ih =>
      rw [Operand.holdsObject.anyHoldsObject]
      cases hobject : item.holdsObject with
      | true =>
        refine ⟨nofun, fun _ => ?_⟩
        rcases hitem.handle hobject with ⟨_, rfl⟩ | ⟨_, rfl, -⟩ <;> rfl
      | false =>
        obtain ⟨v, rfl⟩ := hitem.literal hobject
        refine ⟨fun hrest => ?_, fun hrest => ?_⟩
        · obtain ⟨vs, hvs⟩ := ih.1 hrest
          exact ⟨v :: vs, by rw [literals?, hvs, Option.map_some]⟩
        · rw [literals?, ih.2 hrest, Option.map_none]
  refine ⟨fun hobject => ?_, fun hobject => ?_⟩
  · obtain ⟨vs, hvs⟩ := hall.1 hobject
    exact ⟨.list vs, by rw [Resolved.vector, hvs]⟩
  · exact .inl ⟨rs, by rw [Resolved.vector, hall.2 hobject]⟩

/-- How the class of a resolved value decides that of the argument. -/
structure Passed (inputs : List TxInput) (kind : ParamKind) (r : Resolved TxArg) (arg : TxArg) :
    Prop where
  literal {v : Literal} : r = .literal v → kind ≠ .other → arg.Encoded inputs kind.pureType?
  handle {arg' : TxArg} : r = .handle arg' → arg = arg'
  list {items : List (Resolved TxArg)} : r = .list items → ∃ j, arg = .result j

/-- What an operand means where the names stand for the values of an environment. -/
def meaning (env : Directory (Entry TxArg)) : Operand → Operand
  | .ref name =>
    match Directory.get? env name with
    | some (.init value) => value
    | _ => .ref name
  | value => value

theorem meaning_of_refs (env : Directory (Entry TxArg)) {value : Operand} (h : value.refs = []) :
    meaning env value = value := by
  cases value <;> first | rfl | cases h

/-- What has no references is a literal or a handle by its own form. -/
theorem Evaluates.classed {w w' : Draft} {value : Operand} {r : Resolved TxArg} :
    Evaluates w value r w' → Labelled w → value.refs = [] → Classed w'.inputs value r
  | .constant _, _, _ | .integer _ _, _, _ => ⟨fun _ => ⟨_, rfl⟩, nofun⟩
  | .object _ h, hw, _ => ⟨nofun, fun _ => .inr ⟨_, rfl, h.isHandle hw⟩⟩
  | .bound _, _, hrefs => nomatch hrefs
  | .init _ _ _, _, hrefs => nomatch hrefs
  | .vector h, hw, hrefs => classed_vector (go h hw hrefs)
where
  go {w w' : Draft} {items : List Operand} {rs : List (Resolved TxArg)} :
      EvaluatesAll w items rs w' → Labelled w → Operand.refs.allRefs items = [] →
        List.Forall₂ (Classed w'.inputs) items rs
    | .nil, _, _ => .nil
    | .cons h hrest, hw, hrefs => by
      obtain ⟨hfirst, hothers⟩ := List.append_eq_nil_iff.mp hrefs
      have hgrows := (Evaluates.collects.go hrest).grows
      exact .cons ((h.classed hw hfirst).mono hgrows.inputs)
        (go hrest (h.collects.labelled hw) hothers)

section

variable {kind : ParamKind} {w w' : Draft}

theorem Evaluates.classed_meaning {value : Operand} {r : Resolved TxArg}
    (h : Evaluates w value r w') (hw : Labelled w) (hrefs : (meaning w.env value).refs = []) :
    Classed w'.inputs (meaning w.env value) r := by
  cases value with
  | ref name =>
    cases h with
    | bound h =>
      simp only [meaning, h] at hrefs
      cases hrefs
    | init h _ hvalue =>
      simp only [meaning, h] at hrefs ⊢
      exact hvalue.classed hw hrefs
  | _ => exact h.classed hw hrefs

/-! ## Encoding -/

theorem Delivers.passed {symbol : Option String} {r : Resolved TxArg} {arg : TxArg}
    (h : Delivers kind symbol w r arg w') (hw : Labelled w) : Passed w'.inputs kind r arg := by
  cases h with
  | handle => exact ⟨nofun, fun h => by cases h; rfl, nofun⟩
  | list => exact ⟨nofun, nofun, fun _ => ⟨_, rfl⟩⟩
  | literal h =>
    refine ⟨fun _ hkind => ?_, nofun, nofun⟩
    cases h with
    | again _ h => exact hw.memo _ h hkind
    | @anew _ found _ hfound hroom _ _ =>
      rw [← PureValue.type_of_encode hkind hfound]
      exact ⟨_, found.bytes, rfl, getElem?_inputs_addInput hroom _⟩

/-! ## Calls -/

theorem Gives.sent {value : Operand} {arg : TxArg} (h : Gives kind w value arg w')
    (hw : Labelled w) (hkind : kind ≠ .other) (hrefs : (meaning w.env value).refs = []) :
    (meaning w.env value).Sent w'.inputs kind arg := by
  obtain ⟨r, w₁, hr, harg⟩ := h
  have hclass := (hr.classed_meaning hw hrefs).mono harg.collects.grows.inputs
  have hpassed := harg.passed (hr.collects.labelled hw)
  refine ⟨fun hobject => ?_, fun hobject => ?_⟩
  · obtain ⟨v, hr⟩ := hclass.literal hobject
    exact hpassed.literal hr hkind
  · rcases hclass.handle hobject with ⟨items, hr⟩ | ⟨arg', hr, harg⟩
    · exact .inr (.inr (hpassed.list hr))
    · rw [hpassed.handle hr]
      exact harg

theorem GivesAll.sent {args : List Argument} {handed : List TxArg} (h : GivesAll w args handed w')
    (hw : Labelled w) :
    List.Forall₂ (fun a arg => a.kind ≠ .other → (meaning w.env a.value).refs = [] →
      (meaning w.env a.value).Sent w'.inputs a.kind arg) args handed := by
  induction h with
  | nil => exact .nil
  | cons h hrest ih =>
    have hothers := ih (h.collects.labelled hw)
    rw [h.collects.grows.env] at hothers
    exact .cons (fun hkind hrefs => (h.sent hw hkind hrefs).mono hrest.collects.grows.inputs) hothers

end

/-- A call ends with its command, whose arguments have the class of their parameters. -/
theorem moveCall_sends (c : Context Builder TxArg) (hc : c.target = Builder.target)
    {package module function : String} {typeArgs : List Operand}
    {args : List Argument} {out : List String} {w : Draft} (hw : Labelled w) :
    Ensures (fun _ => True) w (c.operation (.moveCall package module function typeArgs args out))
      fun _ w' => ∃ front names handed,
        w'.commands = front ++ [.moveCall package module function names handed] ∧
        List.Forall₂ (fun a arg => a.kind ≠ .other → (meaning w.env a.value).refs = [] →
          (meaning w.env a.value).Sent w'.inputs a.kind arg) args handed := by
  refine (operation_ensures hc _ w).mono ?_
  rintro _ _ ⟨d, w₁, hprepares, -, -, rfl⟩
  cases hprepares with
  | @moveCall _ names _ handed _ _ _ _ _ _ htypes hargs =>
    refine ⟨w₁.commands, names, handed, ?_, ?_⟩
    · exact commands_addCommand _
    · have hsent := hargs.sent (htypes.collects.labelled hw)
      rw [htypes.collects.grows.env] at hsent
      exact hsent

end Lowering

end TxGraph
