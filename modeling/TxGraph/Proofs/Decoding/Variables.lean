import TxGraph.Proofs.Decoding.Drawing
import TxGraph.Transaction.OfProgram

/-!
# Variables of decoded graphs

What the variables of a decoded graph mean when it is compiled. Each input stands for what it was:
an object for the object itself, whether or not it is one of those with a name of their own, and
an encoding for a literal with the same bytes. None of them is taken for the sender.
-/

namespace TxGraph.Decoding

open Transaction (Builder)

/-! ## Words for the sender -/

theorem isSenderWord_eq_false {s : String} {c : Char} {cs : List Char}
    (htrim : Text.trim s = s) (hs : s.toList = c :: cs) (hc : c = '0' ∨ c = 'i') :
    Variable.isSenderWord s = false := by
  have hheads : ∀ word ∈ Variable.senderWords, word.toList.head? ≠ some c.toLower := by
    rcases hc with rfl | rfl <;> decide
  have hword : (Text.lowerAscii s).toList.head? = some c.toLower := by
    simp [Text.lowerAscii, hs]
  rw [Variable.isSenderWord, htrim, ← Bool.not_eq_true, List.contains_iff_mem]
  exact fun hmem => hheads _ hmem hword

theorem isSenderWord_inputId (index : Nat) : Variable.isSenderWord (inputId index) = false := by
  have hchars : (inputId index).toList =
      'i' :: (['n', 'p', 'u', 't', '_'] ++ index.repr.toList) := by
    simp [inputId]
  have hfront : (['i', 'n', 'p', 'u', 't', '_'].all fun c => !Text.isBlank c) = true := by decide
  refine isSenderWord_eq_false (Text.trim_eq_self fun c hc => ?_) hchars (.inr rfl)
  rw [hchars, ← List.cons_append, List.mem_append] at hc
  rcases hc with hc | hc
  · simpa using List.all_eq_true.mp hfront c hc
  · exact Text.isBlank_of_mem_repr hc

theorem isSenderWord_format (bs : Bytes) : Variable.isSenderWord (Address.format bs) = false :=
  isSenderWord_eq_false (Address.trim_format bs) (Address.toList_format bs) (.inl rfl)

/-! ## Objects -/

theorem inlined_gasVar : gasVar.inlined = .ok (some (.object .gas)) := by
  decide +kernel

theorem objectById_fullAddress {text id : String} (h : Builder.fullAddress text = .ok id) :
    Variable.objectById id = .ok none ∨ ∃ o known, Variable.objectById id = .ok (some o) ∧
      Builder.objectRef o = Builder.addObject known ∧ Builder.fullAddress known = .ok id := by
  have hid : Variable.objectById id = .ok ([ObjectRef.system, .clock, .random].find? fun o =>
      (o.systemId?.bind fun known => (Address.normalize known).toOption) == some id) :=
    bind_eq_ok.mpr ⟨id, Builder.normalize_fullAddress h, rfl⟩
  rw [hid]
  cases hfound : [ObjectRef.system, .clock, .random].find? fun o =>
      (o.systemId?.bind fun known => (Address.normalize known).toOption) == some id with
  | none => exact .inl rfl
  | some o =>
    refine .inr ⟨o, ?_⟩
    have hmem := List.mem_of_find?_eq_some hfound
    have hsame := List.find?_some hfound
    have hparse : ∀ o ∈ [ObjectRef.system, .clock, .random], ∃ known,
        o.systemId? = some known ∧ (Address.parse? known).isSome = true ∧
        Builder.objectRef o = Builder.addObject known := by
      intro o ho
      simp only [List.mem_cons, List.not_mem_nil, or_false] at ho
      rcases ho with rfl | rfl | rfl <;> exact ⟨_, rfl, by decide +kernel, rfl⟩
    obtain ⟨known, hknown, hparsed, href⟩ := hparse o hmem
    obtain ⟨bs, hbs⟩ := Option.isSome_iff_exists.mp hparsed
    rw [hknown, Option.bind_some, Address.normalize_of_parse? hbs] at hsame
    have heq : Address.format bs = id := by simpa [Except.toOption] using hsame
    exact ⟨known, rfl, href, heq ▸ Builder.fullAddress_of_parse? hbs⟩

/-- **Objects.** The variable of an object stands for a shared object with that id, or is declared
with the id as its value. -/
theorem inlined_object {text id : String} (h : Builder.fullAddress text = .ok id) (index : Nat) :
    (∃ o known, (inputVar index (.object id)).inlined = .ok (some (.object o)) ∧
      Builder.objectRef o = Builder.addObject known ∧ Builder.fullAddress known = .ok id) ∨
    (inputVar index (.object id)).inlined = .ok none ∧
      (inputVar index (.object id)).initial = .object (.byId id) := by
  obtain ⟨bs, -, -, rfl⟩ := Builder.parse?_fullAddress h
  have htrim := Address.trim_format bs
  have hne : (Address.format bs).isEmpty = false := by
    rw [String.isEmpty_eq_false_iff]
    intro hnil
    have := congrArg String.toList hnil
    rw [Address.toList_format] at this
    cases this
  have hgas : Text.lowerAscii (Address.format bs) ≠ "gas" := by
    intro heq
    have := congrArg (·.toList.head?) heq
    simp [Text.lowerAscii, Address.toList_format] at this
  have hspecial : (inputVar index (.object (Address.format bs))).specialObject none =
      Variable.objectById (Address.format bs) := by
    simp [Variable.specialObject, inputVar, Json.string?, htrim, hgas, hne]
  have hinlined {found : Option ObjectRef}
      (hfound : Variable.objectById (Address.format bs) = .ok found) :
      (inputVar index (.object (Address.format bs))).inlined = .ok (found.map .object) :=
    bind_eq_ok.mpr ⟨found, hspecial.trans hfound, rfl⟩
  rcases objectById_fullAddress h with hnone | ⟨o, known, hsome, href, hfull⟩
  · refine .inr ⟨hinlined hnone, ?_⟩
    simp [Variable.initial, inputVar, Operand.ofValue, Operand.objectOf, DataType.anyObject, htrim,
      hne]
  · exact .inl ⟨o, known, hinlined hsome, href, hfull⟩

/-! ## Encodings -/

section

variable {kind eff : ParamKind} {type : Option String} {bs : Bytes} {data : Json} {again : Literal}

theorem pureInput_of_recodes (h : PureValue.Recodes kind eff type bs data again) :
    pureInput type bs = (eff.dataType, data, none) := by
  obtain ⟨spelling, hspelling⟩ := ParamKind.pureType?_of_solid h.solid
  have htype : type = some spelling := h.recorded.trans hspelling
  simp only [pureInput, htype, h.decodes htype, ParamKind.ofMove_pureType hspelling]

theorem inputVar_of_recodes (h : PureValue.Recodes kind eff type bs data again) (index : Nat) :
    inputVar index (.pure type bs) =
      ⟨inputId index, inputId index, eff.dataType, some data⟩ := by
  rw [inputVar, pureInput_of_recodes h]

theorem format_of_recodes (h : PureValue.Recodes kind .address type bs data again) :
    ∃ raw, data = .str (Address.format raw) := by
  have hread := h.decodes h.recorded
  have hspelling : ParamKind.address.pureType? = some "address" := rfl
  have htype : DataType.ofMove "address" = .scalar .address := ParamKind.ofMove_pureType hspelling
  rw [PureValue.decode, htype] at hread
  obtain ⟨⟨value, rest⟩, hvalue, hread⟩ := bind_eq_ok.mp hread
  obtain ⟨⟨raw, more⟩, -, hvalue⟩ := bind_eq_ok.mp hvalue
  cases hvalue
  dsimp only at hread
  split at hread
  · cases hread
    exact ⟨raw, rfl⟩
  · cases hread

/-- **Encodings.** The variable of an encoding is declared with a value that stands for a literal
with the same bytes. -/
theorem inlined_pure (h : PureValue.Recodes kind eff type bs data again) (index : Nat) :
    (inputVar index (.pure type bs)).inlined = .ok none ∧
      (inputVar index (.pure type bs)).initial.literal? = some again := by
  rw [inputVar_of_recodes h]
  refine ⟨?_, h.literal⟩
  cases eff with
  | address =>
    obtain ⟨raw, rfl⟩ := format_of_recodes h
    simp [Variable.inlined, ParamKind.dataType, DataType.address, Variable.meansSender,
      isSenderWord_inputId, isSenderWord_format, Json.string?, pure, Except.pure]
  | id => simp [Variable.inlined, ParamKind.dataType, DataType.objectOf, pure, Except.pure]
  | handle => exact h.solid.elim
  | other => exact h.solid.elim
  | _ => rfl

end

/-! ## Variables of commands -/

theorem inlined_typeArgVar (node : String) (index : Nat) (arg : String) :
    (typeArgVar node index arg).inlined = .ok none ∧
      (typeArgVar node index arg).initial = .constant (.string arg) :=
  ⟨rfl, rfl⟩

theorem inlined_elemsVar (node : String) (elem : DataType) (values : List Json) :
    (elemsVar node elem values).inlined = .ok none ∧
      (elemsVar node elem values).initial = .vector (values.map (Operand.ofValue elem)) :=
  ⟨rfl, by simp only [Variable.initial, elemsVar, Operand.ofValue]⟩

theorem inlined_of_feed {c : Context} {k : Nat} {command : TxCommand} {d : Drawing}
    (h : Outlines c k command d) {v : Variable} {port : String} (hfeed : (v, port) ∈ d.feeds) :
    v.inlined = .ok none := by
  cases command with
  | makeMoveVec elem elems =>
    cases h
    unfold drawVector at hfeed
    split at hfeed
    · split at hfeed
      · cases List.mem_singleton.mp hfeed
        exact (inlined_elemsVar _ _ _).1
      · cases hfeed
    · cases hfeed
  | moveCall =>
    obtain ⟨call, rfl⟩ := h
    obtain ⟨i, hi, heq⟩ := List.mem_mapIdx.mp hfeed
    cases heq
    exact (inlined_typeArgVar _ _ _).1
  | unsupported => cases h
  | _ =>
    cases h
    cases hfeed

end TxGraph.Decoding
