import TxGraph.Lowering.Walk
import TxGraph.Proofs.DataType.Move

/-!
# Kinds and their types

A solid kind is one at which values are encoded. It has a type, and the spelling of that type leads
back to it. So the Move type that is recorded with encoded bytes says at which kind they were
encoded.
-/

namespace TxGraph

/-! ## Solid kinds -/

namespace ParamKind

variable {kind : ParamKind}

/-- Values of the kind are encoded, at every depth. -/
def Solid : ParamKind → Prop
  | handle => False
  | other => False
  | vector elem => elem.Solid
  | _ => True

def dataType : ParamKind → DataType
  | address => .address
  | bool => .bool
  | id => .objectOf DataType.idTag
  | string => .string
  | integer width => .integer width
  | vector elem => .vector elem.dataType
  | handle => .anyObject
  | other => .unknown

theorem vectorOf_of_solid (h : kind.Solid) : vectorOf kind = vector kind := by
  cases kind <;> first | rfl | cases h

theorem ofType_dataType (h : kind.Solid) : ofType kind.dataType = kind := by
  induction kind with
  | vector elem ih =>
    have helem : elem.Solid := h
    rw [dataType, ofType, ih helem, vectorOf_of_solid helem]
  | handle => cases h
  | other => cases h
  | id => simp [dataType, DataType.objectOf, ofType]
  | _ => rfl

theorem moveSpelling?_dataType (h : kind.Solid) : kind.dataType.moveSpelling? = kind.pureType? := by
  induction kind with
  | vector elem ih => rw [dataType, DataType.moveSpelling?, ih h, pureType?]
  | handle => cases h
  | other => cases h
  | _ => rfl

theorem pureType?_of_solid (h : kind.Solid) : ∃ spelling, kind.pureType? = some spelling := by
  induction kind with
  | vector elem ih =>
    obtain ⟨e, he⟩ := ih h
    exact ⟨"vector<" ++ e ++ ">", by rw [pureType?, he, Option.map_some]⟩
  | handle => cases h
  | other => cases h
  | _ => exact ⟨_, rfl⟩

theorem solid_of_pureType? {spelling : String} (h : kind.pureType? = some spelling) :
    kind.Solid := by
  induction kind generalizing spelling with
  | vector elem ih =>
    obtain ⟨e, he, -⟩ := Option.map_eq_some_iff.mp h
    exact ih he
  | handle => cases h
  | other => cases h
  | _ => trivial

theorem isTag_idTag : DataType.IsTag DataType.idTag.toList := by
  have hsolid : (DataType.idTag.toList.all fun c => !Text.isBlank c) = true := by decide
  exact ⟨⟨_, rfl⟩, by simpa using List.all_eq_true.mp hsolid, by decide, by decide +kernel⟩

theorem isMove_dataType (h : kind.Solid) : kind.dataType.IsMove := by
  induction kind with
  | vector elem ih => exact ih h
  | handle => cases h
  | other => cases h
  | id => exact ⟨_, by rw [String.ofList_toList], isTag_idTag, by decide, by decide⟩
  | _ => trivial

theorem ofMove_pureType {spelling : String} (hspelling : kind.pureType? = some spelling) :
    DataType.ofMove spelling = kind.dataType := by
  have hsolid := solid_of_pureType? hspelling
  exact DataType.ofMove_moveSpelling? (isMove_dataType hsolid)
    ((moveSpelling?_dataType hsolid).trans hspelling)

/-! ## Kinds of types -/

/-- A kind of parameters: solid, or without an encoding of its own. -/
def Declared (kind : ParamKind) : Prop :=
  kind = handle ∨ kind = other ∨ kind.Solid

theorem declared_ofType (type : DataType) : (ofType type).Declared := by
  match type with
  | .scalar kind => cases kind <;> exact .inr (.inr trivial)
  | .integer _ => exact .inr (.inr trivial)
  | .object tag =>
    simp only [ofType]
    split
    · exact .inr (.inr trivial)
    · exact .inl rfl
  | .vector elem =>
    simp only [ofType]
    rcases declared_ofType elem with h | h | h
    · exact .inl (by rw [h, vectorOf])
    · exact .inr (.inl (by rw [h, vectorOf]))
    · exact .inr (.inr (by rw [vectorOf_of_solid h]; exact h))
  | .tuple _ => exact .inr (.inl rfl)
  | .typeParam _ => exact .inr (.inl rfl)
  | .unknown => exact .inr (.inl rfl)

theorem solid_elem {elem : DataType} (h : (ofType (.vector elem)).Solid) : (ofType elem).Solid := by
  rw [ofType] at h
  rcases declared_ofType elem with hkind | hkind | hkind
  · rw [hkind] at h
    cases h
  · rw [hkind] at h
    cases h
  · exact hkind

/-- A type without a declared kind has no spelling. -/
theorem moveSpelling?_of_other : {type : DataType} → ofType type = other →
    type.moveSpelling? = none
  | .scalar kind, h => by cases kind <;> cases h
  | .integer _, h => by cases h
  | .object tag, h => by
    simp only [ofType] at h
    split at h <;> cases h
  | .vector elem, h => by
    have helem : ofType elem = other := by
      simp only [ofType] at h
      cases hkind : ofType elem <;> rw [hkind, vectorOf] at h
      all_goals first | rfl | cases h
    rw [DataType.moveSpelling?, moveSpelling?_of_other helem, Option.map_none]
  | .tuple _, _ => rfl
  | .typeParam _, _ => rfl
  | .unknown, _ => rfl

theorem moveSpelling?_of_solid : {type : DataType} → (ofType type).Solid →
    type.moveSpelling? = (ofType type).pureType?
  | .scalar kind, _ => by cases kind <;> rfl
  | .integer _, _ => rfl
  | .object tag, h => by
    simp only [ofType] at h ⊢
    split at h
    case isTrue htag => rw [if_pos htag, DataType.moveSpelling?, htag, pureType?]
    case isFalse => cases h
  | .vector elem, h => by
    have helem := solid_elem h
    rw [DataType.moveSpelling?, ofType, vectorOf_of_solid helem, pureType?,
      moveSpelling?_of_solid helem]
  | .tuple _, h => by cases h
  | .typeParam _, h => by cases h
  | .unknown, h => by cases h

/-- A type that is read from a spelling is the type of its kind, if that is solid. -/
theorem dataType_ofType : {type : DataType} → type.IsMove → (ofType type).Solid →
    (ofType type).dataType = type
  | .scalar .bool, _, _ => rfl
  | .scalar .string, _, _ => rfl
  | .scalar .address, _, _ => rfl
  | .integer _, _, _ => rfl
  | .object tag, _, h => by
    simp only [ofType] at h ⊢
    split at h
    case isTrue htag => rw [if_pos htag, dataType, DataType.objectOf, htag]
    case isFalse => cases h
  | .vector elem, hmove, h => by
    have helem := solid_elem h
    have hsame : (ofType elem).dataType = elem := dataType_ofType hmove helem
    rw [ofType, vectorOf_of_solid helem, dataType, hsame]
  | .tuple _, _, h => by cases h
  | .typeParam _, _, h => by cases h
  | .unknown, _, h => by cases h

end ParamKind

/-- **Spellings are stable.** However a type was spelled, its own spelling is read as the same type.
The type that is recorded for a kind is read as a type of that kind, which is spelled the same. -/
theorem DataType.ofMove_stable :
    (∀ spelling again, (ofMove spelling).moveSpelling? = some again →
      ofMove again = ofMove spelling) ∧
    ∀ (kind : ParamKind) spelling, kind.pureType? = some spelling →
      ParamKind.ofType (ofMove spelling) = kind ∧ (ofMove spelling).moveSpelling? = some spelling := by
  refine ⟨fun spelling _ h => ofMove_moveSpelling? (isMove_ofMove spelling) h, fun kind _ h => ?_⟩
  have hsolid := ParamKind.solid_of_pureType? h
  rw [ParamKind.ofMove_pureType h]
  exact ⟨ParamKind.ofType_dataType hsolid, (ParamKind.moveSpelling?_dataType hsolid).trans h⟩

/-- A reference to a vector, with blanks inside and an address that has a mark among its zeros. -/
theorem DataType.ofMove_stable_odd :
    ofMove "vector<0xx02::coin::Coin<0x2::sui::SUI>>" =
        ofMove " & Vector <\u00a00x00x02 : :coin:: Coin<0x2::sui::SUI> > " ∧
      ParamKind.ofType (ofMove "vector<0x2::object::ID>") = .vector .id :=
  ⟨ofMove_stable.1 _ _ (by decide +kernel), (ofMove_stable.2 (.vector .id) _ (by decide)).1⟩

namespace Lowering.Context

theorem declared_vectorElemKind (elem : Option String) : (vectorElemKind elem).Declared := by
  cases elem with
  | none => exact .inl rfl
  | some spelling => exact ParamKind.declared_ofType _

theorem declared_elemKind {kind : ParamKind} (h : kind.Declared) : (elemKind kind).Declared := by
  rcases h with rfl | rfl | h
  · exact .inl rfl
  · exact .inr (.inl rfl)
  · refine .inr (.inr ?_)
    cases kind <;> exact h

theorem vectorElemKind_pureType {kind : ParamKind} (h : kind.Solid) :
    vectorElemKind kind.pureType? = kind := by
  obtain ⟨spelling, hspelling⟩ := ParamKind.pureType?_of_solid h
  rw [hspelling, vectorElemKind, Option.elim_some, ParamKind.ofMove_pureType hspelling,
    ParamKind.ofType_dataType h]

end Lowering.Context

end TxGraph
