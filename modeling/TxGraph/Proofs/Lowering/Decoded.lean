import TxGraph.Proofs.Lowering.Retrace
import TxGraph.Proofs.Pure.Codec

/-!
# Lowering decoded values

A literal is encoded at a kind, and its bytes are decoded at the type that is recorded with them.
What comes out is again the value of a variable of that type. It is resolved into a literal, mostly
another one than at first: numbers are in decimal, and addresses and ids in full. But this literal
is the same pure input. It is the same even without a declared kind, if the kind can be told from
the literal.
-/

namespace TxGraph

/-- No part of a value of the kind is an id. -/
def ParamKind.NoId : ParamKind → Prop
  | id => False
  | vector elem => elem.NoId
  | _ => True

/-- Going from each list to its first element, one meets no empty list. -/
def Literal.SpineFilled : Literal → Prop
  | list [] => False
  | list (first :: _) => first.SpineFilled
  | _ => True

namespace PureValue

/-- When the data of a literal show their kind, by the kind and the literal. -/
theorem inferable_iff {kind : ParamKind} {value : Literal} {data : Json}
    (h : value.data? kind = some data) :
    inferable kind.dataType data = true ↔ kind.NoId ∧ value.SpineFilled := by
  induction kind generalizing value data with
  | vector elem ih =>
    cases value with
    | list items =>
      cases items with
      | nil =>
        cases h
        simp [ParamKind.dataType, inferable, Literal.SpineFilled]
      | cons first rest =>
        obtain ⟨head, tail, hhead, rfl⟩ := Literal.data?_cons h
        rw [ParamKind.dataType, inferable, ih hhead, ParamKind.NoId, Literal.SpineFilled]
    | _ => cases h
  | id => simp [ParamKind.dataType, DataType.objectOf, inferable, ParamKind.NoId]
  | handle => cases value <;> cases h
  | other => cases value <;> cases h
  | _ =>
    refine ⟨fun _ => ⟨trivial, ?_⟩, fun _ => rfl⟩
    cases value with
    | list items => cases h
    | _ => trivial

/-- What the bytes of a literal are decoded into is the data that it is. -/
theorem data?_of_decode {kind : ParamKind} {value : Literal} {e : PureValue} {spelling : String}
    {data : Json} (hspelling : kind.pureType? = some spelling) (hvalue : value.NoBytes)
    (h : encode kind value = .ok e) (hdecode : decode spelling e.bytes = .ok data) :
    value.data? kind = some data := by
  obtain ⟨eff, bs, heff, hbytes, rfl⟩ := (encode_eq_ok hvalue.ne_bytes).mp h
  rw [effectiveKind_of_solid (ParamKind.solid_of_pureType? hspelling)] at heff
  cases heff
  obtain ⟨found, hfound, hwritten⟩ := written_of_encodeAs hvalue hbytes
  rw [← ParamKind.ofMove_pureType hspelling] at hwritten
  rw [decode_eq_ok_iff.mpr hwritten.loose] at hdecode
  cases hdecode
  exact hfound

/-- **A decoded literal is the same pure input.** The bytes of a literal are decoded at the recorded
type, and the value of a variable of this type is resolved, wherever it is used, into a literal that
is encoded in the same way. A parameter without a declared type encodes it in the same way exactly
if its kind has no ids and no list that is first in its list is empty. -/
theorem encode_again {kind : ParamKind} {value : Literal} {e : PureValue} (hkind : kind.Solid)
    (hvalue : value.NoBytes) (h : encode kind value = .ok e) :
    ∃ spelling data again, e.type = some spelling ∧ decode spelling e.bytes = .ok data ∧
      (∀ (σ η : Type) (c : Lowering.Context σ η) (slot : Slot) (depth : Nat)
        (symbol : Option String), c.resolveFrom slot depth symbol
          (.ofValue (DataType.ofMove spelling) data) = pure (.literal again)) ∧
      encode kind again = .ok e ∧
      (encode .other again = .ok e ↔ kind.NoId ∧ value.SpineFilled) := by
  obtain ⟨type, bs⟩ := e
  have hencodes : Encodes kind type bs := ⟨value, hvalue, h⟩
  have hdeclared : kind.Declared := .inr (.inr hkind)
  obtain ⟨eff, data, again, hrecodes⟩ := hencodes.recodes hdeclared
  have heff : eff = kind := hrecodes.effective.resolve_left (by rintro rfl; exact hkind)
  subst heff
  obtain ⟨spelling, hspelling⟩ := ParamKind.pureType?_of_solid hkind
  have htype : type = some spelling := hrecodes.recorded.trans hspelling
  have hdecode := hrecodes.decodes htype
  have hmove := ParamKind.ofMove_pureType hspelling
  refine ⟨spelling, data, again, htype, hdecode, ?_, hrecodes.encodes, ?_⟩
  · intro σ η c slot depth symbol
    exact Lowering.resolveFrom_literal c slot depth symbol (hmove ▸ hrecodes.literal)
  · rw [← inferable_iff (data?_of_decode hspelling hvalue h hdecode)]
    refine ⟨fun hother => ?_, hrecodes.infers⟩
    have hshows := (hencodes.other_iff hdeclared).mp
      ⟨again, (Operand.spells_of_literal? hrecodes.literal).literal, hother⟩
    simpa only [showsType, canonical, htype, Option.map_some, hdecode, Option.all_some, hmove]
      using hshows

theorem encode_again_nested :
    encode (.vector (.vector (.integer .u16))) (.list [.list [.number " 0_7"], .list []]) =
      .ok ⟨some "vector<vector<u16>>", [2, 1, 7, 0, 0]⟩ ∧
    ∃ spelling data again, some "vector<vector<u16>>" = some spelling ∧
      decode spelling [2, 1, 7, 0, 0] = .ok data ∧
      (∀ (σ η : Type) (c : Lowering.Context σ η) (slot : Slot) (depth : Nat)
        (symbol : Option String), c.resolveFrom slot depth symbol
          (.ofValue (DataType.ofMove spelling) data) = pure (.literal again)) ∧
      encode (.vector (.vector (.integer .u16))) again =
        .ok ⟨some "vector<vector<u16>>", [2, 1, 7, 0, 0]⟩ ∧
      encode .other again = .ok ⟨some "vector<vector<u16>>", [2, 1, 7, 0, 0]⟩ := by
  have hencode : encode (.vector (.vector (.integer .u16)))
      (.list [.list [.number " 0_7"], .list []]) =
        .ok ⟨some "vector<vector<u16>>", [2, 1, 7, 0, 0]⟩ := by decide +kernel
  have hsolid : (ParamKind.vector (.vector (.integer .u16))).Solid := trivial
  have hvalue : (Literal.list [.list [.number " 0_7"], .list []]).NoBytes :=
    ⟨⟨fun _ => Literal.noConfusion, trivial⟩, trivial, trivial⟩
  obtain ⟨spelling, data, again, htype, hdecode, hresolve, hkind, hother⟩ :=
    encode_again hsolid hvalue hencode
  exact ⟨hencode, spelling, data, again, htype, hdecode, hresolve, hkind,
    hother.mpr ⟨trivial, trivial⟩⟩

end PureValue

end TxGraph
