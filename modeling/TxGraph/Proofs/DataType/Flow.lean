import Mathlib.Data.List.Forall2
import TxGraph.DataType.Flow

/-!
# Compatible types

A type flows into itself, and a flow survives where either side is made vaguer. A cast is made only
where there is a flow. Between types that say everything, a value flows exactly if the cast makes its
type that of the port, up to the tags of objects.
-/

namespace TxGraph.DataType

variable {source target : DataType}

/-! ## Flows into the same type -/

mutual

theorem flowsInto_self : (type : DataType) → type.flowsInto type = true
  | vector elem => flowsInto_self elem
  | tuple elems => flowAll_self elems
  | scalar kind => by cases kind <;> rfl
  | integer _ => by simp [flowsInto]
  | object _ => rfl
  | typeParam _ => rfl
  | unknown => rfl

theorem flowAll_self : (types : List DataType) → flowAll types types = true
  | [] => rfl
  | type :: rest => by rw [flowAll, flowsInto_self type, flowAll_self rest, Bool.and_self]

end

/-! ## Vaguer types -/

theorem flowsInto_of_wildcard (h : source.isWildcard = true) (target : DataType) :
    source.flowsInto target = true := by
  cases source <;> first | rfl | cases h

theorem flowsInto_wildcard (source : DataType) (h : target.isWildcard = true) :
    source.flowsInto target = true := by
  cases target with
  | typeParam => cases source <;> rfl
  | unknown => cases source <;> rfl
  | _ => cases h

/-- The second type is the first with a wildcard in the place of one of its parts. -/
inductive Blurs : DataType → DataType → Prop
  | part {type wild : DataType} (h : wild.isWildcard = true) : Blurs type wild
  | elem {type type' : DataType} (h : Blurs type type') : Blurs (vector type) (vector type')
  | item {type type' : DataType} (before after : List DataType) (h : Blurs type type') :
    Blurs (tuple (before ++ type :: after)) (tuple (before ++ type' :: after))

theorem flowAll_iff_forall₂ : {sources targets : List DataType} →
    (flowAll sources targets = true ↔ List.Forall₂ (fun s t => flowsInto s t = true) sources targets)
  | [], [] => by simp [flowAll]
  | [], _ :: _ => by simp [flowAll]
  | _ :: _, [] => by simp [flowAll]
  | _ :: sources, _ :: targets => by
    rw [flowAll, Bool.and_eq_true_iff, List.forall₂_cons, flowAll_iff_forall₂]

theorem forall₂_replace {R : DataType → DataType → Prop} {type type' : DataType}
    (h : ∀ other, R type other → R type' other) {before after : List DataType} :
    ∀ {others : List DataType}, List.Forall₂ R (before ++ type :: after) others →
      List.Forall₂ R (before ++ type' :: after) others := by
  induction before with
  | nil =>
    rintro _ (_ | ⟨hfirst, hrest⟩)
    exact .cons (h _ hfirst) hrest
  | cons first before ih =>
    rintro _ (_ | ⟨hfirst, hrest⟩)
    exact .cons hfirst (ih hrest)

theorem Blurs.flowsInto_source {source' : DataType} (h : Blurs source source') :
    ∀ target, source.flowsInto target = true → source'.flowsInto target = true := by
  induction h with
  | part hwild => exact fun target _ => flowsInto_of_wildcard hwild target
  | elem _ ih =>
    intro target hflow
    cases target with
    | vector target => exact ih target hflow
    | unknown => rfl
    | typeParam => rfl
    | _ => cases hflow
  | item before after _ ih =>
    intro target hflow
    cases target with
    | tuple targets => exact flowAll_iff_forall₂.mpr (forall₂_replace ih (flowAll_iff_forall₂.mp hflow))
    | unknown => rfl
    | typeParam => rfl
    | _ => cases hflow

theorem Blurs.flowsInto_target {target' : DataType} (h : Blurs target target') :
    ∀ source, flowsInto source target = true → flowsInto source target' = true := by
  induction h with
  | part hwild => exact fun source _ => flowsInto_wildcard source hwild
  | elem _ ih =>
    intro source hflow
    cases source with
    | vector source => exact ih source hflow
    | unknown => rfl
    | typeParam => rfl
    | scalar kind => cases kind <;> cases hflow
    | _ => cases hflow
  | item before after _ ih =>
    intro source hflow
    cases source with
    | tuple sources =>
      exact flowAll_iff_forall₂.mpr (forall₂_replace ih (flowAll_iff_forall₂.mp hflow).flip).flip
    | unknown => rfl
    | typeParam => rfl
    | scalar kind => cases kind <;> cases hflow
    | _ => cases hflow

/-! ## Casts -/

theorem flowsInto_of_castInto? {width : Width} :
    source.castInto? target = some width → source.flowsInto target = true := by
  fun_induction castInto? source target with
  | case1 => exact fun _ => rfl
  | case2 source target ih => exact ih
  | case3 => exact nofun

def isDefinite : DataType → Bool
  | scalar _ => true
  | integer _ => true
  | object _ => true
  | vector elem => elem.isDefinite
  | tuple _ => false
  | typeParam _ => false
  | unknown => false

/-- The type with its number, if it has one at the bottom, narrowed to a width. -/
def narrowed (width : Width) : DataType → DataType
  | scalar .number => integer width
  | vector elem => vector (elem.narrowed width)
  | type => type

/-- The type that a value has after the cast on its way into a port. -/
def castFor (source target : DataType) : DataType :=
  (source.castInto? target).elim source source.narrowed

def untagged : DataType → DataType
  | object _ => object none
  | vector elem => vector elem.untagged
  | tuple elems => tuple (allUntagged elems)
  | type => type
where
  allUntagged : List DataType → List DataType
    | [] => []
    | elem :: rest => elem.untagged :: allUntagged rest

theorem castFor_vector (source target : DataType) :
    castFor (vector source) (vector target) = vector (castFor source target) := by
  unfold castFor
  rw [castInto?]
  cases source.castInto? target <;> rfl

/-- Between definite types there is a flow exactly if the cast leads to the type of the port. -/
theorem flowsInto_iff_castFor : {source target : DataType} → source.isDefinite = true →
    target.isDefinite = true →
    (source.flowsInto target = true ↔ (source.castFor target).untagged = target.untagged)
  | scalar kind, target, _, htarget => by
    cases kind <;> cases target <;>
      simp_all [isDefinite, flowsInto, castFor, castInto?, narrowed, untagged]
  | integer _, target, _, htarget => by
    cases target <;> simp_all [isDefinite, flowsInto, castFor, castInto?, untagged]
  | object _, target, _, htarget => by
    cases target <;> simp_all [isDefinite, flowsInto, castFor, castInto?, untagged]
  | vector source, target, hsource, htarget => by
    cases target with
    | vector target =>
      rw [castFor_vector, untagged, untagged, vector.injEq]
      exact (flowsInto_iff_castFor hsource htarget : source.flowsInto target = true ↔ _)
    | _ => simp_all [isDefinite, flowsInto, castFor, castInto?, untagged]

/-- **Flows and casts agree.**

Every type flows into itself, a flow is kept where a part of either side becomes a wildcard, and a
cast is made only along a flow. Between types without wildcards and tuples there is a flow exactly
if the type after the cast is that of the port, up to the tags of objects. -/
theorem flowsInto_castInto? (source target : DataType) :
    source.flowsInto source = true ∧
    (source.flowsInto target = true →
      (∀ source', Blurs source source' → source'.flowsInto target = true) ∧
      ∀ target', Blurs target target' → source.flowsInto target' = true) ∧
    (∀ width, source.castInto? target = some width → source.flowsInto target = true) ∧
    (source.isDefinite = true → target.isDefinite = true →
      (source.flowsInto target = true ↔ (source.castFor target).untagged = target.untagged)) :=
  ⟨flowsInto_self source,
    fun h => ⟨fun _ hblurs => hblurs.flowsInto_source target h,
      fun _ hblurs => hblurs.flowsInto_target source h⟩,
    fun _ => flowsInto_of_castInto?, flowsInto_iff_castFor⟩

end TxGraph.DataType
