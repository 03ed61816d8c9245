import Mathlib.Data.List.Forall2
import TxGraph.Json.Reader

/-!
# What a raw tree carries

A raw tree carries a value if reading it gives the value: at any depth of nesting that is allowed,
and for any shape that asks for all of the value. A tree of brackets carries the values that the
trees inside it carry.
-/

namespace TxGraph.Json

variable {items : List Json} {members : List (String × Json)}

/-! ## Depth and numbers -/

theorem depth_arr_le {n : Nat} : (arr items).depth ≤ n + 1 ↔ ∀ item ∈ items, item.depth ≤ n := by
  have go (items : List Json) : depth.itemsDepth items ≤ n ↔ ∀ item ∈ items, item.depth ≤ n := by
    induction items with
    | nil => simp [depth.itemsDepth]
    | cons item items ih => rw [depth.itemsDepth, List.forall_mem_cons, Nat.max_le, ih]
  rw [depth, ← go]
  omega

theorem depth_obj_le {n : Nat} : (obj members).depth ≤ n + 1 ↔ ∀ m ∈ members, m.2.depth ≤ n := by
  have go (members : List (String × Json)) :
      depth.membersDepth members ≤ n ↔ ∀ m ∈ members, m.2.depth ≤ n := by
    induction members with
    | nil => simp [depth.membersDepth]
    | cons m members ih => rw [depth.membersDepth, List.forall_mem_cons, Nat.max_le, ih]
  rw [depth, ← go]
  omega

theorem depth_lt_of_mem_arr {item : Json} (h : item ∈ items) : item.depth < (arr items).depth := by
  have hle : (arr items).depth ≤ depth.itemsDepth items + 1 := by rw [depth]; omega
  have := depth_arr_le.mp hle item h
  rw [depth]
  omega

theorem depth_lt_of_mem_obj {key : String} {value : Json} (h : (key, value) ∈ members) :
    value.depth < (obj members).depth := by
  have hle : (obj members).depth ≤ depth.membersDepth members + 1 := by rw [depth]; omega
  have : value.depth ≤ _ := depth_obj_le.mp hle _ h
  rw [depth]
  omega

/-- Every number is an integer of 64 bits. -/
def isExact : Json → Bool
  | int n => -9223372036854775808 ≤ n && n ≤ Word.max64
  | float _ => false
  | arr items => exactItems items
  | obj members => exactMembers members
  | _ => true
where
  exactItems : List Json → Bool
    | [] => true
    | item :: rest => item.isExact && exactItems rest
  exactMembers : List (String × Json) → Bool
    | [] => true
    | (_, value) :: rest => value.isExact && exactMembers rest

theorem isExact_arr : (arr items).isExact = true ↔ ∀ item ∈ items, item.isExact = true := by
  have go (items : List Json) :
      isExact.exactItems items = true ↔ ∀ item ∈ items, item.isExact = true := by
    induction items with
    | nil => simp [isExact.exactItems]
    | cons item items ih => rw [isExact.exactItems, List.forall_mem_cons, Bool.and_eq_true, ih]
  rw [isExact, go]

theorem isExact_obj : (obj members).isExact = true ↔ ∀ m ∈ members, m.2.isExact = true := by
  have go (members : List (String × Json)) :
      isExact.exactMembers members = true ↔ ∀ m ∈ members, m.2.isExact = true := by
    induction members with
    | nil => simp [isExact.exactMembers]
    | cons m members ih => rw [isExact.exactMembers, List.forall_mem_cons, Bool.and_eq_true, ih]
  rw [isExact, go]

@[simp]
theorem isExact_str (s : String) : (str s).isExact = true := rfl

@[simp]
theorem isExact_bool (b : Bool) : (bool b).isExact = true := rfl

@[simp]
theorem isExact_strs (texts : List String) : (strs texts).isExact = true := by
  simp [strs, isExact_arr]

theorem isExact_nat {k : Nat} (h : k ≤ Word.max64) : (nat k).isExact = true := by
  simp only [nat, isExact, Bool.and_eq_true, decide_eq_true_eq]
  omega

/-- Every number is an integer of 64 bits, and no more than `n` brackets are nested. -/
def Within (n : Nat) (j : Json) : Prop :=
  j.isExact = true ∧ j.depth ≤ n

section Within

variable {n : Nat}

theorem within_arr {items : List Json} :
    Within (n + 1) (arr items) ↔ ∀ item ∈ items, Within n item := by
  rw [Within, isExact_arr, depth_arr_le, ← forall₂_and]
  rfl

theorem within_obj {members : List (String × Json)} :
    Within (n + 1) (obj members) ↔ ∀ m ∈ members, Within n m.2 := by
  rw [Within, isExact_obj, depth_obj_le, ← forall₂_and]
  rfl

theorem Within.mono {m : Nat} {j : Json} (h : Within n j) (hle : n ≤ m) : Within m j :=
  ⟨h.1, Nat.le_trans h.2 hle⟩

theorem within_null : Within n null := ⟨rfl, Nat.zero_le n⟩

theorem within_str (s : String) : Within n (str s) := ⟨rfl, Nat.zero_le n⟩

theorem within_strs (texts : List String) : Within (n + 1) (strs texts) := by
  simp [strs, within_arr, within_str]

theorem within_nat {k : Nat} (h : k ≤ Word.max64) : Within n (nat k) :=
  ⟨isExact_nat h, Nat.zero_le n⟩

end Within

/-! ## Trees -/

/-- A shape asks for all of a value. -/
inductive Fits : Shape → Json → Prop
  | whole (j : Json) : Fits .whole j
  | record {shapes : List (String × Shape)} {members : List (String × Json)}
      (hknown : ∀ m ∈ members, (shapes.lookup m.1).isSome)
      (hfits : ∀ m ∈ members, ∀ shape, shapes.lookup m.1 = some shape → Fits shape m.2) :
      Fits (.record shapes) (.obj members)
  | map {shape : Shape} {members : List (String × Json)} (hfits : ∀ m ∈ members, Fits shape m.2) :
      Fits (.map shape) (.obj members)

theorem fits_record {shapes : List (String × Shape)}
    (h : ∀ m ∈ members, ∃ shape, shapes.lookup m.1 = some shape ∧ Fits shape m.2) :
    Fits (.record shapes) (.obj members) := by
  refine .record (fun m hm => ?_) fun m hm shape hshape => ?_
  · obtain ⟨shape, hshape, -⟩ := h m hm
    rw [hshape, Option.isSome_some]
  · obtain ⟨shape', hshape', hfits⟩ := h m hm
    rw [hshape', Option.some.injEq] at hshape
    exact hshape ▸ hfits

/-- The tree gives the value to every shape that asks for all of it, if the nesting is allowed. -/
def Raw.Carries (raw : Raw) (j : Json) : Prop :=
  ∀ depth shape, j.depth ≤ depth → Fits shape j → raw.shaped? depth shape = some j

theorem Raw.shaped?_whole (depth : Nat) (raw : Raw) :
    raw.shaped? depth .whole = raw.value? depth := by
  cases raw with
  | arr items => cases depth <;> simp [Raw.shaped?, Raw.value?]
  | obj members => cases depth <;> simp [Raw.shaped?, Raw.value?]
  | _ => simp [Raw.shaped?]

theorem Raw.carries_arr {raws : List Raw} (h : List.Forall₂ Raw.Carries raws items) :
    (Raw.arr raws).Carries (.arr items) := by
  have values {depth : Nat} (hdepth : ∀ item ∈ items, item.depth ≤ depth) :
      Raw.value?.itemValues depth raws = some items := by
    induction h with
    | nil => rfl
    | @cons raw item raws items hraw _ ih =>
      have hitem := hraw depth .whole (hdepth item (by simp)) (.whole item)
      rw [shaped?_whole] at hitem
      simp [Raw.value?.itemValues, hitem, ih fun i hi => hdepth i (by simp [hi])]
  rintro (_ | depth) shape hdepth hfits
  · exact absurd hdepth (by simp [Json.depth])
  · cases hfits
    rw [shaped?, values (depth_arr_le.mp hdepth), Option.map_some]
    · simp
    · simp

def CarriesMember (raw : Option String × Raw) (m : String × Json) : Prop :=
  raw.1 = some m.1 ∧ raw.2.Carries m.2

theorem memberValues_eq_mapValues (depth : Nat) (raws : List (Option String × Raw)) :
    Raw.value?.memberValues depth raws = Raw.shaped?.mapValues depth .whole raws := by
  induction raws with
  | nil => rfl
  | cons raw raws ih =>
    simp only [Raw.value?.memberValues, Raw.shaped?.mapValues, Raw.shaped?_whole, ih]

section Members

variable {raws : List (Option String × Raw)} {members : List (String × Json)} {depth : Nat}

theorem mapValues_eq_some (h : List.Forall₂ CarriesMember raws members)
    (hdepth : ∀ m ∈ members, m.2.depth ≤ depth) {shape : Shape}
    (hfits : ∀ m ∈ members, Fits shape m.2) :
    Raw.shaped?.mapValues depth shape raws = some members := by
  induction h with
  | nil => rfl
  | @cons raw m raws members hraw _ ih =>
    rw [List.forall_mem_cons] at hdepth hfits
    obtain ⟨key, raw⟩ := raw
    obtain ⟨rfl, hcarries⟩ : key = some m.1 ∧ _ := hraw
    have hvalue := hcarries depth shape hdepth.1 hfits.1
    simp [Raw.shaped?.mapValues, hvalue, ih hdepth.2 hfits.2]

theorem recordValues_eq_some (h : List.Forall₂ CarriesMember raws members)
    (hdepth : ∀ m ∈ members, m.2.depth ≤ depth) {shapes : List (String × Shape)}
    (hknown : ∀ m ∈ members, (shapes.lookup m.1).isSome)
    (hfits : ∀ m ∈ members, ∀ shape, shapes.lookup m.1 = some shape → Fits shape m.2) :
    Raw.shaped?.recordValues depth shapes raws = some members := by
  induction h with
  | nil => rfl
  | @cons raw m raws members hraw _ ih =>
    rw [List.forall_mem_cons] at hdepth hknown hfits
    obtain ⟨key, raw⟩ := raw
    obtain ⟨rfl, hcarries⟩ : key = some m.1 ∧ _ := hraw
    obtain ⟨shape, hshape⟩ := Option.isSome_iff_exists.mp hknown.1
    have hvalue := hcarries depth shape hdepth.1 (hfits.1 shape hshape)
    simp [Raw.shaped?.recordValues, hshape, hvalue, ih hdepth.2 hknown.2 hfits.2]

end Members

theorem Raw.carries_obj {raws : List (Option String × Raw)}
    (h : List.Forall₂ CarriesMember raws members) : (Raw.obj raws).Carries (.obj members) := by
  rintro (_ | depth) shape hdepth hfits
  · exact absurd hdepth (by simp [Json.depth])
  · have hdepth := depth_obj_le.mp hdepth
    cases hfits with
    | whole =>
      have hvalues := mapValues_eq_some h hdepth fun m _ => .whole m.2
      simp [shaped?, memberValues_eq_mapValues, hvalues]
    | record hknown hfits => simp [shaped?, recordValues_eq_some h hdepth hknown hfits]
    | map hfits => simp [shaped?, mapValues_eq_some h hdepth hfits]

end TxGraph.Json
