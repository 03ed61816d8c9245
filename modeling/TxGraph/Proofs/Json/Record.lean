import TxGraph.Json.Record
import TxGraph.Proofs.Directory

/-!
# Records read back

What the readers of records, lists, directories and fields make of the objects and arrays that are
written for them.
-/

namespace TxGraph.Json

variable {α : Type}

/-! ## Objects -/

def members : Json → List (String × Json)
  | obj members => members
  | _ => []

section Members

variable {members : List (String × Json)}
variable {key : String} {α : Type}

theorem member?_eq_lookup (h : (members.map Prod.fst).Nodup) (key : String) :
    member? members key = some (members.lookup key) := by
  induction members with
  | nil => rfl
  | cons m members ih =>
    rw [List.map_cons, List.nodup_cons] at h
    by_cases hkey : m.1 = key
    · have hrest : members.filter (fun e => e.1 == key) = [] := by
        refine List.filter_eq_nil_iff.mpr fun e he heq => h.1 (List.mem_map.mpr ⟨e, he, ?_⟩)
        rw [hkey, beq_iff_eq.mp heq]
      subst hkey
      rw [List.lookup_cons, beq_self_eq_true]
      simp [member?, hrest]
    · have hne : (key == m.1) = false := beq_eq_false_iff_ne.mpr (Ne.symm hkey)
      rw [List.lookup_cons, hne, ← ih h.2, member?, List.filter_cons_of_neg (by simpa using hkey),
        member?]

theorem fields?_obj (h : (members.map Prod.fst).Nodup) (keys : List String) :
    fields? keys (obj members) = some (keys.map fun key => members.lookup key) := by
  induction keys with
  | nil => rfl
  | cons key keys ih =>
    rw [fields?] at ih ⊢
    rw [List.mapM_cons, member?_eq_lookup h, ih]
    rfl

theorem tagged?_obj {tag : Json} (h : key ∉ members.map Prod.fst) :
    tagged? key (obj ((key, tag) :: members)) = some (tag, obj members) := by
  have hmembers : ∀ m ∈ members, m.1 ≠ key := fun m hm heq => h (List.mem_map.mpr ⟨m, hm, heq⟩)
  have hnone : members.filter (fun m => m.1 == key) = [] :=
    List.filter_eq_nil_iff.mpr fun m hm => by simpa using hmembers m hm
  have hall : members.filter (fun m => m.1 != key) = members :=
    List.filter_eq_self.mpr fun m hm => by simpa using hmembers m hm
  simp [tagged?, member?, hnone, hall]

theorem variant?_obj {kind : String} {kinds : List String} (hkind : kind ∈ kinds)
    (h : key ∉ members.map Prod.fst) (inner : Bool) :
    variant? inner key kinds (obj ((key, str kind) :: members)) = some (kind, obj members) := by
  simp [variant?, tagged?_obj h, kind?, hkind]

theorem keys_optional (key : String) (f : α → Json) (a : Option α) :
    ((Json.optional key f a).map Prod.fst).Sublist [key] := by
  cases a with
  | none => exact List.nil_sublist [key]
  | some a => exact List.Sublist.refl [key]

theorem forall_mem_optional {p : String × Json → Prop} {f : α → Json} {a : Option α}
    (h : ∀ x ∈ a, p (key, f x)) : ∀ m ∈ Json.optional key f a, p m := by
  cases a with
  | none => exact fun m hm => absurd hm List.not_mem_nil
  | some x => exact List.forall_mem_singleton.mpr (h x rfl)

theorem lookup_optional (key other : String) (f : α → Json) (a : Option α) :
    (Json.optional key f a).lookup other = if other = key then a.map f else none := by
  cases a with
  | none => simp [Json.optional]
  | some a =>
    rw [Json.optional, List.lookup_cons, List.lookup_nil, Option.map_some]
    by_cases h : other = key
    · simp [h]
    · rw [beq_eq_false_iff_ne.mpr h, if_neg h]

end Members

/-! ## Lists and directories -/

theorem mapM_map_eq_some {β : Type} {f : β → Option α} {g : α → β} {as : List α}
    (h : ∀ a ∈ as, f (g a) = some a) : (as.map g).mapM f = some as := by
  induction as with
  | nil => rfl
  | cons a as ih =>
    rw [List.forall_mem_cons] at h
    rw [List.map_cons, List.mapM_cons, h.1, ih h.2]
    rfl

theorem list?_map {f : Json → Option α} {g : α → Json} {as : List α}
    (h : ∀ a ∈ as, f (g a) = some a) : list? f (arr (as.map g)) = some as :=
  mapM_map_eq_some h

@[simp]
theorem strings?_strs (texts : List String) : strings? (strs texts) = some texts :=
  list?_map fun _ _ => rfl

/-- A directory is read back from its entries in any order. -/
theorem directory?_obj {f : Json → Option α} {g : α → Json} {entries : List (String × α)}
    {d : Directory α} (hperm : entries.Perm d) (hsorted : d.Sorted)
    (h : ∀ e ∈ d, f (g e.2) = some e.2) :
    directory? f (obj (entries.map fun e => (e.1, g e.2))) = some d := by
  rw [directory?, mapM_map_eq_some fun e he => by simp [h e (hperm.subset he)]]
  exact congrArg some (Directory.ofEntries_of_perm hperm hsorted)

/-! ## Fields -/

theorem natUpTo?_nat {limit n : Nat} (h : n ≤ limit) : natUpTo? limit (nat n) = some n :=
  if_pos h

@[simp]
theorem required_some (f : Json → Option α) (j : Json) : required f (some j) = f j := rfl

@[simp]
theorem withDefault_some (default : α) (f : Json → Option α) (j : Json) :
    withDefault default f (some j) = f j := rfl

theorem nullable_some (f : Json → Option α) {j : Json} (h : j ≠ null) :
    nullable f (some j) = (f j).map some := by
  rw [nullable]
  exact h

theorem nullable_map {f : Json → Option α} {g : α → Json} {a : Option α}
    (h : ∀ x ∈ a, f (g x) = some x) (hnull : ∀ x, g x ≠ null) : nullable f (a.map g) = some a := by
  cases a with
  | none => rfl
  | some x => rw [Option.map_some, nullable_some f (hnull x), h x rfl, Option.map_some]

end TxGraph.Json
