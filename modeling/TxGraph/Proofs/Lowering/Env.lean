import Mathlib.Data.List.Nodup
import TxGraph.Lowering.Walk
import TxGraph.Proofs.Directory

/-!
# Environments

The environment of a walk starts with the values of the variables. Each operation then binds its
outputs to handles, as far as there are handles for them.
-/

namespace TxGraph

/-- The value of a variable. Of several variables of one name the last one is meant. -/
def Program.valueOf? (p : Program) (name : String) : Option Operand :=
  (p.vars.reverse.find? fun v => v.name == name).map Binding.init

namespace Lowering

variable {σ η : Type}

/-! ## The values of variables -/

theorem init_of_initialEnv {vars : List Binding} {name : String} {entry : Entry η}
    (h : Directory.get? (initialEnv vars) name = some entry) :
    ∃ v ∈ vars, v.name = name ∧ entry = .init v.init := by
  rw [initialEnv, Directory.get?_ofEntries] at h
  obtain ⟨before, after, hsplit, -⟩ := List.lookup_eq_some_iff.mp h
  have hmem : (name, entry) ∈ (vars.map fun v => (v.name, Entry.init v.init)).reverse :=
    hsplit ▸ List.mem_append_right before List.mem_cons_self
  obtain ⟨v, hv, heq⟩ := List.mem_map.mp (List.mem_reverse.mp hmem)
  cases heq
  exact ⟨v, hv, rfl, rfl⟩

theorem get?_initialEnv_of_mem {vars : List Binding} (h : (vars.map Binding.name).Nodup)
    {v : Binding} (hv : v ∈ vars) :
    Directory.get? (initialEnv (η := η) vars) v.name = some (.init v.init) := by
  rw [initialEnv, Directory.get?_ofEntries]
  refine lookup_eq_some_of_mem ?_ (List.mem_reverse.mpr (List.mem_map_of_mem hv))
  rw [List.map_reverse, List.nodup_reverse, List.map_map]
  exact h

theorem get?_initialEnv_eq (p : Program) (name : String) :
    Directory.get? (initialEnv (η := η) p.vars) name = (p.valueOf? name).map .init := by
  rw [initialEnv, Directory.get?_ofEntries, ← List.map_reverse, Program.valueOf?]
  generalize p.vars.reverse = vars
  induction vars with
  | nil => rfl
  | cons v rest ih =>
    rw [List.map_cons, List.lookup_cons, List.find?_cons, BEq.comm]
    cases v.name == name with
    | true => rfl
    | false => exact ih

theorem get?_initialEnv {p : Program} {name : String} {init : Operand}
    (h : p.valueOf? name = some init) :
    Directory.get? (initialEnv (η := η) p.vars) name = some (.init init) := by
  rw [get?_initialEnv_eq, h, Option.map_some]

/-! ## The outputs of operations -/

def bindEnv : List String → List η → Directory (Entry η) → Directory (Entry η)
  | name :: names, a :: as, env => bindEnv names as (Directory.insert name (.bound a) env)
  | _, _, env => env

theorem run_bindAll : (names : List String) → (as : List η) → (w : Walk σ η) →
    (Context.bindAll names as).run w = .ok ((), { w with env := bindEnv names as w.env })
  | [], _, _ => rfl
  | _ :: _, [], _ => rfl
  | name :: names, a :: as, w =>
    run_bindAll names as { w with env := Directory.insert name (.bound a) w.env }

theorem get?_bindEnv : {names : List String} → {as : List η} → {env : Directory (Entry η)} →
    {name : String} → {entry : Entry η} →
    Directory.get? (bindEnv names as env) name = some entry →
    Directory.get? env name = some entry ∨ ∃ (i : Nat) (a : η), names[i]? = some name ∧
      as[i]? = some a ∧ entry = .bound a
  | [], _, _, _, _, h => .inl h
  | _ :: _, [], _, _, _, h => .inl h
  | first :: names, a :: as, env, name, entry, h => by
    have hrest : Directory.get? (bindEnv names as (Directory.insert first (.bound a) env)) name =
        some entry := h
    rcases get?_bindEnv hrest with hold | ⟨i, b, hname, hb, hentry⟩
    · rw [Directory.get?_insert] at hold
      split at hold
      case isTrue heq =>
        cases hold
        exact .inr ⟨0, a, by rw [heq, List.getElem?_cons_zero], rfl, rfl⟩
      case isFalse => exact .inl hold
    · exact .inr ⟨i + 1, b, hname, hb, hentry⟩

theorem get?_bindEnv_of_notMem : {names : List String} → {as : List η} →
    {env : Directory (Entry η)} → {name : String} → name ∉ names.take as.length →
    Directory.get? (bindEnv names as env) name = Directory.get? env name
  | [], _, _, _, _ => rfl
  | _ :: _, [], _, _, _ => rfl
  | _ :: names, _ :: as, _, _, h => by
    obtain ⟨hne, hnot⟩ := not_or.mp (mt List.mem_cons.mpr h)
    rw [bindEnv, get?_bindEnv_of_notMem hnot, Directory.get?_insert, if_neg (Ne.symm hne)]

theorem get?_bindEnv_of_nodup : {names : List String} → {as : List η} →
    {env : Directory (Entry η)} → names.Nodup → {i : Nat} → {name : String} → {a : η} →
    names[i]? = some name → as[i]? = some a →
    Directory.get? (bindEnv names as env) name = some (.bound a)
  | first :: names, _ :: as, _, hnames, i, name, a, hname, ha => by
    obtain ⟨hfirst, hnames⟩ := List.nodup_cons.mp hnames
    cases i with
    | zero =>
      cases hname
      cases ha
      rw [bindEnv, get?_bindEnv_of_notMem fun hmem => hfirst (List.mem_of_mem_take hmem),
        Directory.get?_insert, if_pos rfl]
    | succ i => exact get?_bindEnv_of_nodup hnames hname ha

end Lowering

end TxGraph
