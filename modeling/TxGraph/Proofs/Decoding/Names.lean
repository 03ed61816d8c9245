import TxGraph.Proofs.Decoding.Drawing

/-!
# Ids of decoded nodes

The ids that decoding gives to nodes are distinct: they start differently, or with the number of a
command, whose digits end where an underscore follows.
-/

namespace TxGraph.Decoding

variable {c : Context} {k : Nat}

/-- What a node of a decoded graph is there for. -/
inductive NodeName
  | start
  | finish
  | gas
  | input (index : Nat)
  | command (k : Nat)
  | typeArg (k index : Nat)
  | elems (k : Nat)
  deriving DecidableEq

namespace NodeName

def id : NodeName → String
  | start => startId
  | finish => finishId
  | gas => gasId
  | input index => inputId index
  | command k => commandId k
  | typeArg k index => commandId k ++ "_targ_" ++ toString index
  | elems k => commandId k ++ "_elems"

def initial : NodeName → Char
  | start => 's'
  | finish => 'e'
  | gas => 'g'
  | input _ => 'i'
  | _ => 'c'

theorem head?_id (name : NodeName) : name.id.toList.head? = some name.initial := by
  cases name <;> simp [id, startId, finishId, gasId, inputId, commandId, initial]

/-- Digits end where an underscore follows. -/
theorem number_inj {m n : Nat} {s s' : List Char} (hs : s = [] ∨ s.head? = some '_')
    (hs' : s' = [] ∨ s'.head? = some '_') (h : m.repr.toList ++ s = n.repr.toList ++ s') :
    m = n ∧ s = s' := by
  have hdigits {k : Nat} {r : List Char} (hr : r = [] ∨ r.head? = some '_') :
      (k.repr.toList ++ r).takeWhile Char.isDigit = k.repr.toList := by
    rw [List.takeWhile_append_of_pos fun c hc => Text.isDigit_of_mem_repr hc]
    rcases hr with rfl | hr
    · simp
    · cases r with
      | nil => cases hr
      | cons c r =>
        cases hr
        simp [List.takeWhile]
  have hsame : m.repr.toList = n.repr.toList := by
    rw [← hdigits hs, h, hdigits hs']
  have hmn : m = n := Text.repr_inj.mp (String.toList_inj.mp hsame)
  subst hmn
  exact ⟨rfl, List.append_cancel_left h⟩

def number? : NodeName → Option Nat
  | command k => some k
  | typeArg k _ => some k
  | elems k => some k
  | _ => none

def suffix : NodeName → List Char
  | typeArg _ index => ['_', 't', 'a', 'r', 'g', '_'] ++ index.repr.toList
  | elems _ => ['_', 'e', 'l', 'e', 'm', 's']
  | _ => []

theorem suffix_cases (name : NodeName) : name.suffix = [] ∨ name.suffix.head? = some '_' := by
  cases name <;> first | exact .inl rfl | exact .inr rfl

theorem toList_id {name : NodeName} {k : Nat} (h : name.number? = some k) :
    name.id.toList = "cmd_".toList ++ (k.repr.toList ++ name.suffix) := by
  cases name <;> cases h <;> simp [id, commandId, suffix, Nat.toString_eq_repr]

theorem isSome_number? (name : NodeName) : name.number?.isSome = (name.initial == 'c') := by
  cases name <;> rfl

theorem id_inj {a b : NodeName} (h : a.id = b.id) : a = b := by
  have hhead : a.initial = b.initial := by
    have := congrArg (fun s => s.toList.head?) h
    simpa [head?_id] using this
  have hsome : a.number?.isSome = b.number?.isSome := by
    rw [isSome_number?, isSome_number?, hhead]
  cases hk : a.number? with
  | none =>
    have hn : b.number? = none := by simpa [hk] using hsome.symm
    cases a <;> cases hk <;> cases b <;> cases hn <;>
      simp_all [initial, id, inputId, Nat.toString_eq_repr]
  | some k =>
    obtain ⟨n, hn⟩ : ∃ n, b.number? = some n :=
      Option.isSome_iff_exists.mp (by rw [← hsome, hk]; rfl)
    have hlist := congrArg String.toList h
    rw [toList_id hk, toList_id hn, List.append_cancel_left_eq] at hlist
    obtain ⟨rfl, hsuffix⟩ := number_inj a.suffix_cases b.suffix_cases hlist
    cases a <;> cases hk <;> cases b <;> cases hn <;> simp_all [suffix]
    refine Text.repr_inj.mp (String.toList_inj.mp ?_)
    rwa [Nat.toList_repr, Nat.toList_repr]

end NodeName

/-! ## Ids of nodes -/

/-- The ids of nodes, by names that are distinct. -/
def Named (nodes : List Node) (names : List NodeName) : Prop :=
  nodes.map Node.id = names.map NodeName.id ∧ names.Nodup

theorem Named.nodup {nodes : List Node} {names : List NodeName} (h : Named nodes names) :
    (nodes.map Node.id).Nodup := by
  rw [h.1]
  exact h.2.map fun _ _ => NodeName.id_inj

theorem Named.append {nodes nodes' : List Node} {names names' : List NodeName}
    (h : Named nodes names) (h' : Named nodes' names') (hne : ∀ n ∈ names, n ∉ names') :
    Named (nodes ++ nodes') (names ++ names') := by
  refine ⟨by rw [List.map_append, List.map_append, h.1, h'.1], ?_⟩
  exact List.Nodup.append h.2 h'.2 fun n hn hn' => hne n hn hn'

theorem named_inputs {vs : List Variable} (h : ∀ n v, vs[n]? = some v → v.id = inputId n) :
    Named (vs.map .var) ((List.range vs.length).map .input) := by
  refine ⟨List.ext_getElem? fun n => ?_, List.nodup_range.map fun _ _ => NodeName.input.inj⟩
  rw [List.map_map, List.map_map, List.getElem?_map, List.getElem?_map]
  by_cases hn : n < vs.length
  · have hv := List.getElem?_eq_getElem hn
    rw [hv, List.getElem?_range hn]
    exact congrArg some (h n _ hv)
  · simp [hn]

theorem named_vars {command : TxCommand} {d : Drawing} (h : Outlines c k command d) :
    ∃ names, Named d.vars names ∧ ∀ n ∈ names, n.number? = some k ∧ n ≠ .command k := by
  have hnil : Named [] [] := ⟨rfl, List.nodup_nil⟩
  cases command with
  | unsupported => cases h
  | moveCall package module function typeArgs args =>
    obtain ⟨call, rfl⟩ := h
    refine ⟨(List.range typeArgs.length).map (.typeArg k), ⟨?_, ?_⟩, fun n hn => ?_⟩
    · refine List.ext_getElem? fun n => ?_
      by_cases hn : n < typeArgs.length <;> simp [Drawing.vars, drawCall, hn]
      rfl
    · exact List.nodup_range.map fun _ _ heq => (NodeName.typeArg.inj heq).2
    · obtain ⟨i, -, rfl⟩ := List.mem_map.mp hn
      exact ⟨rfl, nofun⟩
  | makeMoveVec elem elems =>
    cases h
    unfold drawVector
    split
    · split
      · exact ⟨[.elems k], ⟨rfl, List.nodup_singleton _⟩,
          List.forall_mem_singleton.mpr ⟨rfl, nofun⟩⟩
      · exact ⟨[], hnil, nofun⟩
    · exact ⟨[], hnil, nofun⟩
  | _ =>
    cases h
    exact ⟨[], hnil, nofun⟩

theorem named_nodes {command : TxCommand} {d : Drawing} (h : Outlines c k command d) :
    ∃ names, Named (d.nodes k) names ∧ ∀ n ∈ names, n.number? = some k := by
  obtain ⟨names, hnames, hown⟩ := named_vars h
  have hcommand : Named [.command (commandId k) d.command] [.command k] :=
    ⟨rfl, List.nodup_singleton _⟩
  refine ⟨names ++ [.command k], hnames.append hcommand fun n hn hmem => ?_, fun n hn => ?_⟩
  · exact (hown n hn).2 (List.mem_singleton.mp hmem)
  · rcases List.mem_append.mp hn with hn | hn
    · exact (hown n hn).1
    · rw [List.mem_singleton.mp hn]
      rfl

def Plan.Outlined (c : Context) (k : Nat) (plan : Plan) : Prop :=
  ∀ j d, plan[j]? = some (some d) → ∃ command, Outlines c (k + j) command d

theorem Plan.Outlined.tail {first : Option Drawing} {rest : Plan}
    (h : Plan.Outlined c k (first :: rest)) : Plan.Outlined c (k + 1) rest := by
  intro j d hj
  obtain ⟨command, hcommand⟩ := h (j + 1) d hj
  exact ⟨command, by rwa [Nat.add_assoc, Nat.add_comm 1 j]⟩

theorem named_plan {plan : Plan} :
    ∀ {k : Nat}, plan.Outlined c k →
    ∃ names, Named (plan.nodes k) names ∧ ∀ n ∈ names, ∃ j d, n.number? = some (k + j) ∧
      plan[j]? = some (some d) := by
  induction plan with
  | nil => exact fun _ => ⟨[], ⟨rfl, List.nodup_nil⟩, nofun⟩
  | cons first rest ih =>
    intro k hplan
    obtain ⟨names, hnames, hlater⟩ := ih hplan.tail
    have hshift : ∀ n ∈ names, ∃ j d, n.number? = some (k + (j + 1)) ∧
        (first :: rest)[j + 1]? = some (some d) := by
      intro n hn
      obtain ⟨j, d, hnumber, hj⟩ := hlater n hn
      exact ⟨j, d, by rwa [Nat.add_comm j 1, ← Nat.add_assoc], hj⟩
    cases first with
    | none => exact ⟨names, hnames, fun n hn => (hshift n hn).elim fun j h => ⟨j + 1, h⟩⟩
    | some d =>
      obtain ⟨command, hcommand⟩ := hplan 0 d rfl
      obtain ⟨own, hown, hnumber⟩ := named_nodes hcommand
      refine ⟨own ++ names, hown.append hnames fun n hn hmem => ?_, fun n hn => ?_⟩
      · obtain ⟨j, _, hj, -⟩ := hshift n hmem
        rw [hnumber n hn] at hj
        cases hj
      · rcases List.mem_append.mp hn with hn | hn
        · exact ⟨0, d, hnumber n hn, rfl⟩
        · exact (hshift n hn).elim fun j h => ⟨j + 1, h⟩

section

variable {c : Context} {vs : List Variable} {plan : Plan}
  (hvs : ∀ n v, vs[n]? = some v → v.id = inputId n) (hplan : plan.Outlined c 0)

include hvs hplan

theorem named_graph : ∃ names, Named (markers ++ vs.map Node.var ++ plan.nodes 0) names := by
  obtain ⟨names, hnames, hnumber⟩ := named_plan hplan
  have hmarkers : Named markers [.start, .finish, .gas] := ⟨rfl, by decide⟩
  refine ⟨_, (hmarkers.append (named_inputs hvs) ?_).append hnames ?_⟩
  · intro n hn hmem
    obtain ⟨i, -, rfl⟩ := List.mem_map.mp hmem
    simp at hn
  · intro n hn hmem
    obtain ⟨j, _, hj, -⟩ := hnumber n hmem
    rcases List.mem_append.mp hn with hn | hn
    · simp only [List.mem_cons, List.not_mem_nil, or_false] at hn
      rcases hn with rfl | rfl | rfl <;> cases hj
    · obtain ⟨i, -, rfl⟩ := List.mem_map.mp hn
      cases hj

/-- **The nodes of a plan have distinct ids.** -/
theorem nodup_plan : ((markers ++ vs.map Node.var ++ plan.nodes 0).map Node.id).Nodup := by
  obtain ⟨names, hnames⟩ := named_graph hvs hplan
  exact hnames.nodup

end

theorem id_inputVar (index : Nat) (x : TxInput) : (inputVar index x).id = inputId index := by
  cases x <;> rfl

end TxGraph.Decoding
