import TxGraph.Proofs.Pure.Recode

/-!
# Resolved values in layers

A resolved value is a literal, a handle, or a list that has its handles at one depth. A literal
inside such a list is hollow: it is made of empty vectors.
-/

namespace TxGraph

theorem Literal.noBytes_list {items : List Literal} :
    (Literal.list items).NoBytes ↔ ∀ item ∈ items, item.NoBytes := by
  have go : Literal.Leaves.all (fun l => ∀ bs, l ≠ .bytes bs) items ↔
      ∀ item ∈ items, item.NoBytes := by
    induction items with
    | nil => simp [Literal.Leaves.all]
    | cons item rest ih =>
      rw [List.forall_mem_cons, ← ih]
      rfl
  exact go

theorem Literal.noBytes_withSender (address : String) : {value : Literal} → value.NoBytes →
    (value.withSender address).NoBytes
  | .list items, h => go items h
  | .bytes _, h => h
  | .sender, _ => nofun
  | .bool _, h => h
  | .string _, h => h
  | .address _, h => h
  | .number _, h => h
  | .integer _ _, h => h
where
  go : (items : List Literal) → Literal.Leaves.all (fun l => ∀ bs, l ≠ .bytes bs) items →
      Literal.Leaves.all (fun l => ∀ bs, l ≠ .bytes bs)
        (Literal.withSender.withSenderAll address items)
    | [], _ => trivial
    | _ :: rest, h => ⟨noBytes_withSender address h.1, go rest h.2⟩

theorem Literal.NoBytes.given {value : Literal} (h : value.NoBytes) (sender : Option String) :
    (value.given sender).NoBytes := by
  unfold Literal.given
  cases sender with
  | none => exact h
  | some s => exact Literal.noBytes_withSender s h

/-- Vectors to the given depth, and nothing inside. -/
def Literal.Hollow : (depth : Nat) → Literal → Prop
  | depth + 1, .list items => ∀ item ∈ items, Hollow depth item
  | _, _ => False

namespace Literal.Hollow

variable {depth : Nat} {value : Literal}

theorem noBytes (h : value.Hollow depth) : value.NoBytes := by
  induction depth generalizing value with
  | zero => cases h
  | succ depth ih =>
    cases value with
    | list items => exact Literal.noBytes_list.mpr fun item hitem => ih (h item hitem)
    | _ => cases h

theorem inferKind_eq (h : value.Hollow depth) :
    PureValue.inferKind value = .error .emptyVector := by
  induction depth generalizing value with
  | zero => cases h
  | succ depth ih =>
    cases value with
    | list items =>
      cases items with
      | nil => rfl
      | cons first rest =>
        have hfirst := ih (h first List.mem_cons_self)
        simp only [PureValue.inferKind, hfirst]
        rfl
    | _ => cases h

theorem withSender (address : String) (h : value.Hollow depth) :
    (value.withSender address).Hollow depth := by
  induction depth generalizing value with
  | zero => cases h
  | succ depth ih =>
    cases value with
    | list items =>
      rw [Literal.withSender, withSenderAll_eq_map]
      exact List.forall_mem_map.mpr fun item hitem => ih (h item hitem)
    | _ => cases h

theorem given (h : value.Hollow depth) (sender : Option String) :
    (value.given sender).Hollow depth := by
  unfold Literal.given
  cases sender with
  | none => exact h
  | some s => exact h.withSender s

theorem solid (h : value.Hollow depth) {kind : ParamKind} (hkind : kind.Declared)
    {found : PureValue} (hencode : PureValue.encode kind value = .ok found) : kind.Solid := by
  obtain ⟨eff, bs, heff, hbytes, -⟩ := (PureValue.encode_eq_ok h.noBytes.ne_bytes).mp hencode
  rcases hkind with rfl | rfl | hsolid
  · cases heff
    cases value with
    | bytes bs => exact absurd rfl (h.noBytes.ne_bytes bs)
    | _ => simp [PureValue.encodeAs] at hbytes
  · rw [PureValue.effectiveKind, h.inferKind_eq] at heff
    cases heff
  · exact hsolid

end Literal.Hollow

namespace Lowering

variable {η : Type}

namespace Resolved

def isLiteral : Resolved η → Bool
  | .literal _ => true
  | _ => false

def handles : Resolved η → List η
  | .literal _ => []
  | .handle a => [a]
  | .list items => all items
where
  all : List (Resolved η) → List η
    | [] => []
    | item :: rest => item.handles ++ all rest

/-- A value with its handles below the given number of lists. A list has more than literals. -/
def Layered (pass : η → Prop) : (depth : Nat) → Resolved η → Prop
  | depth, .literal value => value.Hollow depth
  | 0, .handle a => pass a
  | depth + 1, .list items => (∀ item ∈ items, Layered pass depth item) ∧
    ∃ item ∈ items, item.isLiteral = false
  | _, _ => False

/-- A value that can be given to a parameter. -/
inductive Good (pass : η → Prop) : Resolved η → Prop
  | literal {value : Literal} (h : value.NoBytes) : Good pass (.literal value)
  | handle {a : η} (h : pass a) : Good pass (.handle a)
  | list {items : List (Resolved η)} {depth : Nat} (h : ∀ item ∈ items, Layered pass depth item)
    (hmixed : ∃ item ∈ items, item.isLiteral = false) : Good pass (.list items)

variable {pass pass' : η → Prop}
variable {depth : Nat} {items : List (Resolved η)}

theorem Layered.mono {value : Resolved η} (h : value.Layered pass depth)
    (hpass : ∀ a, pass a → pass' a) : value.Layered pass' depth := by
  induction depth generalizing value with
  | zero =>
    cases value with
    | literal v => exact h
    | handle a => exact hpass a h
    | list items => cases h
  | succ depth ih =>
    cases value with
    | literal v => exact h
    | handle a => cases h
    | list items => exact ⟨fun item hitem => ih (h.1 item hitem), h.2⟩

theorem Layered.good {value : Resolved η} (h : value.Layered pass depth) : value.Good pass := by
  cases value with
  | literal v =>
    have hollow : v.Hollow depth := by cases depth <;> exact h
    exact .literal hollow.noBytes
  | handle a =>
    cases depth with
    | zero => exact .handle h
    | succ depth => cases h
  | list items =>
    cases depth with
    | zero => cases h
    | succ depth => exact .list h.1 h.2

theorem literals?_eq_some {ls : List Literal} (h : literals? items = some ls) :
    items = ls.map .literal := by
  induction items generalizing ls with
  | nil =>
    cases h
    rfl
  | cons item rest ih =>
    cases item with
    | literal l =>
      obtain ⟨ls, hls, rfl⟩ := Option.map_eq_some_iff.mp h
      rw [List.map_cons, ← ih hls]
    | handle _ => cases h
    | list _ => cases h

theorem literals?_map (ls : List Literal) :
    literals? (ls.map (Resolved.literal (η := η))) = some ls := by
  induction ls with
  | nil => rfl
  | cons l ls ih => simp [literals?, ih]

theorem literals?_eq_none (h : literals? items = none) :
    ∃ item ∈ items, item.isLiteral = false := by
  induction items with
  | nil => cases h
  | cons item rest ih =>
    cases item with
    | literal l =>
      obtain ⟨item, hitem, hmixed⟩ := ih (Option.map_eq_none_iff.mp h)
      exact ⟨item, List.mem_cons_of_mem _ hitem, hmixed⟩
    | handle a => exact ⟨.handle a, List.mem_cons_self, rfl⟩
    | list items => exact ⟨.list items, List.mem_cons_self, rfl⟩

theorem layered_vector (h : ∀ item ∈ items, item.Layered pass depth) :
    (Resolved.vector items).Layered pass (depth + 1) := by
  unfold Resolved.vector
  split
  case h_1 ls hls =>
    rw [literals?_eq_some hls] at h
    intro l hl
    have hliteral := h (.literal l) (List.mem_map_of_mem hl)
    cases depth <;> exact hliteral
  case h_2 hnone => exact ⟨h, literals?_eq_none hnone⟩

theorem handles_literals (ls : List Literal) :
    handles.all (ls.map (Resolved.literal (η := η))) = [] := by
  induction ls with
  | nil => rfl
  | cons l ls ih => simpa [handles.all, handles] using ih

theorem handles_vector (items : List (Resolved η)) :
    (Resolved.vector items).handles = handles.all items := by
  unfold Resolved.vector
  split
  case h_1 ls hls =>
    rw [literals?_eq_some hls]
    exact (handles_literals ls).symm
  case h_2 => rfl

/-- Handles at the outermost depth stand by themselves. -/
theorem eq_handles_of_layered_zero (h : ∀ item ∈ items, item.Layered pass 0) :
    items = (handles.all items).map .handle := by
  induction items with
  | nil => rfl
  | cons item rest ih =>
    obtain ⟨hitem, hrest⟩ := List.forall_mem_cons.mp h
    cases item with
    | literal v => cases hitem
    | handle a =>
      rw [handles.all, handles, List.singleton_append, List.map_cons, ← ih hrest]
    | list items => cases hitem

end Resolved

end Lowering

end TxGraph
