import Mathlib.Data.List.Forall2
import Mathlib.Data.List.Nodup
import TxGraph.Transaction.Basic

/-!
# Inputs in the order of their use

Reading a transaction from its first command on meets its inputs in some order. An input that is met
again counts once, apart from the elements of a vector of vectors, which may be counted one by one.
A transaction that has the inputs of another under new numbers issues the same calls.
-/

namespace TxGraph

variable {n : Nat}

/-! ## Arguments -/

namespace TxArg

variable {seen : List UInt16}

def input? : TxArg → Option UInt16
  | input i => some i
  | _ => none

def isPure (inputs : List TxInput) : TxArg → Bool
  | input i =>
    match inputs[i.toNat]? with
    | some (.pure ..) => true
    | _ => false
  | _ => false

/-- Adds the input of an argument to those that were met. -/
def note (seen : List UInt16) : TxArg → List UInt16
  | input i => if i ∈ seen then seen else seen ++ [i]
  | _ => seen

theorem prefix_note (seen : List UInt16) (arg : TxArg) : seen <+: note seen arg := by
  cases arg with
  | input i =>
    simp only [note]
    split
    · exact List.prefix_refl _
    · exact List.prefix_append _ _
  | _ => exact List.prefix_refl _

theorem prefix_foldl_note (seen : List UInt16) (args : List TxArg) :
    seen <+: args.foldl note seen := by
  induction args generalizing seen with
  | nil => exact List.prefix_refl _
  | cons arg rest ih => exact (prefix_note seen arg).trans (ih _)

theorem mem_foldl_note {args : List TxArg} {i : UInt16} :
    i ∈ args.foldl note seen ↔ i ∈ seen ∨ .input i ∈ args := by
  induction args generalizing seen with
  | nil => simp
  | cons arg rest ih =>
    rw [List.foldl_cons, ih, List.mem_cons]
    cases arg with
    | input j =>
      simp only [note]
      split <;> grind
    | _ => simp [note]

theorem foldl_note_of_nodup {args : List TxArg} (h : (seen ++ args.filterMap input?).Nodup) :
    args.foldl note seen = seen ++ args.filterMap input? := by
  induction args generalizing seen with
  | nil => simp
  | cons arg rest ih =>
    cases arg with
    | input i =>
      have hsplit : seen ++ (input i :: rest).filterMap input? =
          (seen ++ [i]) ++ rest.filterMap input? := by
        simp [input?]
      rw [hsplit] at h ⊢
      have hnew : i ∉ seen := by
        intro hi
        have := (List.nodup_append.mp (List.nodup_append.mp h).1).2.2
        exact this i hi i (by simp) rfl
      rw [List.foldl_cons, note, if_neg hnew, ih h]
    | _ => exact ih h

/-- The second argument is the first, with the number that its input has among those met. -/
inductive Renumbers (seen : List UInt16) : TxArg → TxArg → Prop
  | gasCoin : Renumbers seen .gasCoin .gasCoin
  | input {i n : UInt16} (h : seen[n.toNat]? = some i) : Renumbers seen (.input i) (.input n)
  | result (j : UInt16) : Renumbers seen (.result j) (.result j)
  | nested (j m : UInt16) : Renumbers seen (.nested j m) (.nested j m)

theorem Renumbers.mono {more : List UInt16} {arg arg' : TxArg} (h : Renumbers seen arg arg')
    (hfront : seen <+: more) : Renumbers more arg arg' := by
  cases h with
  | input h =>
    obtain ⟨rest, rfl⟩ := hfront
    refine .input ?_
    rw [List.getElem?_append_left (List.getElem?_eq_some_iff.mp h).1, h]
  | gasCoin => exact .gasCoin
  | result j => exact .result j
  | nested j m => exact .nested j m

end TxArg

/-! ## Commands -/

namespace TxCommand

variable {c : TxCommand} {seen : List UInt16}

def outline : TxCommand → TxCommand
  | moveCall package module function typeArgs _ => moveCall package module function typeArgs []
  | splitCoins _ _ => splitCoins .gasCoin []
  | mergeCoins _ _ => mergeCoins .gasCoin []
  | transferObjects _ _ => transferObjects [] .gasCoin
  | makeMoveVec elem _ => makeMoveVec elem []
  | publish modules dependencies => publish modules dependencies
  | upgrade modules dependencies package _ => upgrade modules dependencies package .gasCoin
  | unsupported => unsupported

theorem kind?_outline (c : TxCommand) : c.outline.kind? = c.kind? := by
  cases c <;> rfl

theorem target_outline (c : TxCommand) : c.outline.target = c.target := by
  cases c <;> rfl

theorem typeArgs_outline (c : TxCommand) : c.outline.typeArgs = c.typeArgs := by
  cases c <;> rfl

theorem eq_of_outline {d : TxCommand} (h : c.outline = d.outline) (hargs : c.args = d.args) :
    c = d := by
  cases c <;> cases d <;> cases h
  case transferObjects =>
    obtain ⟨rfl, hrecipient⟩ := List.append_inj' hargs rfl
    cases hrecipient
    rfl
  all_goals
    cases hargs
    rfl

structure Renumbers (seen : List UInt16) (c c' : TxCommand) : Prop where
  outline : c'.outline = c.outline
  args : List.Forall₂ (TxArg.Renumbers seen) c.args c'.args

theorem Renumbers.mono {more : List UInt16} {c' : TxCommand} (h : c.Renumbers seen c')
    (hfront : seen <+: more) : c.Renumbers more c' :=
  ⟨h.outline, h.args.imp fun _ _ harg => harg.mono hfront⟩

/-- Whether the command makes a vector of vectors from encodings. -/
def isPacked (inputs : List TxInput) : TxCommand → Bool
  | makeMoveVec (some elem) elems =>
    (DataType.ofMove elem).isVector && elems.all (TxArg.isPure inputs)
  | _ => false

/-- Adds the inputs of a command to those that were met. The elements of a vector of vectors count
one by one. -/
def meet (inputs : List TxInput) (seen : List UInt16) (c : TxCommand) : List UInt16 :=
  if c.isPacked inputs then seen ++ c.args.filterMap TxArg.input? else c.args.foldl TxArg.note seen

theorem prefix_meet (inputs : List TxInput) (seen : List UInt16) (c : TxCommand) :
    seen <+: c.meet inputs seen := by
  unfold meet
  split
  · exact List.prefix_append _ _
  · exact TxArg.prefix_foldl_note _ _

theorem mem_meet {inputs : List TxInput} {i : UInt16} :
    i ∈ c.meet inputs seen ↔ i ∈ seen ∨ .input i ∈ c.args := by
  unfold meet
  split
  · rw [List.mem_append, List.mem_filterMap]
    refine or_congr_right ⟨?_, fun h => ⟨_, h, rfl⟩⟩
    rintro ⟨arg, harg, hi⟩
    cases arg with
    | input j =>
      cases hi
      exact harg
    | _ => cases hi
  · exact TxArg.mem_foldl_note

theorem prefix_foldl_meet (inputs : List TxInput) (seen : List UInt16) (cs : List TxCommand) :
    seen <+: cs.foldl (meet inputs) seen := by
  induction cs generalizing seen with
  | nil => exact List.prefix_refl _
  | cons c rest ih => exact (prefix_meet inputs seen c).trans (ih _)

/-- If no input is met twice, counting one by one makes no difference. -/
theorem foldl_meet_of_nodup {inputs : List TxInput} {cs : List TxCommand}
    (h : (cs.foldl (meet inputs) seen).Nodup) :
    cs.foldl (meet inputs) seen = (cs.flatMap args).foldl TxArg.note seen := by
  induction cs generalizing seen with
  | nil => rfl
  | cons c rest ih =>
    rw [List.foldl_cons, ih h, List.flatMap_cons, List.foldl_append]
    congr 1
    have hc : (c.meet inputs seen).Nodup := h.sublist (prefix_foldl_meet _ _ _).sublist
    unfold meet at hc ⊢
    split at hc
    · rw [if_pos ‹_›, TxArg.foldl_note_of_nodup hc]
    · rw [if_neg ‹_›]

end TxCommand

/-! ## Transactions -/

namespace Transaction

/-- The inputs that the transaction uses, in the order of their first use. -/
def firstUses (t : Transaction) : List UInt16 :=
  (t.commands.flatMap TxCommand.args).foldl TxArg.note []

/-- The inputs that the transaction uses, in the order of their use. Those of vectors of vectors are
not shared. -/
def unshared (t : Transaction) : List UInt16 :=
  t.commands.foldl (TxCommand.meet t.inputs) []

theorem unshared_eq_firstUses {t : Transaction} (h : t.unshared.Nodup) : t.unshared = t.firstUses :=
  TxCommand.foldl_meet_of_nodup h

/-- The second transaction has the inputs of the first that were met, in that order. -/
structure Renumbers (seen : List UInt16) (t t' : Transaction) : Prop where
  inputs : t'.inputs.map some = seen.map fun i => t.inputs[i.toNat]?
  commands : List.Forall₂ (TxCommand.Renumbers seen) t.commands t'.commands

namespace Renumbers

variable {seen : List UInt16} {t t' : Transaction}

theorem getElem?_inputs (h : Renumbers seen t t') {n : Nat} {i : UInt16} (hn : seen[n]? = some i) :
    t'.inputs[n]? = t.inputs[i.toNat]? := by
  have hmap := congrArg (·[n]?) h.inputs
  simp only [List.getElem?_map, hn, Option.map_some] at hmap
  cases hx : t'.inputs[n]? with
  | none => simp [hx] at hmap
  | some x => simpa [hx] using hmap

theorem traceArg_eq (h : Renumbers seen t t') {arg arg' : TxArg} (harg : arg.Renumbers seen arg') :
    traceArg t'.inputs.toArray arg' = traceArg t.inputs.toArray arg := by
  cases harg with
  | input hn => simp only [traceArg, List.getElem?_toArray, h.getElem?_inputs hn]
  | _ => rfl

theorem mapM_eq {α β γ : Type} {R : α → β → Prop} {f : α → Except Address.Uncut γ}
    {g : β → Except Address.Uncut γ} {as : List α} {bs : List β} (h : List.Forall₂ R as bs)
    (hfg : ∀ a b, R a b → g b = f a) : bs.mapM g = as.mapM f := by
  induction h with
  | nil => rfl
  | cons hfirst _ ih => rw [List.mapM_cons, List.mapM_cons, hfg _ _ hfirst, ih]

theorem traceCommand_eq (h : Renumbers seen t t') {c c' : TxCommand} (hc : c.Renumbers seen c') :
    traceCommand t'.inputs.toArray c' = traceCommand t.inputs.toArray c := by
  unfold traceCommand
  rw [← c'.kind?_outline, ← c'.target_outline, ← c'.typeArgs_outline, hc.outline,
    c.kind?_outline, c.target_outline, c.typeArgs_outline,
    mapM_eq hc.args fun _ _ harg => h.traceArg_eq harg]

/-- **Renumbered transactions issue the same calls.** -/
theorem callTrace_eq (h : Renumbers seen t t') : t'.callTrace = t.callTrace := by
  unfold callTrace
  dsimp only
  rw [mapM_eq h.commands fun _ _ hc => h.traceCommand_eq hc]

end Renumbers

end Transaction

/-! ## Inputs that are in order -/

theorem toNat_index (h : n < Limited.limit) : (UInt16.ofNat n).toNat = n :=
  UInt16.toNat_ofNat_of_lt h

def indices (n : Nat) : List UInt16 :=
  (List.range n).map UInt16.ofNat

theorem indices_succ (n : Nat) : indices (n + 1) = indices n ++ [UInt16.ofNat n] := by
  simp [indices, List.range_succ]

theorem mem_indices (hn : n ≤ Limited.limit) {i : UInt16} : i ∈ indices n ↔ i.toNat < n := by
  simp only [indices, List.mem_map, List.mem_range]
  constructor
  · rintro ⟨m, hm, rfl⟩
    rwa [toNat_index (Nat.lt_of_lt_of_le hm hn)]
  · exact fun hi => ⟨i.toNat, hi, by simp⟩

theorem eq_of_getElem?_indices {i j : UInt16} (h : (indices n)[j.toNat]? = some i) : i = j := by
  rw [indices, List.getElem?_map, Option.map_eq_some_iff] at h
  obtain ⟨m, hm, rfl⟩ := h
  rw [List.getElem?_eq_some_iff] at hm
  obtain ⟨hlt, hm⟩ := hm
  rw [List.getElem_range] at hm
  rw [← hm, UInt16.ofNat_toNat]

namespace Transaction

/-- A transaction whose inputs are in order keeps their numbers. -/
theorem Renumbers.eq_of_indices {t t' : Transaction}
    (h : Renumbers (indices t.inputs.length) t t') (hfew : t.inputs.length ≤ Limited.limit)
    (hsender : t'.sender = t.sender) (hbudget : t'.gasBudget = t.gasBudget) : t' = t := by
  have hinputs : t'.inputs = t.inputs := by
    have hmap : (indices t.inputs.length).map (fun i => t.inputs[i.toNat]?) = t.inputs.map some := by
      refine List.ext_getElem? fun n => ?_
      by_cases hn : n < t.inputs.length
      · simp [indices, toNat_index (Nat.lt_of_lt_of_le hn hfew), hn]
      · simp [indices, hn]
    exact List.map_injective_iff.mpr (fun _ _ => Option.some.inj) (h.inputs.trans hmap)
  have hargs {as as' : List TxArg}
      (has : List.Forall₂ (TxArg.Renumbers (indices t.inputs.length)) as as') : as' = as := by
    induction has with
    | nil => rfl
    | cons hfirst _ ih =>
      rw [ih]
      cases hfirst with
      | input hn => rw [eq_of_getElem?_indices hn]
      | _ => rfl
  have hcommands {cs cs' : List TxCommand}
      (hcs : List.Forall₂ (TxCommand.Renumbers (indices t.inputs.length)) cs cs') : cs' = cs := by
    induction hcs with
    | nil => rfl
    | cons hfirst _ ih => rw [ih, TxCommand.eq_of_outline hfirst.outline (hargs hfirst.args)]
  obtain ⟨sender, budget, inputs, commands⟩ := t
  obtain ⟨sender', budget', inputs', commands'⟩ := t'
  cases hsender
  cases hbudget
  cases hinputs
  rw [show commands' = commands from hcommands h.commands]

end Transaction

end TxGraph
