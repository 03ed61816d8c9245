import TxGraph.Proofs.Lowering.Layers
import TxGraph.Proofs.Program.Layers
import TxGraph.Proofs.Transaction.Builder
import TxGraph.Proofs.Transaction.Tidy

/-!
# Drafts

While an operation is lowered to a transaction, inputs and commands are added at the end and nothing
is taken back. A draft is sound when it is tidy so far. `Reaches` says of two drafts that the second
is sound if the first is, and that what was ready to be an argument is ready; `Scans` says that new
inputs are met in the order of their numbers, unless a command was added.
-/

namespace TxGraph.Lowering

open Transaction (Builder)

variable {α : Type}

/-! ## Drafts -/

/-- A walk that builds a transaction. -/
abbrev Draft := Walk Builder TxArg

def Walk.inputs (w : Draft) : List TxInput :=
  w.target.inputs.toList

def Walk.commands (w : Draft) : List TxCommand :=
  w.target.commands.toList

abbrev Walk.addInput (w : Draft) (input : TxInput) : Draft :=
  { w with target := w.target.addInput input }

abbrev Walk.addCommand (w : Draft) (c : TxCommand) : Draft :=
  { w with target := w.target.addCommand c }

section

variable (rule : TxCommand.Rule) (kinds : UInt16 → ParamKind)

/-- The draft is tidy, and so is what names stand for. -/
structure Sound (w : Draft) : Prop where
  tidy : Transaction.Tidy rule kinds w.inputs w.commands
  bound (name : String) (arg : TxArg) : Directory.get? w.env name = some (.bound arg) →
    arg.Stands w.inputs w.commands
  init (name : String) (value : Operand) : Directory.get? w.env name = some (.init value) →
    value.Even ∧ value.NoBytes
  unsigned : w.target.sender = none

/-- The argument can be given to a parameter of the kind in the next command. An encoding is one
of the inputs from number `least` on. -/
def Ready (least : Nat) (w : Draft) (kind : ParamKind) (arg : TxArg) : Prop :=
  arg.Stands w.inputs w.commands ∨ ∃ i : UInt16, arg = .input i ∧ least ≤ i.toNat ∧
    TxInput.PureAt kinds w.inputs i kind ∧ TxInput.Unused w.commands i

def MemoReady (w : Draft) : Prop :=
  ∀ e ∈ w.memo, Ready kinds 0 w e.1.1 e.2

end

/-- The second draft extends the first. New commands use new encodings only. -/
structure Extends (kinds : UInt16 → ParamKind) (w : Draft)
    (kinds' : UInt16 → ParamKind) (w' : Draft) : Prop where
  inputs : w.inputs <+: w'.inputs
  commands : w.commands <+: w'.commands
  env : w'.env = w.env
  sender : w'.target.sender = w.target.sender
  kinds (i : UInt16) : i.toNat < w.inputs.length → kinds' i = kinds i
  fresh (j : Nat) (c : TxCommand) : w.commands.length ≤ j → w'.commands[j]? = some c →
    ∀ i : UInt16, .input i ∈ c.args → (∃ type bs, w'.inputs[i.toNat]? = some (.pure type bs)) →
    w.inputs.length ≤ i.toNat

/-- If no command was added, the arguments meet the new inputs in the order of their numbers. -/
def Scans (w : Draft) (args : List TxArg) (w' : Draft) : Prop :=
  w'.commands.length = w.commands.length →
    args.foldl TxArg.note (indices w.inputs.length) = indices w'.inputs.length

section

variable {rule : TxCommand.Rule} {kinds kinds' kinds'' : UInt16 → ParamKind}
  {w w' w'' : Draft}
variable {least : Nat} {kind : ParamKind} {arg : TxArg}

namespace Extends

theorem refl (kinds : UInt16 → ParamKind) (w : Draft) : Extends kinds w kinds w :=
  ⟨List.prefix_refl _, List.prefix_refl _, rfl, rfl, fun _ _ => rfl,
    fun _ _ hj hc => absurd (lt_of_getElem? hc) (Nat.not_lt.mpr hj)⟩

theorem trans (h : Extends kinds w kinds' w') (h' : Extends kinds' w' kinds'' w'') :
    Extends kinds w kinds'' w'' := by
  have hlen := h.inputs.length_le
  refine ⟨h.inputs.trans h'.inputs, h.commands.trans h'.commands, h'.env.trans h.env,
    h'.sender.trans h.sender, fun i hi => ?_, fun j c hj hc i hi hpure => ?_⟩
  · rw [h'.kinds i (by omega), h.kinds i hi]
  · by_cases hold : j < w'.commands.length
    · by_cases hnew : i.toNat < w'.inputs.length
      · obtain ⟨type, bs, hpure⟩ := hpure
        obtain ⟨rest, hrest⟩ := h'.commands
        obtain ⟨more, hmore⟩ := h'.inputs
        rw [← hrest, List.getElem?_append_left hold] at hc
        rw [← hmore, List.getElem?_append_left hnew] at hpure
        exact h.fresh j c hj hc i hi ⟨type, bs, hpure⟩
      · omega
    · have := h'.fresh j c (Nat.not_lt.mp hold) hc i hi hpure
      omega

theorem stands (h : Extends kinds w kinds' w') {arg : TxArg}
    (ha : arg.Stands w.inputs w.commands) : arg.Stands w'.inputs w'.commands :=
  ha.mono h.inputs h.commands

theorem unused (h : Extends kinds w kinds' w') {i : UInt16} {type : Option String} {bs : Bytes}
    (hpure : w.inputs[i.toNat]? = some (.pure type bs)) (hunused : TxInput.Unused w.commands i) :
    TxInput.Unused w'.commands i := by
  intro c hc hmem
  obtain ⟨j, hj⟩ := List.mem_iff_getElem?.mp hc
  by_cases hold : j < w.commands.length
  · obtain ⟨rest, hrest⟩ := h.commands
    rw [← hrest, List.getElem?_append_left hold] at hj
    exact hunused c (List.mem_of_getElem? hj) hmem
  · have hle := h.fresh j c (Nat.not_lt.mp hold) hj i hmem
      ⟨type, bs, getElem?_mono h.inputs hpure⟩
    exact absurd (lt_of_getElem? hpure) (Nat.not_lt.mpr hle)

theorem ready (h : Extends kinds w kinds' w') {least : Nat} {kind : ParamKind} {arg : TxArg}
    (ha : Ready kinds least w kind arg) : Ready kinds' least w' kind arg := by
  rcases ha with ha | ⟨i, rfl, hleast, hpure, hunused⟩
  · exact .inl (h.stands ha)
  · obtain ⟨type, bs, hbytes⟩ := hpure.pure
    exact .inr ⟨i, rfl, hleast, hpure.mono h.inputs h.kinds, h.unused hbytes hunused⟩

theorem memoReady (h : Extends kinds w kinds' w') (hmemo : w'.memo = w.memo)
    (hw : MemoReady kinds w) : MemoReady kinds' w' := by
  intro e he
  rw [hmemo] at he
  exact h.ready (hw e he)

end Extends

theorem Ready.fits (h : Ready kinds least w kind arg) :
    arg.Fits kinds w.inputs w.commands kind := by
  rcases h with h | ⟨i, rfl, -, hpure, -⟩
  · exact .inl h
  · exact .inr ⟨i, rfl, hpure⟩

theorem Ready.mono_least {least' : Nat} (h : Ready kinds least w kind arg) (hle : least' ≤ least) :
    Ready kinds least' w kind arg := by
  rcases h with h | ⟨i, rfl, hleast, hpure, hunused⟩
  · exact .inl h
  · exact .inr ⟨i, rfl, hle.trans hleast, hpure, hunused⟩

theorem Ready.least_zero (h : Ready kinds least w kind arg) : Ready kinds 0 w kind arg :=
  h.mono_least (Nat.zero_le _)

namespace Scans

theorem nil (w : Draft) : Scans w [] w := fun _ => rfl

theorem append {as bs : List TxArg} (h : Scans w as w') (h' : Scans w' bs w'')
    (hle : w.commands <+: w'.commands) (hle' : w'.commands <+: w''.commands) :
    Scans w (as ++ bs) w'' := by
  intro hsame
  have := hle.length_le
  have := hle'.length_le
  rw [List.foldl_append, h (by omega), h' (by omega)]

theorem of_lt {args : List TxArg} (h : w.commands.length < w'.commands.length) :
    Scans w args w' :=
  fun hsame => absurd hsame (by omega)

end Scans

/-! ## Reaching drafts -/

def Reaches (rule : TxCommand.Rule) (kinds : UInt16 → ParamKind) (w w' : Draft)
    (post : (UInt16 → ParamKind) → Prop) : Prop :=
  Sound rule kinds w → MemoReady kinds w → ∃ kinds', Extends kinds w kinds' w' ∧
    Sound rule kinds' w' ∧ MemoReady kinds' w' ∧ post kinds'

namespace Reaches

variable {post next : (UInt16 → ParamKind) → Prop}

theorem refl (h : Sound rule kinds w → post kinds) : Reaches rule kinds w w post :=
  fun hw hmemo => ⟨kinds, .refl kinds w, hw, hmemo, h hw⟩

theorem trans (h : Reaches rule kinds w w' post) (h' : ∀ kinds', Extends kinds w kinds' w' →
    post kinds' → Reaches rule kinds' w' w'' next) : Reaches rule kinds w w'' next := by
  intro hw hmemo
  obtain ⟨kinds', hext, hw', hmemo', hpost⟩ := h hw hmemo
  obtain ⟨kinds'', hext', hw'', hmemo'', hnext⟩ := h' kinds' hext hpost hw' hmemo'
  exact ⟨kinds'', hext.trans hext', hw'', hmemo'', hnext⟩

theorem mono (h : Reaches rule kinds w w' post)
    (hp : ∀ kinds', Extends kinds w kinds' w' → post kinds' → next kinds') :
    Reaches rule kinds w w' next :=
  h.trans fun kinds' hext hpost => .refl fun _ => hp kinds' hext hpost

end Reaches

theorem call_ensures (c : Context Builder TxArg) {f : Builder → Except Refusal (α × Builder)}
    {post : α → Draft → Prop}
    (h : ∀ a b, f w.target = .ok (a, b) → post a { w with target := b }) :
    Ensures (fun _ => True) w (c.call f) post := by
  obtain ⟨target, env, memo⟩ := w
  unfold Ensures StateT.run Context.call
  dsimp only
  split
  case h_1 a b heq => exact .ok (h a b heq)
  case h_2 => exact .error trivial
  case h_3 => exact .error trivial

/-! ## Calls of the builder -/

theorem Extends.of_inputs (hinputs : w.inputs <+: w'.inputs) (hcommands : w'.commands = w.commands)
    (henv : w'.env = w.env) (hsender : w'.target.sender = w.target.sender)
    (hkinds : ∀ i, i.toNat < w.inputs.length → kinds' i = kinds i) :
    Extends kinds w kinds' w' := by
  refine ⟨hinputs, hcommands ▸ List.prefix_refl _, henv, hsender, hkinds, fun j c hj hc => ?_⟩
  rw [hcommands] at hc
  exact absurd (lt_of_getElem? hc) (Nat.not_lt.mpr hj)

theorem Sound.of_extends (hw : Sound rule kinds w) (h : Extends kinds w kinds' w')
    (htidy : Transaction.Tidy rule kinds' w'.inputs w'.commands) : Sound rule kinds' w' :=
  ⟨htidy, fun name arg hname => h.stands (hw.bound name arg (h.env ▸ hname)),
    fun name value hname => hw.init name value (h.env ▸ hname), h.sender.trans hw.unsigned⟩

theorem note_indices_old {n : Nat} (hn : n ≤ Limited.limit) {i : UInt16} (hi : i.toNat < n) :
    TxArg.note (indices n) (.input i) = indices n :=
  if_pos ((mem_indices hn).mpr hi)

theorem note_indices_new {n : Nat} (hn : n < Limited.limit) :
    TxArg.note (indices n) (.input (UInt16.ofNat n)) = indices (n + 1) := by
  have hindex := toNat_index hn
  have hnew : UInt16.ofNat n ∉ indices n := by
    rw [mem_indices (Nat.le_of_lt hn), hindex]
    exact Nat.lt_irrefl n
  rw [indices_succ]
  exact if_neg hnew

theorem inputs_addInput (input : TxInput) :
    (w.addInput input).inputs =
      w.inputs ++ [input] := by
  simp [Walk.inputs, Builder.addInput]

theorem pushInput_eq_ok {input : TxInput} {b : Builder}
    (h : Builder.asTarget (Builder.pushInput input) w.target = .ok (arg, b)) :
    w.inputs.length < Limited.limit ∧ arg = .input (UInt16.ofNat w.inputs.length) ∧
      b = w.target.addInput input := by
  rw [Builder.asTarget_pushInput] at h
  split at h
  case isTrue hroom =>
    cases h
    exact ⟨hroom, rfl, rfl⟩
  case isFalse => cases h

theorem Extends.addInput (input : TxInput)
    (hkinds : ∀ i, i.toNat < w.inputs.length → kinds' i = kinds i) :
    Extends kinds w kinds' (w.addInput input) := by
  refine .of_inputs ?_ rfl rfl rfl hkinds
  rw [inputs_addInput]
  exact List.prefix_append _ _

theorem commands_addCommand (c : TxCommand) :
    (w.addCommand c).commands =
      w.commands ++ [c] := by
  simp [Walk.commands, Builder.addCommand]

theorem Sound.addCommand (hw : Sound rule kinds w) {c : TxCommand}
    (hc : c.Tidy rule kinds w.inputs w.commands) (hroom : w.commands.length < Limited.limit) :
    Sound rule kinds (w.addCommand c) := by
  have hfront : w.commands <+:
      (w.addCommand c).commands := by
    rw [commands_addCommand]
    exact List.prefix_append _ _
  refine ⟨?_, fun name arg hname => (hw.bound name arg hname).mono (List.prefix_refl _) hfront,
    hw.init, hw.unsigned⟩
  rw [commands_addCommand]
  exact hw.tidy.pushCommand hc hroom

theorem Extends.addCommand (h : Extends kinds w kinds' w') {c : TxCommand}
    (hfresh : ∀ i : UInt16, .input i ∈ c.args →
      (∃ type bs, w'.inputs[i.toNat]? = some (.pure type bs)) → w.inputs.length ≤ i.toNat) :
    Extends kinds w kinds' (w'.addCommand c) := by
  refine ⟨h.inputs, ?_, h.env, h.sender, h.kinds, fun j d hj hd => ?_⟩
  · rw [commands_addCommand]
    exact h.commands.trans (List.prefix_append _ _)
  · rw [commands_addCommand] at hd
    rcases getElem?_concat.mp hd with hd | ⟨-, rfl⟩
    · exact h.fresh j d hj hd
    · exact hfresh

theorem Ready.unused {i : UInt16} (h : Ready kinds least w kind (.input i))
    (hpure : ∃ type bs, w.inputs[i.toNat]? = some (.pure type bs)) :
    least ≤ i.toNat ∧ TxInput.Unused w.commands i := by
  rcases h with h | ⟨j, hij, hleast, -, hunused⟩
  · obtain ⟨type, bs, hpure⟩ := hpure
    obtain ⟨id, hobject⟩ := TxArg.object_of_stands h
    rw [hpure] at hobject
    cases hobject
  · cases hij
    exact ⟨hleast, hunused⟩

end

theorem Sound.note_eq {rule : TxCommand.Rule} {kinds : UInt16 → ParamKind}
    {w : Draft} (hw : Sound rule kinds w) {arg : TxArg} {kind : ParamKind}
    (h : arg.Fits kinds w.inputs w.commands kind) :
    TxArg.note (indices w.inputs.length) arg = indices w.inputs.length := by
  cases arg with
  | input i => exact note_indices_old hw.tidy.fewInputs h.lt
  | _ => rfl

theorem forall₂_replicate {α β : Type} {R : α → β → Prop} {as : List α} {b : β}
    (h : ∀ a ∈ as, R a b) : List.Forall₂ R as (List.replicate as.length b) := by
  induction as with
  | nil => exact .nil
  | cons a as ih =>
    obtain ⟨ha, has⟩ := List.forall_mem_cons.mp h
    exact .cons ha (ih has)

section

variable {rule : TxCommand.Rule} {kinds : UInt16 → ParamKind} {w : Draft}

theorem tidy_of_ready {c : TxCommand} {params : List ParamKind} (htakes : c.Takes rule params)
    (hargs : List.Forall₂ (fun arg kind => Ready kinds 0 w kind arg) c.args params)
    (hformed : c.Formed) : c.Tidy rule kinds w.inputs w.commands := by
  refine ⟨⟨params, htakes, hargs.imp fun _ _ => Ready.fits⟩, fun i hi hpure => ?_, hformed⟩
  obtain ⟨kind, -, hready⟩ := exists_of_forall₂ hargs hi
  exact (hready.unused hpure).2

theorem stands_resultAt {c : TxCommand} {m : Nat} (hm : m < c.resultCount) :
    (c.resultAt w.commands.length m).Stands (w.addCommand c).inputs (w.addCommand c).commands := by
  refine .result (j := w.commands.length) ?_ hm
  rw [commands_addCommand, List.getElem?_concat_length]

theorem formed_makeMoveVec {kind : ParamKind} (hkind : kind.Declared) (elems : List TxArg) :
    (TxCommand.makeMoveVec kind.pureType? elems).Formed := by
  intro spelling hspelling
  have hsolid : kind.Solid := by
    rcases hkind with rfl | rfl | hsolid
    · cases hspelling
    · cases hspelling
    · exact hsolid
  rw [ParamKind.ofMove_pureType hspelling, ParamKind.moveSpelling?_dataType hsolid, hspelling]

end

end TxGraph.Lowering
