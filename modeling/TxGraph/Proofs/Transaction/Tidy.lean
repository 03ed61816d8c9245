import TxGraph.Decoding.OfTransaction
import TxGraph.Proofs.Pure.Recode
import TxGraph.Proofs.Transaction.Inputs

/-!
# Tidy transactions

What can be said of the transactions that are built from graphs. Arguments refer to what comes
before them. An input is an object in full form or the encoding of a literal at the kind of the
parameter it is given to, and an encoding is used by one command only. A rule says which kinds of
parameters a call may have; `kinds` says at which kind each input was encoded.
-/

namespace TxGraph

/-- The call of a function, by the signature that a source has for it. -/
def Decoding.callOf? (source : SignatureSource) (package module function : String) :
    Option MoveCall :=
  match source package with
  | .ok signatures =>
    (signatures.function? module function).map (MoveCall.of package module function).withSignature
  | .error _ => none

def Decoding.callOf (source : SignatureSource) (package module function : String) : MoveCall :=
  (callOf? source package module function).getD (MoveCall.of package module function)

/-! ## Results of commands -/

namespace TxCommand

def isSingle : TxCommand → Bool
  | makeMoveVec .. => true
  | publish .. => true
  | upgrade .. => true
  | _ => false

/-- How many results of a command there may be. Of a call it is known only that they have indices. -/
def resultCount : TxCommand → Nat
  | moveCall .. => Limited.limit - 1
  | splitCoins _ amounts => amounts.length
  | makeMoveVec .. => 1
  | publish .. => 1
  | upgrade .. => 1
  | _ => 0

def resultAt (c : TxCommand) (j m : Nat) : TxArg :=
  if c.isSingle then .result (UInt16.ofNat j) else .nested (UInt16.ofNat j) (UInt16.ofNat m)

/-- Which kinds of parameters the call of a command may have. -/
abbrev Rule := TxCommand → List ParamKind → Prop

def Takes (rule : Rule) : TxCommand → List ParamKind → Prop
  | moveCall package module function typeArgs args, kinds =>
    rule (.moveCall package module function typeArgs args) kinds
  | splitCoins _ amounts, kinds =>
    kinds = .handle :: List.replicate amounts.length (.integer .u64)
  | mergeCoins _ sources, kinds => kinds = .handle :: List.replicate sources.length .handle
  | transferObjects objects _, kinds =>
    kinds = List.replicate objects.length .handle ++ [.address]
  | makeMoveVec elem elems, kinds =>
    kinds = List.replicate elems.length (Lowering.Context.vectorElemKind elem)
  | upgrade .., kinds => kinds = [.handle]
  | _, kinds => kinds = []

/-- A call has all that its signature asks for, as far as the source has one. The kinds of its
parameters agree with those that are shown: further arguments have unknown ones. -/
def Rule.shownBy (source : Decoding.SignatureSource)
    (agrees : List ParamKind → List ParamKind → Prop) : Rule
  | moveCall package module function typeArgs args, kinds =>
    (Decoding.callOf source package module function).typeParams.length ≤ typeArgs.length ∧
    (Decoding.callOf source package module function).params.length ≤ args.length ∧
    (Decoding.callOf source package module function).returns.length < Limited.limit ∧
    agrees kinds ((Decoding.padTypes args.length
      (Decoding.callOf source package module function).params).map ParamKind.ofType)
  | _, _ => True

/-- The parts of the command apart from its arguments are in order. -/
def Formed : TxCommand → Prop
  | moveCall package _ _ typeArgs _ => (Address.parse? package).isSome ∧
    ∀ name ∈ typeArgs, Text.trim name = name ∧ name ≠ ""
  | splitCoins _ amounts => amounts ≠ [] ∧ amounts.length < Limited.limit
  | makeMoveVec elem _ =>
    ∀ spelling, elem = some spelling → (DataType.ofMove spelling).moveSpelling? = some spelling
  | upgrade _ _ package _ => (Address.parse? package).isSome
  | unsupported => False
  | _ => True

end TxCommand

/-! ## Arguments -/

section

variable (rule : TxCommand.Rule) (kinds : UInt16 → ParamKind) (inputs : List TxInput)
  (commands : List TxCommand)

/-- The argument is a coin, an object or a result of one of the commands. -/
inductive TxArg.Stands : TxArg → Prop
  | gasCoin : Stands .gasCoin
  | object {i : UInt16} {id : String} (h : inputs[i.toNat]? = some (.object id)) : Stands (.input i)
  | result {j m : Nat} {c : TxCommand} (hc : commands[j]? = some c)
    (hm : m < c.resultCount) : Stands (c.resultAt j m)

structure TxInput.PureAt (i : UInt16) (kind : ParamKind) : Prop where
  pure : ∃ type bs, inputs[i.toNat]? = some (.pure type bs)
  kind : kinds i = kind

def TxArg.Fits (arg : TxArg) (kind : ParamKind) : Prop :=
  arg.Stands inputs commands ∨ ∃ i, arg = .input i ∧ TxInput.PureAt kinds inputs i kind

def TxInput.Unused (i : UInt16) : Prop :=
  ∀ c ∈ commands, .input i ∉ c.args

/-- A command that may follow the others. -/
structure TxCommand.Tidy (c : TxCommand) : Prop where
  args : ∃ params, c.Takes rule params ∧
    List.Forall₂ (TxArg.Fits kinds inputs commands) c.args params
  own (i : UInt16) : .input i ∈ c.args → (∃ type bs, inputs[i.toNat]? = some (.pure type bs)) →
    TxInput.Unused commands i
  formed : c.Formed

/-- Inputs and commands that are in order. -/
structure Transaction.Tidy : Prop where
  fewInputs : inputs.length ≤ Limited.limit
  fewCommands : commands.length ≤ Limited.limit
  full (n : Nat) (id : String) : inputs[n]? = some (.object id) →
    ∃ text, Transaction.Builder.fullAddress text = .ok id
  distinct (m n : Nat) (id : String) : inputs[m]? = some (.object id) →
    inputs[n]? = some (.object id) → m = n
  encodes (i : UInt16) (type : Option String) (bs : Bytes) :
    inputs[i.toNat]? = some (.pure type bs) →
    (kinds i).Declared ∧ PureValue.Encodes (kinds i) type bs
  commands (j : Nat) (c : TxCommand) : commands[j]? = some c →
    c.Tidy rule kinds inputs (commands.take j)

end

/-! ## More inputs and commands -/

section

variable {rule : TxCommand.Rule} {kinds kinds' : UInt16 → ParamKind}
  {inputs inputs' : List TxInput} {commands commands' : List TxCommand}
variable {α : Type} {n : Nat} {i : UInt16} {kind : ParamKind}

theorem getElem?_mono {xs ys : List α} (h : xs <+: ys) {a : α} (hn : xs[n]? = some a) :
    ys[n]? = some a := by
  obtain ⟨rest, rfl⟩ := h
  exact (List.getElem?_append_left (List.getElem?_eq_some_iff.mp hn).1).trans hn

theorem lt_of_getElem? {xs : List α} {a : α} (h : xs[n]? = some a) : n < xs.length :=
  (List.getElem?_eq_some_iff.mp h).1

theorem getElem?_concat {xs : List α} {x a : α} :
    (xs ++ [x])[n]? = some a ↔ xs[n]? = some a ∨ n = xs.length ∧ a = x := by
  rw [List.getElem?_append]
  split
  case isTrue hlt =>
    refine ⟨.inl, fun h => h.resolve_right fun ⟨heq, _⟩ => ?_⟩
    omega
  case isFalse hge =>
    have hnone : xs[n]? = none := List.getElem?_eq_none (Nat.not_lt.mp hge)
    rw [List.getElem?_singleton, hnone]
    grind

theorem exists_of_forall₂ {β : Type} {R : α → β → Prop} {as : List α} {bs : List β}
    (h : List.Forall₂ R as bs) {a : α} (ha : a ∈ as) : ∃ b ∈ bs, R a b := by
  induction h with
  | nil => cases ha
  | cons hfirst _ ih =>
    rcases List.mem_cons.mp ha with rfl | ha
    · exact ⟨_, List.mem_cons_self, hfirst⟩
    · obtain ⟨b, hb, hr⟩ := ih ha
      exact ⟨b, List.mem_cons_of_mem _ hb, hr⟩

theorem TxArg.Stands.mono {arg : TxArg} (h : arg.Stands inputs commands)
    (hinputs : inputs <+: inputs') (hcommands : commands <+: commands') :
    arg.Stands inputs' commands' := by
  cases h with
  | gasCoin => exact .gasCoin
  | object h => exact .object (getElem?_mono hinputs h)
  | result hc hm => exact .result (getElem?_mono hcommands hc) hm

theorem TxInput.PureAt.mono (h : TxInput.PureAt kinds inputs i kind) (hinputs : inputs <+: inputs')
    (hkinds : ∀ i, i.toNat < inputs.length → kinds' i = kinds i) :
    TxInput.PureAt kinds' inputs' i kind := by
  obtain ⟨⟨type, bs, hpure⟩, hkind⟩ := h
  exact ⟨⟨type, bs, getElem?_mono hinputs hpure⟩, (hkinds i (lt_of_getElem? hpure)).trans hkind⟩

theorem TxArg.Fits.mono {arg : TxArg} (h : arg.Fits kinds inputs commands kind)
    (hinputs : inputs <+: inputs') (hcommands : commands <+: commands')
    (hkinds : ∀ i, i.toNat < inputs.length → kinds' i = kinds i) :
    arg.Fits kinds' inputs' commands' kind := by
  rcases h with h | ⟨i, rfl, h⟩
  · exact .inl (h.mono hinputs hcommands)
  · exact .inr ⟨i, rfl, h.mono hinputs hkinds⟩

theorem TxCommand.resultAt_ne_input (c : TxCommand) (j m : Nat) (i : UInt16) :
    c.resultAt j m ≠ .input i := by
  unfold TxCommand.resultAt
  split <;> nofun

theorem TxArg.object_of_stands (h : (TxArg.input i).Stands inputs commands) :
    ∃ id, inputs[i.toNat]? = some (.object id) := by
  generalize harg : TxArg.input i = arg at h
  cases h with
  | gasCoin => cases harg
  | object h =>
    cases harg
    exact ⟨_, h⟩
  | result hc hm => exact absurd harg.symm (TxCommand.resultAt_ne_input _ _ _ _)

theorem TxArg.Fits.lt (h : (TxArg.input i).Fits kinds inputs commands kind) :
    i.toNat < inputs.length := by
  rcases h with h | ⟨_, h, ⟨_, _, hpure⟩, -⟩
  · obtain ⟨_, hobject⟩ := object_of_stands h
    exact lt_of_getElem? hobject
  · cases h
    exact lt_of_getElem? hpure

theorem TxCommand.Tidy.lt {c : TxCommand} (h : c.Tidy rule kinds inputs commands)
    (hi : .input i ∈ c.args) : i.toNat < inputs.length := by
  obtain ⟨params, -, hargs⟩ := h.args
  obtain ⟨_, -, hfits⟩ := exists_of_forall₂ hargs hi
  exact hfits.lt

theorem TxCommand.Tidy.mono {c : TxCommand} (h : c.Tidy rule kinds inputs commands)
    (hinputs : inputs <+: inputs') (hkinds : ∀ i, i.toNat < inputs.length → kinds' i = kinds i) :
    c.Tidy rule kinds' inputs' commands := by
  obtain ⟨params, htakes, hargs⟩ := h.args
  refine ⟨⟨params, htakes, hargs.imp fun _ _ hfits => hfits.mono hinputs (List.prefix_refl _) hkinds⟩,
    fun i hi hpure => ?_, h.formed⟩
  obtain ⟨type, bs, hpure⟩ := hpure
  have hlt := h.lt hi
  refine h.own i hi ⟨type, bs, ?_⟩
  obtain ⟨rest, rfl⟩ := hinputs
  rwa [List.getElem?_append_left hlt] at hpure

namespace Transaction.Tidy

variable (h : Transaction.Tidy rule kinds inputs commands)

include h

theorem hasInputs {c : TxCommand} (hc : c ∈ commands) {i : UInt16} (hi : .input i ∈ c.args) :
    i.toNat < inputs.length := by
  obtain ⟨j, hj⟩ := List.mem_iff_getElem?.mp hc
  exact (h.commands j c hj).lt hi

theorem unused_of_le {i : UInt16} (hi : inputs.length ≤ i.toNat) : TxInput.Unused commands i :=
  fun _ hc hmem => absurd (h.hasInputs hc hmem) (Nat.not_lt.mpr hi)

theorem pushCommand {c : TxCommand} (hc : c.Tidy rule kinds inputs commands)
    (hroom : commands.length < Limited.limit) :
    Transaction.Tidy rule kinds inputs (commands ++ [c]) where
  fewInputs := h.fewInputs
  fewCommands := by
    rw [List.length_append, List.length_singleton]
    exact hroom
  full := h.full
  distinct := h.distinct
  encodes := h.encodes
  commands j d hj := by
    rcases getElem?_concat.mp hj with hj | ⟨rfl, rfl⟩
    · rw [List.take_append_of_le_length (Nat.le_of_lt (lt_of_getElem? hj))]
      exact h.commands j d hj
    · simpa using hc

theorem pushObject {text id : String} (hid : Builder.fullAddress text = .ok id)
    (hnew : TxInput.object id ∉ inputs) (hroom : inputs.length < Limited.limit) :
    Transaction.Tidy rule kinds (inputs ++ [.object id]) commands where
  fewInputs := by
    rw [List.length_append, List.length_singleton]
    exact hroom
  fewCommands := h.fewCommands
  full n other hn := by
    rcases getElem?_concat.mp hn with hn | ⟨rfl, hlast⟩
    · exact h.full n other hn
    · cases hlast
      exact ⟨text, hid⟩
  distinct m n other hm hn := by
    rcases getElem?_concat.mp hm with hm | ⟨rfl, hlast⟩ <;>
      rcases getElem?_concat.mp hn with hn | ⟨rfl, hlast'⟩
    · exact h.distinct m n other hm hn
    · cases hlast'
      exact absurd (List.mem_of_getElem? hm) hnew
    · cases hlast
      exact absurd (List.mem_of_getElem? hn) hnew
    · rfl
  encodes i type bs hi := by
    rcases getElem?_concat.mp hi with hi | ⟨-, hlast⟩
    · exact h.encodes i type bs hi
    · cases hlast
  commands j c hj := (h.commands j c hj).mono (List.prefix_append _ _) fun _ _ => rfl

theorem pushPure {type : Option String} {bs : Bytes} {kind : ParamKind} (hkind : kind.Declared)
    (hencodes : PureValue.Encodes kind type bs) (hroom : inputs.length < Limited.limit) :
    Transaction.Tidy rule (Function.update kinds (UInt16.ofNat inputs.length) kind)
      (inputs ++ [.pure type bs]) commands := by
  have hindex := toNat_index hroom
  have hold (i : UInt16) (hi : i.toNat < inputs.length) :
      Function.update kinds (UInt16.ofNat inputs.length) kind i = kinds i := by
    refine Function.update_of_ne ?_ _ _
    rintro rfl
    omega
  refine ⟨?_, h.fewCommands, fun n id hn => ?_, fun m n id hm hn => ?_,
    fun i type' bs' hi => ?_, fun j c hj => (h.commands j c hj).mono (List.prefix_append _ _) hold⟩
  · rw [List.length_append, List.length_singleton]
    exact hroom
  · rcases getElem?_concat.mp hn with hn | ⟨-, hlast⟩
    · exact h.full n id hn
    · cases hlast
  · rcases getElem?_concat.mp hm with hm | ⟨-, hlast⟩
    · rcases getElem?_concat.mp hn with hn | ⟨-, hlast⟩
      · exact h.distinct m n id hm hn
      · cases hlast
    · cases hlast
  · rcases getElem?_concat.mp hi with hi | ⟨hlen, hlast⟩
    · rw [hold i (lt_of_getElem? hi)]
      exact h.encodes i type' bs' hi
    · cases hlast
      have heq : i = UInt16.ofNat inputs.length := UInt16.toNat_inj.mp (hlen.trans hindex.symm)
      rw [heq, Function.update_self]
      exact ⟨hkind, hencodes⟩

end Transaction.Tidy

end

end TxGraph
