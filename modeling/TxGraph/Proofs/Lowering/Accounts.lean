import TxGraph.Proofs.Lowering.Gathering

/-!
# Inputs accounted for

Whatever the program, lowering it to a transaction loses no input: each one that is added is handed
on as an argument until some command takes it. Arguments refer to inputs that exist and to results
of commands that come before, and no operand that is resolved leaves anything open. `Consistent`
says this of a draft; `Accounts` says what became of the inputs between two drafts.
-/

namespace TxGraph

/-! ## References -/

/-- Whether the command has a result of a number. How many a call returns is not known. -/
def TxCommand.HasNth (nth : UInt16) : TxCommand → Prop
  | splitCoins _ amounts => nth.toNat < amounts.length
  | moveCall .. => True
  | _ => False

/-- The argument is a coin, one of the inputs, or a result of one of the commands. -/
def TxArg.Refers (inputs : List TxInput) (commands : List TxCommand) : TxArg → Prop
  | gasCoin => True
  | input i => i.toNat < inputs.length
  | result j => ∃ c, commands[j.toNat]? = some c ∧ c.isSingle = true
  | nested j nth => ∃ c, commands[j.toNat]? = some c ∧ c.HasNth nth

theorem TxArg.Refers.mono {inputs inputs' : List TxInput} {commands commands' : List TxCommand}
    {arg : TxArg} (h : arg.Refers inputs commands) (hinputs : inputs <+: inputs')
    (hcommands : commands <+: commands') : arg.Refers inputs' commands' := by
  cases arg with
  | gasCoin => trivial
  | input i => exact Nat.lt_of_lt_of_le h hinputs.length_le
  | result j =>
    obtain ⟨c, hc, hsingle⟩ := h
    exact ⟨c, getElem?_mono hcommands hc, hsingle⟩
  | nested j nth =>
    obtain ⟨c, hc, hnth⟩ := h
    exact ⟨c, getElem?_mono hcommands hc, hnth⟩

def Operand.hasAbsent : Operand → Bool
  | absent => true
  | vector items => anyHasAbsent items
  | _ => false
where
  anyHasAbsent : List Operand → Bool
    | [] => false
    | item :: rest => item.hasAbsent || anyHasAbsent rest

/-- The names that the operation binds when it is lowered: a split gives as many coins as it has
amounts. -/
def Operation.rebinds : Operation → List String
  | splitCoins _ amounts out => out.take amounts.length
  | op => op.outputs

namespace Lowering

variable {w w' : Draft}

open Transaction (Builder)

/-! ## Consistent drafts -/

/-- Inputs and commands that are in order so far, and so is what names stand for. -/
structure Consistent (w : Draft) : Prop where
  fewInputs : w.inputs.length ≤ Limited.limit
  full (n : Nat) (id : String) : w.inputs[n]? = some (.object id) →
    ∃ text, Builder.fullAddress text = .ok id
  distinct (m n : Nat) (id : String) : w.inputs[m]? = some (.object id) →
    w.inputs[n]? = some (.object id) → m = n
  args (k : Nat) (c : TxCommand) : w.commands[k]? = some c →
    ∀ arg ∈ c.args, arg.Refers w.inputs (w.commands.take k)
  bound (name : String) (arg : TxArg) : Directory.get? w.env name = some (.bound arg) →
    arg.Refers w.inputs w.commands
  memo : ∀ e ∈ w.memo, TxArg.Refers w.inputs w.commands e.2

def Taken (w : Draft) (i : UInt16) : Prop :=
  ∃ c ∈ w.commands, .input i ∈ c.args

/-- Of the inputs that were handed in or are new, each is handed on or taken by a command. -/
def Accounts (w : Draft) (given handed : List TxArg) (w' : Draft) : Prop :=
  ∀ i : UInt16, .input i ∈ given ∨ w.inputs.length ≤ i.toNat ∧ i.toNat < w'.inputs.length →
    .input i ∈ handed ∨ Taken w' i

/-- The arguments that are handed on refer to what is there, and account for the inputs. -/
structure Hands (w : Draft) (given handed : List TxArg) (w' : Draft) :
    Prop where
  accounts : Accounts w given handed w'
  refers : ∀ arg ∈ handed, arg.Refers w'.inputs w'.commands

section

variable {w w' w'' : Draft} {given handed more others : List TxArg}

theorem Grows.refers (h : Grows w w') {arg : TxArg} (harg : arg.Refers w.inputs w.commands) :
    arg.Refers w'.inputs w'.commands :=
  harg.mono h.inputs h.commands

theorem Taken.mono {i : UInt16} (h : Taken w i) (hcommands : w.commands <+: w'.commands) :
    Taken w' i := by
  obtain ⟨c, hc, hmem⟩ := h
  exact ⟨c, hcommands.subset hc, hmem⟩

namespace Hands

theorem refl (h : ∀ arg ∈ given, arg.Refers w.inputs w.commands) : Hands w given given w :=
  ⟨fun i hi => .inl (hi.resolve_right fun ⟨hle, hlt⟩ => by omega), h⟩

theorem nil (w : Draft) : Hands w [] [] w := refl nofun

/-- An argument may be handed on at any time. -/
theorem cons {arg : TxArg} (h : Hands w given handed w') (harg : arg.Refers w'.inputs w'.commands) :
    Hands w given (arg :: handed) w' :=
  ⟨fun i hi => (h.accounts i hi).imp (List.mem_cons_of_mem _) id,
    List.forall_mem_cons.mpr ⟨harg, h.refers⟩⟩

theorem of_refers {arg : TxArg} (h : arg.Refers w.inputs w.commands) : Hands w [] [arg] w :=
  (nil w).cons h

/-- What is handed on is handed in to what follows. -/
theorem trans (h : Hands w given handed w') (hcommands : w'.commands <+: w''.commands)
    (h' : Hands w' handed more w'') : Hands w given more w'' := by
  refine ⟨fun i hi => ?_, h'.refers⟩
  by_cases hold : .input i ∈ given ∨ w.inputs.length ≤ i.toNat ∧ i.toNat < w'.inputs.length
  · exact (h.accounts i hold).elim (fun hi => h'.accounts i (.inl hi))
      fun hi => .inr (hi.mono hcommands)
  · obtain ⟨hgiven, hnew⟩ := not_or.mp hold
    have := hi.resolve_left hgiven
    exact h'.accounts i (.inr (by omega))

/-- Two computations one after the other hand on the arguments of both. -/
theorem append (h : Hands w given handed w') (hgrows : Grows w' w'')
    (h' : Hands w' more others w'') : Hands w (given ++ more) (handed ++ others) w'' := by
  refine ⟨fun i hi => ?_, List.forall_mem_append.mpr
    ⟨fun arg harg => hgrows.refers (h.refers arg harg), h'.refers⟩⟩
  rw [List.mem_append] at hi ⊢
  by_cases hold : .input i ∈ given ∨ w.inputs.length ≤ i.toNat ∧ i.toNat < w'.inputs.length
  · exact (h.accounts i hold).imp .inl fun hi => hi.mono hgrows.commands
  · obtain ⟨hgiven, hnew⟩ := not_or.mp hold
    refine (h'.accounts i ?_).imp .inr id
    rcases hi with (hi | hi) | hi
    · exact absurd hi hgiven
    · exact .inl hi
    · exact .inr (by omega)

end Hands

/-! ## Calls of the builder -/

theorem hands_addInput {input : TxInput} (hroom : w.inputs.length < Limited.limit) :
    Hands w [] [.input (UInt16.ofNat w.inputs.length)] (w.addInput input) := by
  have hindex := toNat_index hroom
  have hlength : (w.addInput input).inputs.length = w.inputs.length + 1 := by
    rw [inputs_addInput, List.length_append, List.length_singleton]
  refine ⟨fun i hi => .inl (List.mem_singleton.mpr ?_), List.forall_mem_singleton.mpr ?_⟩
  · obtain ⟨hle, hlt⟩ := hi.resolve_left List.not_mem_nil
    rw [show w.inputs.length = i.toNat by omega, UInt16.ofNat_toNat]
  · change (UInt16.ofNat w.inputs.length).toNat < _
    omega

theorem Consistent.addInput (h : Consistent w) {input : TxInput}
    (hroom : w.inputs.length < Limited.limit)
    (hobject : ∀ id, input = .object id → (∃ text, Builder.fullAddress text = .ok id) ∧
      .object id ∉ w.inputs) : Consistent (w.addInput input) := by
  have hgrows := (Grows.refl w).addInput input
  have hinputs := inputs_addInput (w := w) input
  refine ⟨?_, ?_, ?_, fun k c hc arg harg => ?_, fun name arg hname => ?_, fun e he => ?_⟩
  · rw [hinputs, List.length_append, List.length_singleton]
    omega
  · intro n id hn
    rw [hinputs] at hn
    rcases getElem?_concat.mp hn with hn | ⟨-, rfl⟩
    · exact h.full n id hn
    · exact (hobject id rfl).1
  · intro m n id hm hn
    rw [hinputs] at hm hn
    rcases getElem?_concat.mp hm with hm | ⟨hm, hlast⟩ <;>
      rcases getElem?_concat.mp hn with hn | ⟨hn, hlast'⟩
    · exact h.distinct m n id hm hn
    · exact absurd (List.mem_of_getElem? hm) (hobject id hlast'.symm).2
    · exact absurd (List.mem_of_getElem? hn) (hobject id hlast.symm).2
    · exact hm.trans hn.symm
  · exact (h.args k c hc arg harg).mono hgrows.inputs (List.prefix_refl _)
  · exact hgrows.refers (h.bound name arg hname)
  · exact hgrows.refers (h.memo e he)

theorem Consistent.addCommand (h : Consistent w) {c : TxCommand}
    (hargs : ∀ arg ∈ c.args, arg.Refers w.inputs w.commands) : Consistent (w.addCommand c) := by
  have hgrows := (Grows.refl w).addCommand c
  refine ⟨h.fewInputs, h.full, h.distinct, fun k d hd arg harg => ?_,
    fun name arg hname => hgrows.refers (h.bound name arg hname),
    fun e he => hgrows.refers (h.memo e he)⟩
  rw [commands_addCommand] at hd ⊢
  rcases getElem?_concat.mp hd with hd | ⟨rfl, rfl⟩
  · rw [List.take_append_of_le_length (Nat.le_of_lt (lt_of_getElem? hd))]
    exact h.args k d hd arg harg
  · rw [List.take_left]
    exact hargs arg harg

theorem hands_addCommand (w : Draft) (c : TxCommand) :
    Hands w c.args [] (w.addCommand c) := by
  refine ⟨fun i hi => ?_, nofun⟩
  rcases hi with hi | ⟨hle, hlt⟩
  · exact .inr ⟨c, by simp [commands_addCommand], hi⟩
  · exact absurd hlt (Nat.not_lt.mpr hle)

end

/-! ## Operands -/

/-- Nothing is left open in the operand, nor in the values of the variables it refers to. -/
def Settled (env : Directory (Entry TxArg)) (value : Operand) : Prop :=
  value.hasAbsent = false ∧ ∀ name ∈ value.refs, ∀ init,
    Directory.get? env name = some (.init init) → init.hasAbsent = false

theorem Settled.cons {env : Directory (Entry TxArg)} {item : Operand} {rest : List Operand}
    (h : Settled env item) (hrest : Settled env (.vector rest)) :
    Settled env (.vector (item :: rest)) :=
  ⟨Bool.or_eq_false_iff.mpr ⟨h.1, hrest.1⟩, List.forall_mem_append.mpr ⟨h.2, hrest.2⟩⟩

mutual

theorem Evaluates.settled {w w' : Draft} {value : Operand} {r : Resolved TxArg} :
    Evaluates w value r w' → Settled w.env value
  | .constant _ | .integer _ _ | .object _ _ => ⟨rfl, nofun⟩
  | .bound h => by
    refine ⟨rfl, List.forall_mem_singleton.mpr fun init hinit => ?_⟩
    rw [h] at hinit
    cases hinit
  | .init h _ hvalue => by
    refine ⟨rfl, List.forall_mem_singleton.mpr fun init hinit => ?_⟩
    rw [h] at hinit
    cases hinit
    exact hvalue.settled.1
  | .vector h => h.settled

theorem EvaluatesAll.settled {w w' : Draft} {items : List Operand} {rs : List (Resolved TxArg)} :
    EvaluatesAll w items rs w' → Settled w.env (.vector items)
  | .nil => ⟨rfl, nofun⟩
  | .cons h hrest => h.settled.cons (h.collects.grows.env ▸ hrest.settled)

end

theorem Obtains.hands {arg : TxArg} (h : Obtains w arg w') (hw : Consistent w) :
    Consistent w' ∧ Hands w [] [arg] w' := by
  cases h with
  | gas => exact ⟨hw, .of_refers trivial⟩
  | @known n id h =>
    have hlt := lt_of_getElem? h
    refine ⟨hw, .of_refers ?_⟩
    change (UInt16.ofNat n).toNat < _
    rwa [toNat_index (hlt.trans_le hw.fewInputs)]
  | @new text id hid hnew hroom =>
    refine ⟨hw.addInput hroom fun _ heq => ?_, hands_addInput hroom⟩
    cases heq
    exact ⟨⟨text, hid⟩, hnew⟩

mutual

theorem Evaluates.hands {w w' : Draft} {value : Operand} {r : Resolved TxArg} :
    Evaluates w value r w' → Consistent w → Consistent w' ∧ Hands w [] r.handles w'
  | .constant _, hw | .integer _ _, hw => ⟨hw, .nil w⟩
  | .object _ h, hw => h.hands hw
  | .bound h, hw => ⟨hw, .of_refers (hw.bound _ _ h)⟩
  | .init _ _ h, hw => h.hands hw
  | .vector h, hw => by
    rw [Resolved.handles_vector]
    exact h.hands hw

theorem EvaluatesAll.hands {w w' : Draft} {items : List Operand} {rs : List (Resolved TxArg)} :
    EvaluatesAll w items rs w' → Consistent w →
      Consistent w' ∧ Hands w [] (Resolved.handles.all rs) w'
  | .nil, hw => ⟨hw, .nil w⟩
  | .cons h hrest, hw => by
    obtain ⟨hw₁, h₁⟩ := h.hands hw
    obtain ⟨hw₂, h₂⟩ := hrest.hands hw₁
    exact ⟨hw₂, h₁.append (Evaluates.collects.go hrest).grows h₂⟩

end

/-! ## Encoding -/

theorem Records.hands {kind : ParamKind} {symbol : Option String} {value : Literal} {arg : TxArg}
    (h : Records kind symbol w value arg w') (hw : Consistent w) :
    Consistent w' ∧ Hands w [] [arg] w' := by
  cases h with
  | again _ h => exact ⟨hw, .of_refers (hw.memo _ h)⟩
  | @anew _ found _ _ hroom hmemo =>
    have hw' : Consistent (w.addInput (.pure found.type found.bytes)) := hw.addInput hroom nofun
    have hhands : Hands w [] _ (w.addInput (.pure found.type found.bytes)) := hands_addInput hroom
    refine ⟨⟨hw'.fewInputs, hw'.full, hw'.distinct, hw'.args, hw'.bound, fun e he => ?_⟩,
      hhands.accounts, hhands.refers⟩
    rcases hmemo e he with hold | ⟨-, hnew⟩
    · exact hw'.memo e hold
    · rw [hnew]
      exact hhands.refers _ List.mem_cons_self

theorem refers_result {d : TxCommand} (hroom : w.commands.length < Limited.limit)
    (hsingle : d.isSingle = true) : (TxArg.result (UInt16.ofNat w.commands.length)).Refers
      (w.addCommand d).inputs (w.addCommand d).commands := by
  refine ⟨d, ?_, hsingle⟩
  rw [commands_addCommand, toNat_index hroom, List.getElem?_concat_length]

mutual

theorem Delivers.hands {kind : ParamKind} {symbol : Option String} {w w' : Draft}
    {r : Resolved TxArg} {arg : TxArg} : Delivers kind symbol w r arg w' → Consistent w →
      (∀ a ∈ r.handles, a.Refers w.inputs w.commands) →
      Consistent w' ∧ Hands w r.handles [arg] w'
  | .handle _, hw, hr => ⟨hw, .refl hr⟩
  | .literal h, hw, _ => h.hands hw
  | @Delivers.list _ _ _ w₁ _ args h hroom, hw, hr => by
    obtain ⟨hw₁, h₁⟩ := h.hands hw hr
    have htaken := hands_addCommand w₁ (.makeMoveVec (Context.elemKind kind).pureType? args)
    refine ⟨hw₁.addCommand h₁.refers, (h₁.trans ?_ htaken).cons (refers_result hroom rfl)⟩
    exact ((Grows.refl w₁).addCommand _).commands

theorem DeliversAll.hands {kind : ParamKind} {w w' : Draft} {items : List (Resolved TxArg)}
    {args : List TxArg} : DeliversAll kind w items args w' → Consistent w →
      (∀ a ∈ Resolved.handles.all items, a.Refers w.inputs w.commands) →
      Consistent w' ∧ Hands w (Resolved.handles.all items) args w'
  | .nil, hw, _ => ⟨hw, .nil w⟩
  | .cons h hrest, hw, hr => by
    obtain ⟨hitem, hitems⟩ := List.forall_mem_append.mp hr
    obtain ⟨hw₁, h₁⟩ := h.hands hw hitem
    obtain ⟨hw₂, h₂⟩ := hrest.hands hw₁ fun a ha => h.collects.grows.refers (hitems a ha)
    exact ⟨hw₂, h₁.append (Delivers.collects.go hrest).grows h₂⟩

end

/-! ## Operands by use -/

section

variable {kind : ParamKind} {w w' : Draft} {args : List TxArg}

theorem Gives.hands {value : Operand} {arg : TxArg} (h : Gives kind w value arg w')
    (hw : Consistent w) : Consistent w' ∧ Hands w [] [arg] w' := by
  obtain ⟨r, w₁, hr, harg⟩ := h
  obtain ⟨hw₁, h₁⟩ := hr.hands hw
  obtain ⟨hw₂, h₂⟩ := harg.hands hw₁ h₁.refers
  exact ⟨hw₂, h₁.trans harg.collects.grows.commands h₂⟩

theorem GivesAll.hands {values : List Argument} (h : GivesAll w values args w')
    (hw : Consistent w) : Consistent w' ∧ Hands w [] args w' := by
  induction h with
  | nil => exact ⟨hw, .nil _⟩
  | cons h hrest ih =>
    obtain ⟨hw₁, h₁⟩ := h.hands hw
    obtain ⟨hw₂, h₂⟩ := ih hw₁
    exact ⟨hw₂, h₁.append hrest.collects.grows h₂⟩

theorem GivesAll.settled {values : List Argument} (h : GivesAll w values args w') :
    ∀ a ∈ values, Settled w.env a.value := by
  induction h with
  | nil => exact nofun
  | cons h hrest ih =>
    rw [h.collects.grows.env] at ih
    obtain ⟨r, w₁, hr, -⟩ := h
    exact List.forall_mem_cons.mpr ⟨hr.settled, ih⟩

theorem Spreads.hands {group : Group} (h : Spreads kind w group args w') (hw : Consistent w) :
    Consistent w' ∧ Hands w [] args w' := by
  cases h with
  | each h => exact h.hands hw
  | whole h => exact h.hands hw
  | @items value r rs args w₁ w' h hlisted hargs =>
    obtain ⟨hw₁, h₁⟩ := h.hands hw
    have hhandles : r.handles = Resolved.handles.all rs := by
      cases hlisted with
      | list => rfl
      | literal vs => exact (Resolved.handles_literals vs).symm
    rw [hhandles] at h₁
    obtain ⟨hw₂, h₂⟩ := hargs.hands hw₁ h₁.refers
    exact ⟨hw₂, h₁.trans (Delivers.collects.go hargs).grows.commands h₂⟩

theorem Spreads.settled {group : Group} (h : Spreads kind w group args w') :
    ∀ v ∈ group.operands, Settled w.env v := by
  cases h with
  | each h => exact fun v hv => h.settled ⟨v, kind⟩ (List.mem_map_of_mem hv)
  | whole h => exact List.forall_mem_singleton.mpr h.settled
  | items h => exact List.forall_mem_singleton.mpr h.settled

theorem NamesTypes.hands {values : List Operand} {names : List String}
    (h : NamesTypes w values names w') (hw : Consistent w) :
    Consistent w' ∧ Hands w [] [] w' := by
  induction h with
  | nil => exact ⟨hw, .nil _⟩
  | cons h _ hrest ih =>
    obtain ⟨hw₁, h₁⟩ := h.hands hw
    obtain ⟨hw₂, h₂⟩ := ih hw₁
    exact ⟨hw₂, h₁.append hrest.collects.grows h₂⟩

theorem NamesTypes.settled {values : List Operand} {names : List String}
    (h : NamesTypes w values names w') : ∀ v ∈ values, Settled w.env v := by
  induction h with
  | nil => exact nofun
  | cons h _ _ ih =>
    rw [h.collects.grows.env] at ih
    exact List.forall_mem_cons.mpr ⟨h.settled, ih⟩

/-! ## Operations -/

variable {op : Operation} {d : TxCommand}

/-- The command takes all that its operation collected. -/
theorem Prepares.hands (h : Prepares w op d w') (hw : Consistent w) :
    Consistent w' ∧ Hands w [] d.args w' := by
  cases h with
  | splitCoins _ hcoin hamounts =>
    obtain ⟨hw₁, h₁⟩ := hcoin.hands hw
    obtain ⟨hw₂, h₂⟩ := hamounts.hands hw₁
    exact ⟨hw₂, h₁.append hamounts.collects.grows h₂⟩
  | mergeCoins hdestination hsources =>
    obtain ⟨hw₁, h₁⟩ := hdestination.hands hw
    obtain ⟨hw₂, h₂⟩ := hsources.hands hw₁
    exact ⟨hw₂, h₁.append hsources.collects.grows h₂⟩
  | transferObjects hobjects hrecipient =>
    obtain ⟨hw₁, h₁⟩ := hobjects.hands hw
    obtain ⟨hw₂, h₂⟩ := hrecipient.hands hw₁
    exact ⟨hw₂, h₁.append hrecipient.collects.grows h₂⟩
  | makeMoveVec _ helems => exact helems.hands hw
  | moveCall _ _ _ _ htypes hargs =>
    obtain ⟨hw₁, h₁⟩ := htypes.hands hw
    obtain ⟨hw₂, h₂⟩ := hargs.hands hw₁
    exact ⟨hw₂, h₁.append hargs.collects.grows h₂⟩
  | publish => exact ⟨hw, .nil w⟩
  | upgrade _ _ _ _ hticket => exact hticket.hands hw

theorem Prepares.settled (h : Prepares w op d w') : ∀ v ∈ op.operands, Settled w.env v := by
  cases h with
  | splitCoins _ hcoin hamounts =>
    have hsettled := hamounts.settled
    rw [hcoin.collects.grows.env] at hsettled
    exact List.forall_mem_cons.mpr ⟨hcoin.settled,
      fun v hv => hsettled ⟨v, .integer .u64⟩ (List.mem_map_of_mem hv)⟩
  | mergeCoins hdestination hsources =>
    have hsettled := hsources.settled
    rw [hdestination.collects.grows.env] at hsettled
    exact List.forall_mem_cons.mpr ⟨hdestination.settled, hsettled⟩
  | transferObjects hobjects hrecipient =>
    obtain ⟨r, w₁, hr, -⟩ := hrecipient
    have hsettled := hr.settled
    rw [hobjects.collects.grows.env] at hsettled
    exact List.forall_mem_append.mpr ⟨hobjects.settled, List.forall_mem_singleton.mpr hsettled⟩
  | makeMoveVec _ helems => exact helems.settled
  | moveCall _ _ _ _ htypes hargs =>
    have hsettled := hargs.settled
    rw [htypes.collects.grows.env] at hsettled
    exact List.forall_mem_append.mpr ⟨htypes.settled, List.forall_mem_map.mpr hsettled⟩
  | publish => exact nofun
  | upgrade _ _ _ _ hticket => exact List.forall_mem_singleton.mpr hticket.settled

theorem Consistent.named (hw : Consistent w) (names : List String)
    (hargs : ∀ arg ∈ args, arg.Refers w.inputs w.commands) : Consistent (w.named names args) := by
  refine ⟨hw.fewInputs, hw.full, hw.distinct, hw.args, fun name arg hname => ?_, hw.memo⟩
  rcases get?_bindEnv hname with hold | ⟨i, arg', -, harg, hentry⟩
  · exact hw.bound name arg hold
  · cases hentry
    exact hargs arg (List.mem_of_getElem? harg)

theorem OperationStep.refers {w₁ : Draft} (h : OperationStep w op d w₁ w') :
    ∀ arg ∈ resultsAt w₁.commands.length op,
      arg.Refers (w₁.addCommand d).inputs (w₁.addCommand d).commands := by
  intro arg harg
  obtain ⟨i, hi⟩ := List.mem_iff_getElem?.mp harg
  obtain ⟨rfl, hlt⟩ := h.result hi
  have hindex := toNat_index ((lt_of_getElem? hi).trans h.few)
  have hd : (w₁.addCommand d).commands[(UInt16.ofNat w₁.commands.length).toNat]? = some d := by
    rw [commands_addCommand, toNat_index h.room, List.getElem?_concat_length]
  cases d with
  | splitCoins => exact ⟨_, hd, hindex.trans_lt hlt⟩
  | moveCall => exact ⟨_, hd, trivial⟩
  | makeMoveVec => exact ⟨_, hd, rfl⟩
  | publish => exact ⟨_, hd, rfl⟩
  | upgrade => exact ⟨_, hd, rfl⟩
  | _ => exact absurd hlt (Nat.not_lt_zero i)

end

/-- What an operation does: it settles all its operands, loses no input, and binds its outputs. -/
structure Performs (w : Draft) (op : Operation) (w' : Draft) : Prop where
  inputs : w.inputs <+: w'.inputs
  commands : w.commands <+: w'.commands
  hands : Hands w [] [] w'
  settled : ∀ v ∈ op.operands, Settled w.env v
  others : ∀ name ∉ op.rebinds, Directory.get? w'.env name = Directory.get? w.env name

theorem take_outputs (position : Nat) (op : Operation) :
    op.outputs.take (resultsAt position op).length = op.rebinds := by
  cases op <;> simp [resultsAt, Builder.results, Operation.outputs, Operation.rebinds]

theorem operation_performs {c : Context Builder TxArg} (hc : c.target = Builder.target)
    (op : Operation) (hw : Consistent w) :
    Ensures (fun _ => True) w (c.operation op) fun _ w' => Consistent w' ∧ Performs w op w' := by
  refine (operation_ensures hc op w).mono fun _ w' ⟨d, w₁, h⟩ => ?_
  have hrefers := h.refers
  obtain ⟨hprepares, -, -, rfl⟩ := h
  obtain ⟨hw₁, h₁⟩ := hprepares.hands hw
  have hgrows := hprepares.collects.grows.addCommand d
  have hhands := h₁.trans ((Grows.refl w₁).addCommand d).commands (hands_addCommand w₁ d)
  refine ⟨(hw₁.addCommand h₁.refers).named _ hrefers, hgrows.inputs, hgrows.commands,
    ⟨hhands.accounts, nofun⟩, hprepares.settled, fun name hname => ?_⟩
  rw [get?_bindEnv_of_notMem (take_outputs _ op ▸ hname), hgrows.env]

/-- A run of operations loses no input. Its operands are settled where the names that were not bound
anew stand for what they stood for at the start. -/
theorem operations_perform (sender : Option String) (depth : Nat)
    {env : Directory (Entry TxArg)} : ∀ (ops : List Operation) (i : Nat) {done : List String}
      {w : Draft}, Consistent w →
    (∀ name ∉ done, Directory.get? w.env name = Directory.get? env name) →
    Ensures (fun _ => True) w (operations Builder.target sender depth i ops) fun _ w' =>
      Consistent w' ∧ w.commands <+: w'.commands ∧ Hands w [] [] w' ∧
      ∀ k op, ops[k]? = some op → ∀ v ∈ op.operands, v.hasAbsent = false ∧
        ∀ name ∈ v.refs, name ∉ done ++ (ops.take k).flatMap Operation.rebinds →
          ∀ init, Directory.get? env name = some (.init init) → init.hasAbsent = false
  | [], _, _, w, hw, _ => .pure ⟨hw, List.prefix_refl _, .nil w, nofun⟩
  | op :: ops, i, done, w, hw, henv => by
    have hreset : Consistent { w with memo := [] } :=
      ⟨hw.fewInputs, hw.full, hw.distinct, hw.args, hw.bound, nofun⟩
    refine .modify_bind (.bind (operation_performs rfl op hreset) fun _ w₁ ⟨hw₁, h₁⟩ => ?_)
    have henv₁ : ∀ name ∉ done ++ op.rebinds,
        Directory.get? w₁.env name = Directory.get? env name := by
      intro name hname
      obtain ⟨hdone, hop⟩ := not_or.mp (mt List.mem_append.mpr hname)
      rw [h₁.others name hop, ← henv name hdone]
    refine (operations_perform sender depth ops (i + 1) hw₁ henv₁).mono
      fun _ w₂ ⟨hw₂, hcommands, h₂, hrest⟩ => ?_
    refine ⟨hw₂, h₁.commands.trans hcommands, ⟨fun j hj => ?_, nofun⟩, fun k d hd v hv => ?_⟩
    · exact (h₁.hands.trans hcommands h₂).accounts j hj
    · cases k with
      | zero =>
        cases hd
        obtain ⟨hopen, hrefs⟩ := h₁.settled v hv
        refine ⟨hopen, fun name hname hnot init hinit => hrefs name hname init ?_⟩
        rw [← hinit]
        exact henv name (by simpa using hnot)
      | succ k =>
        obtain ⟨hopen, hrefs⟩ := hrest k d hd v hv
        refine ⟨hopen, fun name hname hnot => hrefs name hname ?_⟩
        simpa using hnot

end Lowering

end TxGraph
