import TxGraph.Proofs.Outcome
import TxGraph.Script.OfProgram
import TxGraph.Transaction.OfProgram

/-!
# Calls on a builder

What each call of the builder answers and leaves behind, as one equation (`run_pushInput`,
`run_addObject` and, for all calls that append a command, `Appends`), and the same for the builder
as a target of lowering. Later proofs use these equations and do not open the calls again.
-/

namespace TxGraph.Transaction.Builder

variable {α β : Type}

/-! ## Calls one after the other -/

theorem asTarget_pure (a : α) (b : Builder) : asTarget (pure a) b = .ok (a, b) := rfl

theorem run_get_bind (f : Builder → BuilderM α) (b : Builder) :
    (get >>= f : BuilderM α).run b = (f b).run b := rfl

theorem run_lift_bind (e : Except EncodeError β) (f : β → BuilderM α) (b : Builder) :
    (liftM e >>= f : BuilderM α).run b =
      match e with
      | .ok a => (f a).run b
      | .error cause => (.error cause, b) := by
  cases e <;> rfl

theorem run_indexOf_bind (length : Nat) (what : Limited) (f : UInt16 → BuilderM α) (b : Builder) :
    (liftM (indexOf length what) >>= f : BuilderM α).run b =
      if length < Limited.limit then (f (UInt16.ofNat length)).run b
      else (.error (.tooMany what), b) := by
  rw [run_lift_bind]
  by_cases h : length < Limited.limit <;> simp [indexOf, h]

theorem run_map (f : α → β) (x : BuilderM α) (b : Builder) :
    (f <$> x).run b = (Except.map f (x.run b).1, (x.run b).2) := by
  rw [ExceptT.run_map]
  rfl

/-! ## Inputs -/

def addInput (b : Builder) (input : TxInput) : Builder :=
  { b with inputs := b.inputs.push input }

theorem getElem?_addInput {b : Builder} {i : Nat} {x y : TxInput} (h : b.inputs[i]? = some y) :
    (b.addInput x).inputs[i]? = some y := by
  have hlt := (Array.getElem?_eq_some_iff.mp h).1
  simpa [addInput, Array.getElem?_push, Nat.ne_of_lt hlt] using h

theorem run_pushInput (input : TxInput) (b : Builder) :
    (pushInput input).run b =
      if b.inputs.size < Limited.limit then
        (.ok (.input (UInt16.ofNat b.inputs.size)), b.addInput input)
      else (.error (.tooMany .inputs), b) :=
  run_indexOf_bind b.inputs.size .inputs _ b

theorem asTarget_pushInput (input : TxInput) (b : Builder) :
    asTarget (pushInput input) b =
      if b.inputs.size < Limited.limit then
        .ok (.input (UInt16.ofNat b.inputs.size), b.addInput input)
      else .error (.encode (.tooMany .inputs)) := by
  rw [asTarget, run_pushInput]
  by_cases h : b.inputs.size < Limited.limit <;> simp [h]

theorem asTarget_literal (kind : ParamKind) (value : Literal) (b : Builder) :
    asTarget (literal kind value) b =
      match PureValue.encode kind value with
      | .ok v => asTarget (pushInput (.pure v.type v.bytes)) b
      | .error cause => .error (.encode cause) := by
  rw [literal, asTarget, run_lift_bind]
  cases PureValue.encode kind value <;> rfl

theorem findIdx?_object {inputs : Array TxInput} {id : String} {n : Nat}
    (h : inputs.findIdx? (· == .object id) = some n) : inputs[n]? = some (.object id) := by
  obtain ⟨hlt, heq, -⟩ := Array.findIdx?_eq_some_iff_getElem.mp h
  rw [Array.getElem?_eq_getElem hlt, beq_iff_eq.mp heq]

theorem findIdx?_object_eq_none {inputs : Array TxInput} {id : String} :
    inputs.findIdx? (· == .object id) = none ↔ .object id ∉ inputs := by
  simp only [Array.findIdx?_eq_none_iff, beq_eq_false_iff_ne]
  exact ⟨fun h hmem => h _ hmem rfl, fun h x hx heq => h (heq ▸ hx)⟩

theorem run_addObject (id : String) (b : Builder) :
    (addObject id).run b =
      match fullAddress id with
      | .error cause => (.error cause, b)
      | .ok full =>
        match b.inputs.findIdx? (· == .object full) with
        | some index => (.ok (.input (UInt16.ofNat index)), b)
        | none => (pushInput (.object full)).run b := by
  rw [addObject, run_lift_bind]
  cases fullAddress id with
  | error cause => rfl
  | ok full =>
    simp only [run_get_bind]
    cases b.inputs.findIdx? (· == .object full) <;> rfl

theorem asTarget_addObject (id : String) (b : Builder) :
    asTarget (addObject id) b =
      match fullAddress id with
      | .error cause => .error (.encode cause)
      | .ok full =>
        match b.inputs.findIdx? (· == .object full) with
        | some index => .ok (.input (UInt16.ofNat index), b)
        | none => asTarget (pushInput (.object full)) b := by
  rw [asTarget, run_addObject]
  cases fullAddress id with
  | error cause => rfl
  | ok full => cases h : b.inputs.findIdx? (· == .object full) <;> simp [h, asTarget]

/-! ## Commands -/

def addCommand (b : Builder) (c : TxCommand) : Builder :=
  { b with commands := b.commands.push c }

theorem run_push_bind (c : TxCommand) (f : UInt16 → BuilderM α) (b : Builder) :
    (push c >>= f).run b =
      if b.commands.size < Limited.limit then
        (f (UInt16.ofNat b.commands.size)).run (b.addCommand c)
      else (.error (.tooMany .commands), b) := by
  rw [push]
  simp only [bind_assoc, pure_bind]
  exact run_indexOf_bind b.commands.size .commands _ b

/-- The call appends the command, if there is room for its results and for itself, and answers with
what its position gives. -/
def Appends (x : BuilderM α) (c : TxCommand) (count : Nat) (answer : UInt16 → α) : Prop :=
  ∀ b : Builder, x.run b =
    if count < Limited.limit then
      if b.commands.size < Limited.limit then
        (.ok (answer (UInt16.ofNat b.commands.size)), b.addCommand c)
      else (.error (.tooMany .commands), b)
    else (.error (.tooMany .results), b)

theorem appends_pushOnly (c : TxCommand) : Appends (pushOnly c) c 0 fun _ => () :=
  run_push_bind c _

theorem appends_pushWithResult (c : TxCommand) : Appends (pushWithResult c) c 1 .result :=
  run_push_bind c _

theorem length_results (index : UInt16) (count : Nat) : (results index count).length = count := by
  simp [results]

theorem appends_pushWithResults (c : TxCommand) (count : Nat) :
    Appends (pushWithResults c count) c count fun index => results index count := by
  intro b
  rw [pushWithResults, run_indexOf_bind, run_push_bind]
  rfl

namespace Appends

variable {x : BuilderM α} {c : TxCommand} {count : Nat} {answer : UInt16 → α}

theorem map (h : Appends x c count answer) (f : α → β) :
    Appends (f <$> x) c count fun index => f (answer index) := by
  intro b
  rw [run_map, h b]
  split
  · split <;> rfl
  · rfl

theorem asTarget (h : Appends x c count answer) (b : Builder) :
    asTarget x b =
      if count < Limited.limit then
        if b.commands.size < Limited.limit then
          .ok (answer (UInt16.ofNat b.commands.size), b.addCommand c)
        else .error (.encode (.tooMany .commands))
      else .error (.encode (.tooMany .results)) := by
  rw [Builder.asTarget, h b]
  by_cases hcount : count < Limited.limit <;>
    by_cases hroom : b.commands.size < Limited.limit <;> simp [hcount, hroom]

theorem eq_ok (h : Appends x c count answer) {b b' : Builder} {a : α}
    (hok : Builder.asTarget x b = .ok (a, b')) :
    count < Limited.limit ∧ b.commands.size < Limited.limit ∧
      a = answer (UInt16.ofNat b.commands.size) ∧ b' = b.addCommand c := by
  rw [h.asTarget] at hok
  split at hok
  case isFalse => cases hok
  case isTrue hcount =>
    split at hok
    case isFalse => cases hok
    case isTrue hroom =>
      cases hok
      exact ⟨hcount, hroom, rfl, rfl⟩

end Appends

/-! ## Options -/

/-- Options are refused for the sender only, and a sender is set in full. -/
theorem senderOf_ends (o : ExecOptions) : Ends (fun e => ∃ text, e = .invalidSender text)
    (fun sender => ∀ s, sender = some s → ∃ text, fullAddress text = .ok s) (Script.senderOf o) := by
  unfold Script.senderOf
  cases o.sender with
  | none => exact .ok nofun
  | some text =>
    dsimp only
    cases hfull : fullAddress text with
    | error cause => exact .error ⟨text, rfl⟩
    | ok full => exact .ok fun s hs => ⟨text, by cases hs; exact hfull⟩

theorem configure_eq (b : Builder) (o : ExecOptions) :
    b.configure o = (Script.senderOf o).map fun sender =>
      ⟨sender.or b.sender, o.gasBudget.or b.gasBudget, b.inputs, b.commands⟩ := by
  unfold configure Script.senderOf
  cases o.sender with
  | none => cases o.gasBudget <;> rfl
  | some text =>
    dsimp only
    cases fullAddress text with
    | error cause => rfl
    | ok full => cases o.gasBudget <;> rfl

theorem configure_eq_ok {b b' : Builder} {o : ExecOptions} :
    b.configure o = .ok b' ↔ ∃ sender, Script.senderOf o = .ok sender ∧
      b' = ⟨sender.or b.sender, o.gasBudget.or b.gasBudget, b.inputs, b.commands⟩ := by
  rw [configure_eq]
  cases Script.senderOf o with
  | error e => exact ⟨nofun, nofun⟩
  | ok sender => simp [Except.map, eq_comm]

end TxGraph.Transaction.Builder
