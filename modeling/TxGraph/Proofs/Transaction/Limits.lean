import Mathlib.Logic.Relation
import TxGraph.Proofs.Transaction.Builder
import TxGraph.Proofs.Transaction.Inputs

/-!
# The limits of a transaction

A builder refuses what it has no 16-bit index for, and stays as it was. The inputs and the commands
come up to the limit, as positions below it have an index. The results of one command are refused by
their number and not by their positions, so they stop one short of it (`make_within_limits`). What
is not refused is carried out, and the arguments that are given out are the true positions.
-/

namespace TxGraph.Transaction.Builder

/-! ## Calls -/

/-- A call that gives out indices. -/
inductive Call
  | pure (value : PureValue)
  | object (id : String)
  | splitCoins (coin : TxArg) (amounts : List TxArg)
  | mergeCoins (destination : TxArg) (sources : List TxArg)
  | transferObjects (objects : List TxArg) (recipient : TxArg)
  | makeMoveVec (elem : Option String) (elems : List TxArg)
  | moveCall (package module function : String) (typeArgs : List String) (args : List TxArg)
      (returns : Nat)
  | publish (modules dependencies : List String)
  | upgrade (modules dependencies : List String) (package : String) (ticket : TxArg)

/-- Makes the call, and lists the arguments that it gives out. -/
def Call.make : Call → BuilderM (List TxArg)
  | pure value => (fun arg => [arg]) <$> addPure value
  | object id => (fun arg => [arg]) <$> addObject id
  | splitCoins coin amounts => Builder.splitCoins coin amounts
  | mergeCoins destination sources => (fun _ => []) <$> Builder.mergeCoins destination sources
  | transferObjects objects recipient => (fun _ => []) <$> Builder.transferObjects objects recipient
  | makeMoveVec elem elems => (fun arg => [arg]) <$> Builder.makeMoveVec elem elems
  | moveCall package module function typeArgs args returns =>
    Builder.moveCall package module function typeArgs args returns
  | publish modules dependencies => (fun arg => [arg]) <$> Builder.publish modules dependencies
  | upgrade modules dependencies package ticket =>
    (fun arg => [arg]) <$> Builder.upgrade modules dependencies package ticket

/-- One call, whatever comes of it. -/
inductive Next : Builder → Builder → Prop
  | setSender (text : String) (b : Builder) : Next b ((Builder.setSender text).run b).2
  | setGasBudget (budget : UInt64) (b : Builder) : Next b ((Builder.setGasBudget budget).run b).2
  | call (c : Call) (b : Builder) : Next b (c.make.run b).2

abbrev Reaches : Builder → Builder → Prop :=
  Relation.ReflTransGen Next

/-! ## What calls ask for -/

/-- The results of a command: none, the command's own, or a number of them. -/
inductive Results
  | none
  | own
  | each (count : Nat)

inductive Request
  | input (input : TxInput)
  | command (c : TxCommand) (results : Results)

/-- What a call asks for. An object needs an address. -/
def Call.request : Call → Except EncodeError Request
  | pure value => .ok (.input (.pure value.type value.bytes))
  | object id => (fullAddress id).map fun full => .input (.object full)
  | splitCoins coin amounts => .ok (.command (.splitCoins coin amounts) (.each amounts.length))
  | mergeCoins destination sources => .ok (.command (.mergeCoins destination sources) .none)
  | transferObjects objects recipient => .ok (.command (.transferObjects objects recipient) .none)
  | makeMoveVec elem elems => .ok (.command (.makeMoveVec elem elems) .own)
  | moveCall package module function typeArgs args returns =>
    .ok (.command (.moveCall package module function typeArgs args) (.each returns))
  | publish modules dependencies => .ok (.command (.publish modules dependencies) .own)
  | upgrade modules dependencies package ticket =>
    .ok (.command (.upgrade modules dependencies package ticket) .own)

namespace Request

/-- The request carried out, without regard to limits. An object is an input only once. -/
def apply (b : Builder) : Request → Builder
  | input (.object id) => if .object id ∈ b.inputs then b else b.addInput (.object id)
  | input i => b.addInput i
  | command c _ => b.addCommand c

def results : Request → Nat
  | command _ .own => 1
  | command _ (.each count) => count
  | _ => 0

/-- How many there are of a resource when the request is carried out. -/
def count (r : Request) (b : Builder) : Limited → Nat
  | .inputs => (r.apply b).inputs.size
  | .commands => (r.apply b).commands.size
  | .results => r.results

/-- The arguments are the positions of what the request adds to the builder, or, with an object that
is there already, its only position. -/
def Located (b : Builder) : Request → List TxArg → Prop
  | input (.pure ..), args => ∃ i : UInt16, i.toNat = b.inputs.size ∧ args = [.input i]
  | input (.object id), args => ∃ i : UInt16, args = [.input i] ∧
    ∀ n, (apply b (.input (.object id))).inputs[n]? = some (.object id) ↔ n = i.toNat
  | command _ .none, args => args = []
  | command _ .own, args => ∃ i : UInt16, i.toNat = b.commands.size ∧ args = [.result i]
  | command _ (.each count), args => args.length = count ∧ ∀ (n : Nat) arg, args[n]? = some arg →
    ∃ i j : UInt16, i.toNat = b.commands.size ∧ j.toNat = n ∧ arg = .nested i j

end Request

/-! ## What calls do -/

/-- What holds of every builder. -/
structure Sound (b : Builder) : Prop where
  inputs : b.inputs.size ≤ Limited.limit
  commands : b.commands.size ≤ Limited.limit
  objects {m n : Nat} {id : String} : b.inputs[m]? = some (.object id) →
    b.inputs[n]? = some (.object id) → m = n

/-- How a request ends: it is carried out, or one resource is not enough. Results are counted
first. -/
inductive Outcome (r : Request) (b : Builder) : Except EncodeError (List TxArg) × Builder → Prop
  | granted {args : List TxArg} (hinputs : r.count b .inputs ≤ Limited.limit)
      (hcommands : r.count b .commands ≤ Limited.limit)
      (hresults : r.count b .results < Limited.limit) (hargs : r.Located b args) :
      Outcome r b (.ok args, r.apply b)
  | inputs (hinputs : Limited.limit < r.count b .inputs)
      (hcommands : r.count b .commands ≤ Limited.limit)
      (hresults : r.count b .results < Limited.limit) : Outcome r b (.error (.tooMany .inputs), b)
  | results (hinputs : r.count b .inputs ≤ Limited.limit)
      (hresults : Limited.limit ≤ r.count b .results) : Outcome r b (.error (.tooMany .results), b)
  | commands (hinputs : r.count b .inputs ≤ Limited.limit)
      (hcommands : Limited.limit < r.count b .commands)
      (hresults : r.count b .results < Limited.limit) : Outcome r b (.error (.tooMany .commands), b)

section

variable {b : Builder} {r : Request} {c : Call}

theorem Sound.input_outcome (hb : Sound b) {i : TxInput}
    (happly : (Request.input i).apply b = b.addInput i)
    (hargs : ∀ n : UInt16, n.toNat = b.inputs.size → (Request.input i).Located b [.input n]) :
    Outcome (.input i) b (((fun arg => [arg]) <$> pushInput i).run b) := by
  have hinputs : (Request.input i).count b .inputs = b.inputs.size + 1 := by
    simp [Request.count, happly, addInput]
  have hcommands : (Request.input i).count b .commands ≤ Limited.limit := by
    simpa [Request.count, happly, addInput] using hb.commands
  rw [run_map, run_pushInput]
  split
  case isTrue hroom =>
    rw [← happly]
    exact .granted (by omega) hcommands (by decide : 0 < Limited.limit)
      (hargs _ (toNat_index hroom))
  case isFalse hfull => exact .inputs (by omega) hcommands (by decide : 0 < Limited.limit)

theorem Sound.command_outcome (hb : Sound b) {c : TxCommand} {results : Results}
    {x : BuilderM (List TxArg)} {answer : UInt16 → List TxArg}
    (h : Appends x c (Request.command c results).results answer)
    (hargs : (Request.command c results).results < Limited.limit →
      b.commands.size < Limited.limit →
        (Request.command c results).Located b (answer (UInt16.ofNat b.commands.size))) :
    Outcome (.command c results) b (x.run b) := by
  have hcount : (Request.command c results).count b .commands = b.commands.size + 1 :=
    Array.size_push _
  rw [h b]
  split
  case isFalse hmany => exact .results hb.inputs (Nat.le_of_not_lt hmany)
  case isTrue hfew =>
    split
    case isTrue hroom => exact .granted hb.inputs (by omega) hfew (hargs hfew hroom)
    case isFalse hfull => exact .commands hb.inputs (by omega) hfew

theorem located_results (c : TxCommand) {count : Nat} (hcount : count < Limited.limit)
    (hroom : b.commands.size < Limited.limit) :
    (Request.command c (.each count)).Located b
      (results (UInt16.ofNat b.commands.size) count) := by
  refine ⟨by simp [results], fun n arg harg => ?_⟩
  rw [results, List.getElem?_map, Option.map_eq_some_iff] at harg
  obtain ⟨m, hm, rfl⟩ := harg
  obtain ⟨hn, rfl⟩ := List.getElem?_eq_some_iff.mp hm
  rw [List.length_range] at hn
  rw [List.getElem_range]
  exact ⟨_, _, toNat_index hroom, toNat_index (Nat.lt_trans hn hcount), rfl⟩

theorem Sound.object_outcome (hb : Sound b) {text id : String} (h : fullAddress text = .ok id) :
    Outcome (.input (.object id)) b (((fun arg => [arg]) <$> addObject text).run b) := by
  rw [run_map, run_addObject, h]
  dsimp only
  cases hfind : b.inputs.findIdx? (· == .object id) with
  | some n =>
    have hn := findIdx?_object hfind
    have hsame : (Request.input (.object id)).apply b = b := if_pos (Array.mem_of_getElem? hn)
    have hindex : (UInt16.ofNat n).toNat = n :=
      toNat_index (Nat.lt_of_lt_of_le (Array.getElem?_eq_some_iff.mp hn).1 hb.inputs)
    have hgranted : Outcome (.input (.object id)) b
        (.ok [.input (UInt16.ofNat n)], (Request.input (.object id)).apply b) := by
      refine .granted ?_ ?_ (by decide : 0 < Limited.limit) ⟨_, rfl, fun m => ?_⟩
      · rw [Request.count, hsame]
        exact hb.inputs
      · rw [Request.count, hsame]
        exact hb.commands
      · rw [hsame, hindex]
        exact ⟨fun hm => hb.objects hm hn, fun hm => hm ▸ hn⟩
    rwa [hsame] at hgranted
  | none =>
    have hnew := findIdx?_object_eq_none.mp hfind
    have happly : (Request.input (.object id)).apply b = b.addInput (.object id) := if_neg hnew
    refine run_map (fun arg => [arg]) (pushInput (.object id)) b ▸
      hb.input_outcome happly fun n hn => ⟨n, rfl, fun m => ?_⟩
    rw [happly, addInput, Array.getElem?_push, hn]
    split
    case isTrue hm => exact ⟨fun _ => hm, fun _ => rfl⟩
    case isFalse hm =>
      exact ⟨fun hget => absurd (Array.mem_of_getElem? hget) hnew, fun heq => absurd heq hm⟩

theorem Sound.outcome (hb : Sound b) (h : c.request = .ok r) : Outcome r b (c.make.run b) := by
  cases c with
  | object id =>
    cases hfull : fullAddress id with
    | error cause => simp [Call.request, hfull, Except.map] at h
    | ok full =>
      simp only [Call.request, hfull, Except.map, Except.ok.injEq] at h
      exact h ▸ hb.object_outcome hfull
  | pure value =>
    cases h
    exact hb.input_outcome rfl fun n hn => ⟨n, hn, rfl⟩
  | splitCoins | moveCall =>
    cases h
    exact hb.command_outcome (appends_pushWithResults _ _) (located_results _)
  | mergeCoins | transferObjects =>
    cases h
    exact hb.command_outcome ((appends_pushOnly _).map fun _ => []) fun _ _ => rfl
  | makeMoveVec | publish | upgrade =>
    cases h
    exact hb.command_outcome ((appends_pushWithResult _).map fun arg => [arg])
      fun _ hroom => ⟨_, toNat_index hroom, rfl⟩

theorem run_make_of_error {cause : EncodeError} (h : c.request = .error cause) :
    c.make.run b = (.error cause, b) := by
  cases c with
  | object id =>
    cases hfull : fullAddress id with
    | error cause' =>
      simp only [Call.request, hfull, Except.map, Except.error.injEq] at h
      rw [Call.make, run_map, run_addObject, hfull, h]
      rfl
    | ok full => simp [Call.request, hfull, Except.map] at h
  | _ => cases h

/-! ## Builders that calls lead to -/

theorem Sound.empty : Sound empty :=
  ⟨Nat.zero_le _, Nat.zero_le _, fun h => by cases h⟩

/-- What calls keep: the builder is sound, and its inputs have the positions that they had. -/
structure Keeps (b b' : Builder) : Prop where
  sound : Sound b'
  inputs {n : Nat} {i : TxInput} : b.inputs[n]? = some i → b'.inputs[n]? = some i

theorem Sound.keeps (hb : Sound b) : Keeps b b := ⟨hb, id⟩

theorem Sound.addInput (hb : Sound b) {i : TxInput}
    (hroom : (b.addInput i).inputs.size ≤ Limited.limit)
    (hnew : ∀ id, i = .object id → i ∉ b.inputs) : Keeps b (b.addInput i) where
  sound := by
    refine ⟨hroom, hb.commands, fun {m n id} hm hn => ?_⟩
    simp only [Builder.addInput, Array.getElem?_push] at hm hn
    split at hm <;> split at hn
    · omega
    · obtain rfl := Option.some.inj hm
      exact absurd (Array.mem_of_getElem? hn) (hnew id rfl)
    · obtain rfl := Option.some.inj hn
      exact absurd (Array.mem_of_getElem? hm) (hnew id rfl)
    · exact hb.objects hm hn
  inputs := getElem?_addInput

theorem Sound.apply (hb : Sound b) (hinputs : r.count b .inputs ≤ Limited.limit)
    (hcommands : r.count b .commands ≤ Limited.limit) : Keeps b (r.apply b) := by
  match r with
  | .input (.pure type bytes) => exact hb.addInput hinputs fun id h => by cases h
  | .input (.object id) =>
    rw [Request.count] at hinputs
    rw [Request.apply] at hinputs ⊢
    split
    case isTrue => exact hb.keeps
    case isFalse hnew =>
      rw [if_neg hnew] at hinputs
      exact hb.addInput hinputs fun _ _ => hnew
  | .command c results => exact ⟨⟨hb.inputs, hcommands, hb.objects⟩, id⟩

/-- What one call keeps. -/
theorem Next.keeps {b' : Builder} (h : Next b b') (hb : Sound b) : Keeps b b' := by
  cases h with
  | setSender text =>
    rw [Builder.setSender, run_lift_bind]
    cases fullAddress text <;> exact ⟨⟨hb.inputs, hb.commands, hb.objects⟩, id⟩
  | setGasBudget budget => exact ⟨⟨hb.inputs, hb.commands, hb.objects⟩, id⟩
  | call c =>
    cases hr : c.request with
    | error cause =>
      rw [run_make_of_error hr]
      exact hb.keeps
    | ok r =>
      have houtcome := hb.outcome hr
      generalize c.make.run b = ended at houtcome
      cases houtcome with
      | granted hinputs hcommands => exact hb.apply hinputs hcommands
      | _ => exact hb.keeps

theorem Reaches.keeps {b' : Builder} (h : Reaches b b') (hb : Sound b) : Keeps b b' := by
  induction h with
  | refl => exact hb.keeps
  | tail _ hnext ih =>
    have hlast := hnext.keeps ih.sound
    exact ⟨hlast.sound, fun hn => hlast.inputs (ih.inputs hn)⟩

/-- **Limits are kept exactly, and that of results is one short.** Inputs and commands are refused
where one more would exceed the limit. Results are refused where there are as many as the limit, and
before the commands are counted. A refused call leaves the builder as it was; any other is carried
out, and answers with true positions. -/
theorem make_within_limits (hb : Reaches empty b) (hr : c.request = .ok r) :
    ((c.make.run b).1 = .error (.tooMany .inputs) ↔ Limited.limit < r.count b .inputs) ∧
    ((c.make.run b).1 = .error (.tooMany .results) ↔ Limited.limit ≤ r.count b .results) ∧
    ((c.make.run b).1 = .error (.tooMany .commands) ↔
      Limited.limit < r.count b .commands ∧ r.count b .results < Limited.limit) ∧
    (∀ e b', c.make.run b = (.error e, b') → (∃ what, e = .tooMany what) ∧ b' = b) ∧
    (∀ args b', c.make.run b = (.ok args, b') → b' = r.apply b ∧ r.Located b args) := by
  have houtcome := (hb.keeps .empty).sound.outcome hr
  have hrefused {what : Limited} (e : EncodeError) (b' : Builder)
      (h : ((.error (.tooMany what), b) : Except EncodeError (List TxArg) × Builder) =
        (.error e, b')) : (∃ what, e = .tooMany what) ∧ b' = b := by
    cases h
    exact ⟨⟨what, rfl⟩, rfl⟩
  generalize c.make.run b = ended at houtcome
  cases houtcome with
  | granted hinputs hcommands hresults hargs =>
    refine ⟨⟨nofun, by omega⟩, ⟨nofun, by omega⟩, ⟨nofun, by omega⟩, nofun, ?_⟩
    rintro args b' ⟨⟩
    exact ⟨rfl, hargs⟩
  | inputs hinputs hcommands hresults =>
    refine ⟨?_, ?_, ?_, hrefused, nofun⟩ <;> simp <;> omega
  | results hinputs hresults => refine ⟨?_, ?_, ?_, hrefused, nofun⟩ <;> simp <;> omega
  | commands hinputs hcommands hresults =>
    refine ⟨?_, ?_, ?_, hrefused, nofun⟩ <;> simp <;> omega

/-- A split into as many coins as the limit is refused, though nothing exceeds the limit. -/
theorem make_within_limits_fullSplit :
    let c := Call.splitCoins .gasCoin (List.replicate Limited.limit (.input 0))
    let r := Request.command
      (.splitCoins .gasCoin (List.replicate Limited.limit (.input 0))) (.each Limited.limit)
    (c.make.run empty).1 = .error (.tooMany .results) ∧ ∀ what, r.count empty what ≤ Limited.limit := by
  intro c r
  have hr : c.request = .ok r := by simp [c, r, Call.request]
  refine ⟨(make_within_limits .refl hr).2.1.mpr (Nat.le_refl _), fun what => ?_⟩
  cases what with
  | inputs => exact Nat.zero_le _
  | commands => exact (by decide : 1 ≤ Limited.limit)
  | results => exact Nat.le_refl _

end

end TxGraph.Transaction.Builder
