import TxGraph.Proofs.Address
import TxGraph.Proofs.Lowering.Simulation
import TxGraph.Proofs.Transaction.Builder

/-!
# Transactions and scripts agree

The transaction builder numbers inputs, the writer of script keeps what each argument stands for.
Between them the handles of an argument correspond when the input, looked up, is what the writer
has kept. So the transaction and the script of a program have one trace.
-/

namespace TxGraph

open Transaction Script
open Transaction.Builder

namespace Transaction

variable {inputs : Array TxInput}

/-- An argument refers to an input that exists, and a trace shows it so. -/
def Shows (inputs : Array TxInput) (a : TxArg) (shown : TraceArg) : Prop :=
  (∀ i, a = .input i → i.toNat < inputs.size) ∧ traceArg inputs a = .ok shown

theorem Shows.push {a : TxArg} {shown : TraceArg} (h : Shows inputs a shown) (input : TxInput) :
    Shows (inputs.push input) a shown := by
  obtain ⟨hlt, hshown⟩ := h
  refine ⟨fun i hi => ?_, ?_⟩
  · rw [Array.size_push]
    exact Nat.lt_succ_of_lt (hlt i hi)
  · cases a with
    | gasCoin => exact hshown
    | result index => exact hshown
    | nested index nth => exact hshown
    | input i =>
      have hi := hlt i rfl
      simpa [traceArg, Array.getElem?_push, Nat.ne_of_lt hi] using hshown

theorem mapM_of_forall₂ {ε α β : Type} {f : α → Except ε β} {as : List α} {bs : List β}
    (h : List.Forall₂ (fun a b => f a = .ok b) as bs) : as.mapM f = .ok bs := by
  induction h with
  | nil => rfl
  | cons hf _ ih =>
    rw [List.mapM_cons, hf, ih]
    rfl

structure ShowsCommand (inputs : Array TxInput) (c : TxCommand) (call : TracedCall) : Prop where
  kind : c.kind? = some call.kind
  target : c.target = .ok call.target
  typeArgs : call.typeArgs = c.typeArgs
  args : List.Forall₂ (Shows inputs) c.args call.args

theorem ShowsCommand.push {c : TxCommand} {call : TracedCall} (h : ShowsCommand inputs c call)
    (input : TxInput) : ShowsCommand (inputs.push input) c call :=
  { h with args := h.args.imp fun _ _ hs => hs.push input }

theorem ShowsCommand.traceCommand {c : TxCommand} {call : TracedCall}
    (h : ShowsCommand inputs c call) : traceCommand inputs c = .ok (some call) := by
  have hargs : c.args.mapM (traceArg inputs) = .ok call.args :=
    mapM_of_forall₂ (h.args.imp fun _ _ hs => hs.2)
  unfold Transaction.traceCommand
  rw [h.kind, h.target, hargs, ← h.typeArgs]
  rfl

end Transaction

namespace Lowering

variable {c : TxCommand} {call : TracedCall}

def ShowsObjects (w : Writer) : Prop :=
  ∀ id handle, Directory.get? w.objects id = some handle → handle.arg = .object id

/-- The writer has kept the trace of what the builder has. -/
structure Alike (b : Builder) (w : Writer) : Prop where
  commands : List.Forall₂ (ShowsCommand b.inputs) b.commands.toList w.trace.toList
  inputs : b.inputs.size ≤ Limited.limit
  objects {i : Nat} {id : String} : b.inputs[i]? = some (.object id) →
    Address.normalize id = .ok id
  known : ShowsObjects w

theorem Alike.size {b : Builder} {w : Writer} (h : Alike b w) :
    w.trace.size = b.commands.size := by
  simpa using h.commands.length_eq.symm

/-- The correspondence of builder and writer, under the same names. The kind of a parameter plays no
part. -/
def builderWriter : Correspondence Builder Writer TxArg Handle where
  state := Alike
  pass b _ a handle := Shows b.inputs a handle.arg
  arg _ b _ a handle := Shows b.inputs a handle.arg
  arg_of_pass h := h

@[simp]
theorem name_builderWriter : builderWriter.name = id := rfl

/-- Refusals for want of indices, of which the script has more than the transaction. -/
def OutOfIndices (refusal : Refusal) : Prop :=
  ∃ what, refusal = .encode (.tooMany what)

variable {b : Builder} {w : Writer}

theorem Alike.addInput (h : Alike b w) {input : TxInput} (hsize : b.inputs.size < Limited.limit)
    (hinput : ∀ id, input = .object id → Address.normalize id = .ok id) :
    Alike (b.addInput input) w where
  commands := h.commands.imp fun _ _ hs => hs.push input
  inputs := by
    simp only [Builder.addInput, Array.size_push]
    omega
  objects {i id} hi := by
    simp only [Builder.addInput, Array.getElem?_push] at hi
    split at hi
    · exact hinput id (Option.some.inj hi)
    · exact h.objects hi
  known := h.known

theorem Alike.congr (h : Alike b w) {w' : Writer} (htrace : w'.trace = w.trace)
    (hobjects : w'.objects = w.objects) : Alike b w' where
  commands := by
    rw [htrace]
    exact h.commands
  inputs := h.inputs
  objects := h.objects
  known := by
    rw [ShowsObjects, hobjects]
    exact h.known

theorem keeps_refl (b : Builder) (w w' : Writer) : builderWriter.Keeps b w b w' :=
  ⟨fun h => h, fun h => h⟩

theorem keeps_addInput (b : Builder) (w w' : Writer) (input : TxInput) :
    builderWriter.Keeps b w (b.addInput input) w' :=
  ⟨fun h => h.push input, fun h => h.push input⟩

theorem keeps_addCommand (b : Builder) (w w' : Writer) (c : TxCommand) :
    builderWriter.Keeps b w (b.addCommand c) w' :=
  ⟨fun h => h, fun h => h⟩

@[simp]
theorem hoist_trace (w : Writer) (symbol : Option String) (value : Expr) :
    (w.hoist symbol value).2.trace = w.trace := by
  cases symbol <;> rfl

@[simp]
theorem hoist_objects (w : Writer) (symbol : Option String) (value : Expr) :
    (w.hoist symbol value).2.objects = w.objects := by
  cases symbol <;> rfl

theorem shows_addInput (hsize : b.inputs.size < Limited.limit) {input : TxInput}
    {shown : TraceArg} (h : Transaction.traceArg #[input] (.input 0) = .ok shown) :
    Shows (b.addInput input).inputs (.input (UInt16.ofNat b.inputs.size)) shown := by
  have hindex : (UInt16.ofNat b.inputs.size).toNat = b.inputs.size :=
    UInt16.toNat_ofNat_of_lt hsize
  refine ⟨fun i hi => ?_, ?_⟩
  · cases hi
    simp [Builder.addInput, hindex]
  · simpa [Transaction.traceArg, Builder.addInput, hindex] using h

/-! ## Objects and literals -/

theorem ShowsObjects.known_arg (h : ShowsObjects w) (id : String) (value : Expr) (symbol : Option String) :
    (w.known id value symbol).1.arg = .object id := by
  unfold Writer.known
  split
  · exact h _ _ ‹_›
  · rfl

theorem ShowsObjects.known (h : ShowsObjects w) (id : String) (value : Expr) (symbol : Option String) :
    ShowsObjects (w.known id value symbol).2 := by
  unfold Writer.known
  split
  · exact h
  · intro id' handle hget
    simp only [hoist_objects, Directory.get?_insert] at hget
    split at hget
    · cases hget
      subst id'
      rfl
    · exact h _ _ hget

theorem alike_known (h : Alike b w) (id : String) (value : Expr) (symbol : Option String) :
    Alike b (w.known id value symbol).2 := by
  refine ⟨?_, h.inputs, h.objects, h.known.known id value symbol⟩
  unfold Writer.known
  split
  · exact h.commands
  · simpa using h.commands

/-- The input of an object on the one side is what is known of it on the other. -/
theorem addObject_step (h : Alike b w) (text : String) (value : Expr) (symbol : Option String) :
    builderWriter.Step OutOfIndices b w builderWriter.pass
      (asTarget (addObject text) b)
      (do return w.known (← (fullAddress text).mapError .encode) value symbol) := by
  rw [asTarget_addObject]
  cases hfull : fullAddress text with
  | error cause => exact .error _
  | ok id =>
    have hnorm := Builder.normalize_fullAddress hfull
    simp only
    cases hfind : b.inputs.findIdx? (· == .object id) with
    | some i =>
      obtain ⟨hi, heq, -⟩ := Array.findIdx?_eq_some_iff_getElem.mp hfind
      have hindex : (UInt16.ofNat i).toNat = i :=
        UInt16.toNat_ofNat_of_lt (Nat.lt_of_lt_of_le hi h.inputs)
      refine .ok ⟨alike_known h id value symbol, keeps_refl _ _ _, ?_, ?_⟩
      · intro j hj
        cases hj
        rwa [hindex]
      · have hget : b.inputs[i]? = some (.object id) := by
          rw [Array.getElem?_eq_getElem hi, eq_of_beq heq]
        simp only [traceArg, hindex, hget, h.known.known_arg, hnorm]
        rfl
    | none =>
      simp only [asTarget_pushInput]
      split
      · rename_i hsize
        refine .ok ⟨(alike_known h id value symbol).addInput hsize ?_, keeps_addInput _ _ _ _, ?_⟩
        · intro id' he
          cases he
          exact hnorm
        · refine shows_addInput hsize ?_
          simp only [traceArg, UInt16.toNat_zero, List.getElem?_toArray, List.getElem?_cons_zero]
          rw [hnorm, h.known.known_arg]
          rfl
      · exact .exempt ⟨.inputs, rfl⟩ _

theorem object_step (h : Alike b w) (o : ObjectRef) (symbol : Option String) :
    builderWriter.Step OutOfIndices b w builderWriter.pass
      (Builder.target.object o symbol b) (Writer.target.object o symbol w) := by
  show builderWriter.Step OutOfIndices b w builderWriter.pass
    (asTarget (objectRef o) b) (Writer.object o symbol w)
  cases o with
  | gas => exact .ok ⟨h, keeps_refl _ _ _, nofun, rfl⟩
  | byId id => exact addObject_step h id (.object (Text.trim id)) symbol
  | system =>
    simpa only [objectRef, Writer.object, ObjectRef.systemId?, Option.getD_some] using
      addObject_step h "0x5" .system symbol
  | clock =>
    simpa only [objectRef, Writer.object, ObjectRef.systemId?, Option.getD_some] using
      addObject_step h "0x6" .clock symbol
  | random =>
    simpa only [objectRef, Writer.object, ObjectRef.systemId?, Option.getD_some] using
      addObject_step h "0x8" .random symbol

/-- A literal other than the sender becomes the same value on both sides. -/
theorem literal_step (h : Alike b w) (kind : ParamKind) {value : Literal}
    (hvalue : value ≠ .sender) (symbol : Option String) :
    builderWriter.Step OutOfIndices b w (builderWriter.arg kind)
      (Builder.target.pure kind value symbol b) (Writer.target.pure kind value symbol w) := by
  show builderWriter.Step OutOfIndices b w (builderWriter.arg kind)
    (asTarget (literal kind value) b) (Writer.literal kind value symbol w)
  rw [asTarget_literal, Writer.literal, if_neg hvalue]
  cases PureValue.encode kind value with
  | error cause => exact .error _
  | ok v =>
    simp only [asTarget_pushInput]
    split
    · rename_i hsize
      refine .ok ⟨?_, keeps_addInput _ _ _ _, ?_⟩
      · exact (h.congr (by simp) (by simp)).addInput hsize fun id he => by cases he
      · exact shows_addInput hsize rfl
    · exact .exempt ⟨.inputs, rfl⟩ _

/-! ## Commands -/

theorem nextCommand_eq (h : Alike b w) :
    w.nextCommand =
      if b.commands.size < Limited.limit then .ok (UInt16.ofNat b.commands.size)
      else .error (.encode (.tooMany .commands)) := by
  simp only [Writer.nextCommand, Builder.indexOf, h.size]
  split <;> rfl

theorem checkResults_eq (out : List String) :
    Writer.checkResults out =
      if out.length < Limited.limit then .ok () else .error (.encode (.tooMany .results)) := by
  simp only [Writer.checkResults, Builder.indexOf]
  split <;> rfl

theorem alike_issue (h : Alike b w) (names : NamePool) (line : Line)
    (hc : ShowsCommand b.inputs c call) :
    Alike (b.addCommand c) ({ w with names }.issue line call) where
  commands := by
    simpa [Builder.addCommand, Writer.issue] using List.rel_append h.commands (.cons hc .nil)
  inputs := h.inputs
  objects := h.objects
  known := h.known

theorem shows_result (inputs : Array TxInput) (index : UInt16) :
    Shows inputs (.result index) (.result index) :=
  ⟨nofun, rfl⟩

theorem shows_results (inputs : Array TxInput) (index : UInt16) (out : List String) :
    List.Forall₂ (fun a (handle : Handle) => Shows inputs a handle.arg)
      (results index out.length) (Writer.results index out) := by
  refine List.forall₂_iff_get.mpr ⟨by simp [results, Writer.results], ?_⟩
  intro i h₁ h₂
  simp only [results, Writer.results, List.get_eq_getElem, List.getElem_map,
    List.getElem_range, List.getElem_mapIdx]
  exact ⟨fun _ h => TxArg.noConfusion h, rfl⟩

theorem shows_args {inputs : Array TxInput} {as : List TxArg} {handles : List Handle}
    (h : List.Forall₂ (fun a (handle : Handle) => Shows inputs a handle.arg) as handles) :
    List.Forall₂ (Shows inputs) as (Writer.args handles) :=
  List.forall₂_map_right_iff.mpr h

theorem package_eq {text address : String} (h : Address.normalize text = .ok address) :
    Writer.package text = .ok address := by
  simp only [Writer.package, h]
  rfl

/-- A command is issued where it is appended, and its results are shown where they are given. -/
theorem appends_step {α β : Type} (h : Alike b w) (out : List String) {x : BuilderM α}
    {answer : UInt16 → α} (hx : Appends x c out.length answer) (names : NamePool) (line : Line)
    (hc : ShowsCommand b.inputs c call) {shown : UInt16 → β}
    {post : Builder → Writer → α → β → Prop}
    (hpost : ∀ s t index, post s t (answer index) (shown index)) :
    builderWriter.Step OutOfIndices b w post (asTarget x b)
      (do
        let index ← w.nextCommand
        Writer.checkResults out
        return (shown index, { w with names }.issue line call)) := by
  rw [hx.asTarget, nextCommand_eq h, checkResults_eq]
  split
  · split
    · exact .ok ⟨alike_issue h names line hc, keeps_addCommand _ _ _ _, hpost _ _ _⟩
    · exact .exempt ⟨.commands, rfl⟩ _
  · exact .exempt ⟨.results, rfl⟩ _

theorem single_step (h : Alike b w) (names : NamePool) (line : Line) (name : String)
    (hc : ShowsCommand b.inputs c call) :
    builderWriter.Step OutOfIndices b w builderWriter.pass
      (asTarget (pushWithResult c) b)
      (do
        let index ← w.nextCommand
        return (Writer.single index name, { w with names }.issue line call)) :=
  appends_step h [name] (appends_pushWithResult c) names line hc
    fun s _ index => shows_result s.inputs index

/-! ## Whole programs -/

def senderKnown (sender : Option String) (value : Literal) : Prop :=
  sender = none → value ≠ .sender

theorem given_ne_sender {sender : Option String} {value : Literal}
    (h : value.Leaves (senderKnown sender)) : value.given sender ≠ .sender := by
  cases sender with
  | none =>
    cases value with
    | list items => exact nofun
    | _ => exact h rfl
  | some s => cases value <;> exact nofun

/-- The literals are ones that do not ask for a sender who is not known, and the packages can be
normalized. Splits are balanced. -/
def agreement (sender : Option String) : Promise where
  leaf := senderKnown sender
  balanced := True
  package text := ∃ address, Address.normalize text = .ok address

theorem builder_simulates_writer (sender : Option String) :
    Simulates Builder.target Writer.target builderWriter sender (agreement sender)
      OutOfIndices where
  object o symbol h := by
    rw [name_builderWriter, Option.map_id_apply]
    exact object_step h o symbol
  pure kind value symbol h hvalue := by
    rw [name_builderWriter, Option.map_id_apply]
    exact literal_step h kind (given_ne_sender hvalue) symbol
  splitCoins {s t coin coin' amounts amounts' count} out h hcoin hcount hamounts := by
    have hargs := hamounts.forall₂ id
    have hlen : amounts.length = out.length := by
      simpa [hcount trivial] using hamounts.length_eq
    have hc : ShowsCommand s.inputs (.splitCoins coin amounts)
        ⟨.splitCoins, none, [], coin'.arg :: Writer.args amounts'⟩ :=
      ⟨rfl, rfl, rfl, .cons hcoin (shows_args hargs)⟩
    have hx : Appends (Builder.splitCoins coin amounts) (.splitCoins coin amounts) out.length
        fun index => results index out.length := hlen ▸ appends_pushWithResults _ _
    rw [name_builderWriter, List.map_id]
    exact appends_step h out hx t.names _ hc fun _ _ index => shows_results _ index out
  mergeCoins h hdest hsources := by
    refine appends_step h [] (appends_pushOnly _) _ _ ?_ fun _ _ _ => trivial
    exact ⟨rfl, rfl, rfl, .cons hdest (shows_args hsources)⟩
  transferObjects h hobjects hrec := by
    refine appends_step h [] (appends_pushOnly _) _ _ ?_ fun _ _ _ => trivial
    exact ⟨rfl, rfl, rfl, List.rel_append (shows_args hobjects) (.cons hrec .nil)⟩
  makeMoveVec {s t elems elems'} kind elem out h helems _ := by
    have hc : ShowsCommand s.inputs (.makeMoveVec elem elems)
        ⟨.makeMoveVec, elem, [], Writer.args elems'⟩ := ⟨rfl, rfl, rfl, shows_args helems⟩
    cases out with
    | some name => exact single_step h t.names _ name hc
    | none => exact single_step h (t.names.alloc "items").2 _ (t.names.alloc "items").1 hc
  moveCall {s t args args'} callee kinds out h hpkg hargs := by
    obtain ⟨address, haddress⟩ := hpkg
    have hc : ShowsCommand s.inputs
        (.moveCall callee.package callee.module callee.function callee.typeArgs args)
        ⟨.moveCall, some (address ++ "::" ++ callee.module ++ "::" ++ callee.function),
          callee.typeArgs, Writer.args args'⟩ :=
      ⟨rfl, by rw [TxCommand.target, haddress]; rfl, rfl, shows_args (hargs.forall₂ id)⟩
    rw [name_builderWriter, List.map_id]
    simp only [Writer.target, package_eq haddress]
    exact appends_step h out (appends_pushWithResults _ _) t.names _ hc
      fun _ _ index => shows_results _ index out
  publish modules dependencies out h := by
    rw [name_builderWriter, id_eq]
    exact single_step h _ _ out ⟨rfl, rfl, rfl, .nil⟩
  upgrade {s t ticket ticket'} modules dependencies package out h hpkg hticket := by
    obtain ⟨address, haddress⟩ := hpkg
    have hc : ShowsCommand s.inputs (.upgrade modules dependencies package ticket)
        ⟨.upgrade, some address, [], [ticket'.arg]⟩ :=
      ⟨rfl, by rw [TxCommand.target, haddress]; rfl, rfl, .cons hticket .nil⟩
    rw [name_builderWriter, id_eq]
    simp only [Writer.target, package_eq haddress]
    exact single_step h t.names _ out hc

/-- An operand asks for the sender only where `usesSender` says so. -/
theorem leaves_senderKnown {sender : Option String} : (v : Operand) →
    (sender.isSome ∨ v.usesSender = false) → v.Leaves (senderKnown sender)
  | .absent, _ => trivial
  | .ref _, _ => trivial
  | .object _, _ => trivial
  | .integer _ _, _ => fun _ => nofun
  | .constant k, h => by
    rintro rfl hk
    cases k <;> simp_all [constantLiteral, Operand.usesSender]
  | .vector items, h => all items h
where
  all : (items : List Operand) →
      (sender.isSome ∨ Operand.usesSender.anyUsesSender items = false) →
      Operand.Leaves.all (senderKnown sender) items
    | [], _ => trivial
    | item :: rest, h => by
      simp only [Operand.usesSender.anyUsesSender, Bool.or_eq_false_iff] at h
      exact ⟨leaves_senderKnown item (h.imp_right And.left), all rest (h.imp_right And.right)⟩

theorem alike_start (p : Program) : Alike Builder.empty (Writer.start p) :=
  ⟨.nil, by decide, nofun, nofun⟩

theorem Alike.callTrace {b : Builder} {w : Writer} (h : Alike b w) :
    b.build.callTrace = .ok w.trace.toList := by
  have hcalls : b.build.commands.mapM (traceCommand b.build.inputs.toArray) =
      .ok (w.trace.toList.map some) := by
    refine mapM_of_forall₂ (List.forall₂_map_right_iff.mpr ?_)
    simpa [Builder.build] using h.commands.imp fun _ _ hs => hs.traceCommand
  simp only [Transaction.callTrace, hcalls]
  simp [bind, Except.bind, pure, Except.pure, List.filterMap_map]

/-- The options set a builder as they set a script; the calls stay. -/
theorem configure_follows {b : Builder} {w : Writer} (h : Alike b w) (o : ExecOptions) :
    Follows (reports OutOfIndices)
      (fun b' _ => b'.build.callTrace = .ok w.trace.toList) (b.configure o) (senderOf o) := by
  rw [configure_eq]
  cases senderOf o with
  | error e => exact .error e
  | ok sender => exact .ok h.callTrace

theorem ofProgram_follows (p : Program) (o : ExecOptions) (hsplit : ∀ op ∈ p.ops, op.Balanced)
    (hpackages : ∀ op ∈ p.ops, ∀ text ∈ op.packages, ∃ address,
      Address.normalize text = .ok address)
    (hsender : o.sender.isSome ∨ p.usesSender = false) :
    Follows (reports OutOfIndices) (fun tx result => tx.callTrace = .ok result.2)
      (Transaction.ofProgram p o) (Script.ofProgram p o) := by
  have hvars : ∀ v ∈ p.vars, v.init.Leaves (senderKnown o.sender) := by
    intro v hv
    refine leaves_senderKnown v.init (hsender.imp_right fun h => ?_)
    simp only [Program.usesSender, Bool.or_eq_false_iff, List.any_eq_false] at h
    simpa using h.1 v hv
  have hops : ∀ op ∈ p.ops, (agreement o.sender).Holds op := by
    intro op hop
    refine ⟨fun v hv => leaves_senderKnown v (hsender.imp_right fun h => ?_), fun _ => hsplit op hop,
      hpackages op hop⟩
    simp only [Program.usesSender, Bool.or_eq_false_iff, List.any_eq_false] at h
    simpa using h.2 v (List.mem_flatMap.mpr ⟨op, hop, hv⟩)
  have hgiven : (o.sender.isNone && p.usesSender) = false := by
    rcases hsender with h | h <;> simp [h]
    cases ho : o.sender <;> simp_all
  unfold Transaction.ofProgram Script.ofProgram
  simp only [hgiven]
  have hrun := run_follows (builder_simulates_writer o.sender) p (alike_start p) hvars hops
  rw [name_builderWriter, Program.rename_id, LowerError.mapError_rename_id] at hrun
  refine Follows.bind hrun ?_
  intro b w hbw
  exact Follows.bind (configure_follows hbw o) fun _ _ h => .ok h

theorem reports_outOfIndices {e : LowerError} (h : reports OutOfIndices e) :
    ∃ site what, e = .encode site (.tooMany what) := by
  cases e with
  | encode site cause =>
    obtain ⟨what, hwhat⟩ := h
    cases hwhat
    exact ⟨site, what, rfl⟩
  | uncut cause =>
    obtain ⟨what, hwhat⟩ := h
    cases hwhat
  | _ => cases h

end Lowering

/-- **The two targets agree.** Where the transaction of a program can be built, its script can be
written and has the same trace; where it cannot, the script fails for the same cause, unless the
transaction ran out of indices. -/
theorem ofProgram_agree (p : Program) (o : ExecOptions) (hsplit : ∀ op ∈ p.ops, op.Balanced)
    (hpackages : ∀ op ∈ p.ops, ∀ text ∈ op.packages, ∃ address,
      Address.normalize text = .ok address)
    (hsender : o.sender.isSome ∨ p.usesSender = false) :
    (∀ tx, Transaction.ofProgram p o = .ok tx → ∃ script trace,
      Script.ofProgram p o = .ok (script, trace) ∧ tx.callTrace = .ok trace) ∧
    ∀ e, Transaction.ofProgram p o = .error e → (∀ site what, e ≠ .encode site (.tooMany what)) →
      Script.ofProgram p o = .error e := by
  have h := Lowering.ofProgram_follows p o hsplit hpackages hsender
  generalize Script.ofProgram p o = written at h ⊢
  constructor
  · intro tx htx
    rw [htx] at h
    cases h with
    | ok htrace => exact ⟨_, _, rfl, htrace⟩
  · intro e he hlimit
    rw [he] at h
    cases h with
    | error => rfl
    | exempt hexempt =>
      obtain ⟨site, what, rfl⟩ := Lowering.reports_outOfIndices hexempt
      exact absurd rfl (hlimit site what)

/-- Two coins split off the gas coin, one packed with an object that is used twice and one sent to
the sender. -/
def splitAndSend : Program where
  vars := [⟨"amount", .constant (.number "500")⟩, ⟨"kiosk", .object (.byId "0xAB")⟩]
  ops := [.splitCoins (.object .gas) [.ref "amount", .ref "amount"] ["coin", "coin_2"],
    .moveCall "0x2" "m" "f" []
      [⟨.ref "kiosk", .handle⟩, ⟨.vector [.ref "coin", .ref "kiosk"], .handle⟩] [],
    .transferObjects (.each [.ref "coin_2"]) (.constant .sender)]

def splitAndSendTransaction : Transaction where
  sender := some "0x0000000000000000000000000000000000000000000000000000000000000042"
  gasBudget := some 7
  inputs := [.pure (some "u64") [244, 1, 0, 0, 0, 0, 0, 0],
    .object "0x00000000000000000000000000000000000000000000000000000000000000ab",
    .pure (some "address") (List.replicate 31 0 ++ [66])]
  commands := [.splitCoins .gasCoin [.input 0, .input 0], .makeMoveVec none [.nested 0 0, .input 1],
    .moveCall "0x2" "m" "f" [] [.input 1, .result 1], .transferObjects [.nested 0 1] (.input 2)]

def splitAndSendTrace : CallTrace :=
  [⟨.splitCoins, none, [], [.gas, .pure (some "u64") (.str "500"), .pure (some "u64") (.str "500")]⟩,
    ⟨.makeMoveVec, none, [], [.nested 0 0,
      .object "0x00000000000000000000000000000000000000000000000000000000000000ab"]⟩,
    ⟨.moveCall, some "0x0000000000000000000000000000000000000000000000000000000000000002::m::f", [],
      [.object "0x00000000000000000000000000000000000000000000000000000000000000ab", .result 1]⟩,
    ⟨.transferObjects, none, [], [.nested 0 1, .pure (some "address")
      (.str "0x0000000000000000000000000000000000000000000000000000000000000042")]⟩]

/-- The vector is a command of its own, in the transaction as in the script. -/
theorem ofProgram_agree_splitAndSend : ∃ script,
    Transaction.ofProgram splitAndSend ⟨some "0x42", some 7⟩ = .ok splitAndSendTransaction ∧
    Script.ofProgram splitAndSend ⟨some "0x42", some 7⟩ = .ok (script, splitAndSendTrace) ∧
    splitAndSendTransaction.callTrace = .ok splitAndSendTrace := by
  have hsplit : ∀ op ∈ splitAndSend.ops, op.Balanced := by
    simp [splitAndSend, Operation.Balanced]
  have hpackages : ∀ op ∈ splitAndSend.ops, ∀ text ∈ op.packages, ∃ address,
      Address.normalize text = .ok address := by
    have hparse : Address.parse? "0x2" = some (List.replicate 31 0 ++ [2]) := by decide +kernel
    simpa [splitAndSend, Operation.packages] using ⟨_, Address.normalize_of_parse? hparse⟩
  have htx : Transaction.ofProgram splitAndSend ⟨some "0x42", some 7⟩ =
      .ok splitAndSendTransaction := by decide +kernel
  have hcalls : splitAndSendTransaction.callTrace = .ok splitAndSendTrace := by decide +kernel
  obtain ⟨script, trace, hscript, htrace⟩ :=
    (ofProgram_agree splitAndSend ⟨some "0x42", some 7⟩ hsplit hpackages (.inl rfl)).1 _ htx
  cases hcalls.symm.trans htrace
  exact ⟨script, htx, hscript, hcalls⟩

end TxGraph
