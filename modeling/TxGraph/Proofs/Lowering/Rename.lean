import Mathlib.Logic.Equiv.Fintype
import TxGraph.Proofs.Lowering.Scope

/-!
# Names carry no meaning

Compiling a graph with other reserved names gives the same program under other names: both runs of
the compiler read the same ports and hand out as many names at the same places, and as the names of
each program are distinct, some permutation takes the ones to the others. A walk of the renamed
program then does what a walk of the program does. The transaction has no names in it, and of the
script only the trace is compared.
-/

namespace TxGraph

/-- Distinct names can be replaced by as many others, each by its own. -/
theorem exists_perm_map_eq {names names' : List String} (hn : names.Nodup) (hn' : names'.Nodup)
    (hlength : names'.length = names.length) :
    ∃ σ : Equiv.Perm String, names' = names.map σ := by
  obtain ⟨σ, hσ⟩ := Equiv.Perm.exists_extending_pair names.get
    (fun i => names'.get (i.cast hlength.symm)) (List.nodup_iff_injective_get.mp hn)
    ((List.nodup_iff_injective_get.mp hn').comp (Fin.cast_injective _))
  refine ⟨σ, List.ext_getElem (by simpa using hlength) fun i h h' => ?_⟩
  rw [List.getElem_map]
  exact (hσ ⟨i, hlength ▸ h⟩).symm

/-! ## Compiling with other reserved names -/

namespace Compile

variable {f : String → String}
variable {g : Graph} {s t s' t' : Scope}
variable {cs : List (String × Command)} {ops : List Operation} {vs : List Variable}
  {bs bs' : List Binding} {ps ps' : List ((String × String) × Operand)}

def renameAll (f : String → String) (ps : List ((String × String) × Operand)) :
    List ((String × String) × Operand) :=
  ps.map fun x => (x.1, x.2.rename f)

theorem lookup_renameAll (ps : List ((String × String) × Operand)) (key : String × String) :
    (renameAll f ps).lookup key = (ps.lookup key).map (Operand.rename f) := by
  induction ps with
  | nil => rfl
  | cons x ps ih =>
    obtain ⟨port, value⟩ := x
    simp only [renameAll, List.map_cons, List.lookup_cons] at ih ⊢
    cases key == port with
    | true => rfl
    | false => exact ih

theorem offers_map (node : String) (ports names : List String) :
    offers node ports (names.map f) = renameAll f (offers node ports names) := by
  simp [offers, renameAll, List.zip_map_right, Operand.rename, Function.comp_def]

namespace Scope

variable {s s' : Scope}

theorem input_rename (h : s'.produced = renameAll f s.produced) (g : Graph) (node port : String) :
    s'.input g node port = (s.input g node port).rename f := by
  unfold Scope.input
  cases g.incoming? node port with
  | none => rfl
  | some e =>
    simp only [h, lookup_renameAll]
    cases s.produced.lookup (e.source, e.sourceHandle) <;> rfl

theorem inputs_rename (h : s'.produced = renameAll f s.produced) (g : Graph) (node group : String)
    (count : Nat) :
    s'.inputs g node group count = (s.inputs g node group count).map (Operand.rename f) := by
  simp [Scope.inputs, input_rename h, Function.comp_def]

theorem group_rename (h : s'.produced = renameAll f s.produced) (g : Graph) (node : String)
    (expanded : Bool) (group vector : String) (count : Nat) :
    s'.group g node expanded group vector count =
      (s.group g node expanded group vector count).rename f := by
  cases expanded <;> simp [Scope.group, Group.rename, inputs_rename h, input_rename h]

end Scope

/-- A command reads its ports and names its outputs; nothing else of the scope is in its
operation. -/
theorem operation_rename {id : String} {c : Command} {op op' : Operation}
    (hs : s'.produced = renameAll f s.produced) (h : operation g id c s = (op, t))
    (h' : operation g id c s' = (op', t')) (hout : op'.outputs = op.outputs.map f) :
    op' = op.rename f ∧ t'.produced = renameAll f t.produced := by
  refine ⟨?_, ?_⟩
  · cases c <;> cases h <;> cases h' <;>
      simp_all [Operation.rename, Operation.outputs, Scope.input_rename hs, Scope.inputs_rename hs,
        Scope.group_rename hs, arguments, Argument.rename, Function.comp_def]
  · rw [(Emits.of_eq h').produced, (Emits.of_eq h).produced, hs, hout, offers_map]
    simp [renameAll]

theorem Runs.length_outputs (h : Runs g s cs ops t) :
    ops.map (fun op => op.outputs.length) = cs.map fun c => c.2.outputPorts.length := by
  induction h with
  | nil s => rfl
  | cons h rest ih => simp [ih, (Emits.of_eq h).outputs]

theorem Runs.rename (h : Runs g s cs ops t) {ops' : List Operation} (h' : Runs g s' cs ops' t')
    (hs : s'.produced = renameAll f s.produced)
    (hout : ops'.flatMap Operation.outputs = (ops.flatMap Operation.outputs).map f) :
    ops' = ops.map (Operation.rename f) := by
  induction h generalizing s' ops' with
  | nil s =>
    cases h'
    rfl
  | cons h rest ih =>
    cases h' with
    | cons h' rest' =>
      simp only [List.flatMap_cons, List.map_append] at hout
      have hlength := (Emits.of_eq h').outputs.trans (Emits.of_eq h).outputs.symm
      obtain ⟨hop, hrest⟩ := List.append_inj hout (by simpa using hlength)
      obtain ⟨rfl, hproduced⟩ := operation_rename hs h h' hop
      rw [ih rest' hproduced hrest, List.map_cons]

theorem Binds.length_eq (h : Binds vs bs ps) (h' : Binds vs bs' ps') : bs'.length = bs.length := by
  induction h generalizing bs' ps' with
  | nil =>
    cases h'
    rfl
  | inlined hv _ ih =>
    cases h' with
    | inlined _ rest' => exact ih rest'
    | named hv' _ => cases hv.symm.trans hv'
  | named hv _ ih =>
    cases h' with
    | inlined hv' _ => cases hv.symm.trans hv'
    | named _ rest' => exact congrArg (· + 1) (ih rest')

/-- The variables of one order under other names. Their values refer to nothing. -/
theorem Binds.rename (h : Binds vs bs ps) (h' : Binds vs bs' ps')
    (hnames : bs'.map Binding.name = (bs.map Binding.name).map f) :
    bs' = bs.map (Binding.rename f) ∧ ps' = renameAll f ps := by
  induction h generalizing bs' ps' with
  | nil =>
    cases h'
    exact ⟨rfl, rfl⟩
  | inlined hv _ ih =>
    cases h' with
    | inlined hv' rest' =>
      cases hv.symm.trans hv'
      obtain ⟨hbs, hps⟩ := ih rest' hnames
      have hclosed := Operand.rename_of_refs (f := f) _ (Variable.refs_inlined hv)
      exact ⟨hbs, by simp [renameAll, hps, hclosed]⟩
    | named hv' _ => cases hv.symm.trans hv'
  | @named v _ _ _ _ hv _ ih =>
    cases h' with
    | inlined hv' _ => cases hv.symm.trans hv'
    | named _ rest' =>
      obtain ⟨hname, hrest⟩ := List.cons.inj hnames
      obtain ⟨hbs, hps⟩ := ih rest' hrest
      have hclosed := Operand.rename_of_refs (f := f) _ v.refs_initial
      dsimp only at hname
      exact ⟨by simp [hbs, hname, hclosed, Binding.rename],
        by simp [renameAll, hps, hname, Operand.rename]⟩

end Compile

theorem Graph.exists_rename {g : Graph} {reserved reserved' : List String} {p p' : Program}
    (h : g.compile reserved = .ok p) (h' : g.compile reserved' = .ok p') :
    ∃ σ : Equiv.Perm String, p' = p.rename σ := by
  obtain ⟨ps, s, t, hbinds, hproduced, -, hruns⟩ := Graph.compile_runs h
  obtain ⟨ps', s', t', hbinds', hproduced', -, hruns'⟩ := Graph.compile_runs h'
  have hvars := hbinds.length_eq hbinds'
  have hlength : p'.symbols.length = p.symbols.length := by
    simp only [Program.symbols, List.length_append, List.length_map, List.length_flatMap, hvars,
      hruns.length_outputs, hruns'.length_outputs]
  obtain ⟨σ, hσ⟩ := exists_perm_map_eq (Program.wellScoped_of_compile h).distinct
    (Program.wellScoped_of_compile h').distinct hlength
  simp only [Program.symbols, List.map_append] at hσ
  obtain ⟨hnames, houts⟩ := List.append_inj hσ (by simpa using hvars)
  obtain ⟨hbs, hps⟩ := hbinds.rename hbinds' hnames
  have hscope : s'.produced = Compile.renameAll σ s.produced := by
    rw [hproduced, hproduced', hps]
    simp [Compile.renameAll]
  have hops := hruns.rename hruns' hscope houts
  refine ⟨σ, ?_⟩
  obtain ⟨vars', ops'⟩ := p'
  cases hbs
  cases hops
  rfl

/-! ## Walking under other names -/

namespace Lowering

open Transaction Script

variable {f : String → String}

theorem builder_ignores (f : String → String) : Ignores Builder.target f := by
  constructor <;> intros <;> simp [Builder.target]

structure SameCalls (w w' : Writer) : Prop where
  trace : w'.trace = w.trace
  objects (id : String) :
    (Directory.get? w'.objects id).map Handle.arg = (Directory.get? w.objects id).map Handle.arg

/-- Handles that stand for the same, whatever they are called. -/
def sameCalls (hf : Function.Injective f) : Correspondence Writer Writer Handle Handle where
  name := f
  name_injective := hf
  state := SameCalls
  pass _ _ a b := b.arg = a.arg
  arg _ _ _ a b := b.arg = a.arg
  arg_of_pass h := h

theorem args_of_forall₂ {as bs : List Handle}
    (h : List.Forall₂ (fun a b : Handle => b.arg = a.arg) as bs) :
    Writer.args bs = Writer.args as := by
  induction h with
  | nil => rfl
  | cons h _ ih => exact congrArg₂ List.cons h ih

theorem args_of_sameCalls {hf : Function.Injective f} {w w' : Writer} :
    {kinds : List ParamKind} → {as bs : List Handle} → (sameCalls hf).args w w' kinds as bs →
    Writer.args bs = Writer.args as
  | [], [], [], _ => rfl
  | _ :: _, _ :: _, _ :: _, ⟨h, hrest⟩ => congrArg₂ List.cons h (args_of_sameCalls hrest)

section

variable {hf : Function.Injective f} {w w' : Writer}
variable {α : Type}

theorem SameCalls.nextCommand (h : SameCalls w w') : w'.nextCommand = w.nextCommand := by
  rw [Writer.nextCommand, h.trace, Writer.nextCommand]

theorem checkResults_map (f : String → String) (out : List String) :
    Writer.checkResults (out.map f) = Writer.checkResults out := by
  simp [Writer.checkResults]

theorem forall₂_results (index : UInt16) (f : String → String) (out : List String) :
    List.Forall₂ (fun a b : Handle => b.arg = a.arg) (Writer.results index out)
      (Writer.results index (out.map f)) := by
  refine List.forall₂_iff_get.mpr ⟨by simp [Writer.results], fun i _ _ => ?_⟩
  simp [Writer.results]

theorem SameCalls.issue (h : SameCalls w w') (names names' : NamePool) (line line' : Line)
    {call call' : TracedCall} (hcall : call' = call) :
    SameCalls ({ w with names }.issue line call) ({ w' with names := names' }.issue line' call') :=
  ⟨by simp [Writer.issue, h.trace, hcall], h.objects⟩

theorem SameCalls.hoist (h : SameCalls w w') (symbol symbol' : Option String) (value value' : Expr) :
    SameCalls (w.hoist symbol value).2 (w'.hoist symbol' value').2 := by
  cases symbol <;> cases symbol' <;> exact ⟨h.trace, h.objects⟩

theorem SameCalls.known (h : SameCalls w w') (id : String) (value : Expr)
    (symbol symbol' : Option String) :
    SameCalls (w.known id value symbol).2 (w'.known id value symbol').2 ∧
      (w'.known id value symbol').1.arg = (w.known id value symbol).1.arg := by
  have hid := h.objects id
  unfold Writer.known
  cases hw : Directory.get? w.objects id with
  | some a =>
    cases hw' : Directory.get? w'.objects id with
    | some b => exact ⟨h, by simpa [hw, hw'] using hid⟩
    | none => simp [hw, hw'] at hid
  | none =>
    cases hw' : Directory.get? w'.objects id with
    | some b => simp [hw, hw'] at hid
    | none =>
      have hoisted := h.hoist symbol symbol' value value
      refine ⟨⟨hoisted.trace, fun other => ?_⟩, rfl⟩
      simp only [Directory.get?_insert]
      split
      · rfl
      · exact hoisted.objects other

theorem known_step (h : SameCalls w w') (address : Except Refusal String) (value : Expr)
    (symbol symbol' : Option String) :
    (sameCalls hf).Step (fun _ => False) w w' (sameCalls hf).pass
      (do return w.known (← address) value symbol)
      (do return w'.known (← address) value symbol') := by
  cases address with
  | error e => exact .error e
  | ok full =>
    obtain ⟨hstate, harg⟩ := h.known full value symbol symbol'
    exact .ok ⟨hstate, ⟨id, id⟩, harg⟩

theorem literal_step_renamed (h : SameCalls w w') (kind : ParamKind) (value : Literal)
    (symbol symbol' : Option String) :
    (sameCalls hf).Step (fun _ => False) w w' ((sameCalls hf).arg kind)
      (Writer.literal kind value symbol w) (Writer.literal kind value symbol' w') := by
  unfold Writer.literal
  split
  · exact .ok ⟨h.hoist .., ⟨id, id⟩, rfl⟩
  · cases PureValue.encode kind value with
    | error e => exact .error _
    | ok encoded => exact .ok ⟨h.hoist .., ⟨id, id⟩, rfl⟩

/-- A check that does not look at the writer is passed by both or by none. -/
theorem check_step {β : Type} (x : Except Refusal β) {post : Writer → Writer → α → α → Prop}
    {next next' : β → Except Refusal (α × Writer)}
    (hnext : ∀ b, (sameCalls hf).Step (fun _ => False) w w' post (next b) (next' b)) :
    (sameCalls hf).Step (fun _ => False) w w' post (do next (← x)) (do next' (← x)) := by
  cases x with
  | error e => exact .error e
  | ok b => exact hnext b

theorem nextCommand_step (h : SameCalls w w') {post : Writer → Writer → α → α → Prop}
    {next next' : UInt16 → Except Refusal (α × Writer)}
    (hnext : ∀ index, (sameCalls hf).Step (fun _ => False) w w' post (next index) (next' index)) :
    (sameCalls hf).Step (fun _ => False) w w' post (do next (← w.nextCommand))
      (do next' (← w'.nextCommand)) := by
  rw [h.nextCommand]
  exact check_step _ hnext

end

/-- The writer hands the names on, and calls the same. -/
theorem writer_simulates_renamed (hf : Function.Injective f) (sender : Option String) :
    Simulates Writer.target Writer.target (sameCalls hf) sender anyProgram fun _ => False where
  object o symbol h := by
    cases o with
    | gas => exact .ok ⟨h, ⟨id, id⟩, rfl⟩
    | _ => exact known_step h _ _ _ _
  pure kind value symbol h _ := literal_step_renamed h kind _ _ _
  splitCoins {s t coin coin' amounts amounts' count} out h hcoin _ hamounts := by
    refine nextCommand_step h fun index => ?_
    rw [show (sameCalls hf).name = f from rfl, checkResults_map]
    refine check_step _ fun _ => .ok ⟨h.issue s.names t.names _ _ ?_, ⟨id, id⟩, forall₂_results _ _ _⟩
    rw [args_of_sameCalls hamounts, show coin'.arg = coin.arg from hcoin]
  mergeCoins {s t destination destination' sources sources'} h hdest hsources := by
    refine nextCommand_step h fun index => .ok ⟨h.issue s.names t.names _ _ ?_, ⟨id, id⟩, trivial⟩
    rw [args_of_forall₂ hsources, show destination'.arg = destination.arg from hdest]
  transferObjects {s t objects objects' recipient recipient'} h hobjects hrecipient := by
    refine nextCommand_step h fun index => .ok ⟨h.issue s.names t.names _ _ ?_, ⟨id, id⟩, trivial⟩
    rw [args_of_forall₂ hobjects, show recipient'.arg = recipient.arg from hrecipient]
  makeMoveVec {s t elems elems'} kind elem out h helems _ := by
    have hcall : (⟨.makeMoveVec, elem, [], Writer.args elems'⟩ : TracedCall) =
        ⟨.makeMoveVec, elem, [], Writer.args elems⟩ := by
      rw [args_of_forall₂ helems]
    refine nextCommand_step h fun index => ?_
    cases out <;> exact .ok ⟨h.issue _ _ _ _ hcall, ⟨id, id⟩, rfl⟩
  moveCall {s t args args'} callee kinds out h _ hargs := by
    refine nextCommand_step h fun index => check_step _ fun address => ?_
    rw [show (sameCalls hf).name = f from rfl, checkResults_map]
    refine check_step _ fun _ => .ok ⟨h.issue s.names t.names _ _ ?_, ⟨id, id⟩, forall₂_results _ _ _⟩
    rw [args_of_sameCalls hargs]
  publish {s t} modules dependencies out h :=
    nextCommand_step h fun index => .ok ⟨h.issue s.names t.names _ _ rfl, ⟨id, id⟩, rfl⟩
  upgrade {s t ticket ticket'} modules dependencies package out h _ hticket := by
    refine nextCommand_step h fun index => check_step _ fun address =>
      .ok ⟨h.issue s.names t.names _ _ ?_, ⟨id, id⟩, rfl⟩
    rw [show ticket'.arg = ticket.arg from hticket]

theorem IsResolved.rename_eq {e : LowerError} (h : IsResolved e) : e.rename f = e := by
  cases e with
  | unresolvedSymbol _ _ => exact h.elim
  | circular _ _ => exact h.elim
  | _ => rfl

end Lowering

/-! ## Whole programs -/

section

variable {f : String → String} (hf : Function.Injective f) (p : Program) (o : ExecOptions)

include hf

/-- Under other names a program has the same transaction. -/
theorem Transaction.ofProgram_rename : Transaction.ofProgram (p.rename f) o =
    (Transaction.ofProgram p o).mapError (LowerError.rename f) := by
  unfold Transaction.ofProgram
  rw [Program.usesSender_rename]
  split
  case isTrue => rfl
  case isFalse =>
    have hrun := (Lowering.run_alike (Lowering.simulates_same (Lowering.builder_ignores f) hf
      o.sender (.inl rfl)) p (Eq.refl Builder.empty)).eq
    dsimp only
    rw [mapError_bind]
    refine congrArg₂ bind hrun.symm (funext fun b => ?_)
    have hconfigured : Ends (fun e => LowerError.rename f e = e) (fun _ => True) (b.configure o) :=
      Lowering.configure_ends (fun _ => rfl) b o
    rw [mapError_bind, hconfigured.mapError_eq]
    rfl

/-- Under other names a program has a script that makes the same calls. -/
theorem Script.trace_rename : (Script.ofProgram (p.rename f) o).map Prod.snd =
    ((Script.ofProgram p o).map Prod.snd).mapError (LowerError.rename f) := by
  have hrun : Follows (fun _ => False) Lowering.SameCalls
      ((Lowering.run Writer.target o.sender p (Writer.start p)).mapError (LowerError.rename f))
      (Lowering.run Writer.target o.sender (p.rename f) (Writer.start (p.rename f))) :=
    Lowering.run_alike (Lowering.writer_simulates_renamed hf o.sender) p ⟨rfl, fun _ => rfl⟩
  unfold Script.ofProgram
  generalize Lowering.run Writer.target o.sender (p.rename f) _ = y at hrun ⊢
  generalize Lowering.run Writer.target o.sender p _ = x at hrun ⊢
  cases x with
  | error e =>
    cases hrun with
    | error => rfl
    | exempt h => exact h.elim
  | ok w =>
    cases hrun with
    | ok h =>
      have hsender := Lowering.senderOf_resolved o
      cases hs : Script.senderOf o with
      | error e =>
        rw [hs] at hsender
        exact congrArg Except.error hsender.of_error.rename_eq.symm
      | ok sender => exact congrArg Except.ok (congrArg Array.toList h.trace)

end

/-- **Names carry no meaning.** With other reserved names a graph compiles to the same program up to
a permutation of names, the transaction of which is the same, or fails for the same cause; so does
its script, and where it is written it makes the same calls. -/
theorem compile_rename {g : Graph} {reserved : List String} {p : Program}
    (h : g.compile reserved = .ok p) (reserved' : List String) :
    ∃ p', g.compile reserved' = .ok p' ∧ (∃ σ : Equiv.Perm String, p' = p.rename σ) ∧
      ∀ o, Transaction.ofProgram p' o = Transaction.ofProgram p o ∧
        (Script.ofProgram p' o).map Prod.snd = (Script.ofProgram p o).map Prod.snd := by
  obtain ⟨p', h'⟩ := Graph.exists_compile_iff.mpr (Graph.exists_compile_iff.mp ⟨p, h⟩)
  obtain ⟨σ, rfl⟩ := Graph.exists_rename h h'
  refine ⟨_, h', ⟨σ, rfl⟩, fun o => ?_⟩
  obtain ⟨htransaction, hscript⟩ := Lowering.ofProgram_resolved h o
  have htrace : Ends Lowering.IsResolved (fun _ => True) ((Script.ofProgram p o).map Prod.snd) :=
    hscript.map fun _ _ => trivial
  have hrename (e : LowerError) (he : Lowering.IsResolved e) : e.rename σ = e := he.rename_eq
  rw [Transaction.ofProgram_rename σ.injective, Script.trace_rename σ.injective,
    (htransaction.mono_error hrename).mapError_eq, (htrace.mono_error hrename).mapError_eq]
  exact ⟨rfl, rfl⟩

/-- A coin is split off the gas coin and sent. The amount is called like the coin. -/
def coinByCoin : Graph where
  nodes := [.start "s", .finish "e", .var ⟨"n", "coin", .integer .u64, some (.str "5")⟩,
    .var ⟨"me", "sender", .address, none⟩, .var ⟨"g", "gas", .anyObject, none⟩,
    .command "c" (.splitCoins 1), .command "t" (.transferObjects 1 true)]
  edges := [.flow "s" "c", .flow "c" "t", .flow "t" "e", .io "g" "out" "c" "in_coin" none,
    .io "n" "out" "c" "in_amount_0" none, .io "c" "out_coin_0" "t" "in_object_0" none,
    .io "me" "out" "t" "in_recipient" none]

def coinByCoinProgram (amount coin : String) : Program where
  vars := [⟨amount, .integer .u64 "5"⟩]
  ops := [.splitCoins (.object .gas) [.ref amount] [coin],
    .transferObjects (.each [.ref coin]) (.constant .sender)]

/-- What is the coin in one program is the amount in the other. -/
theorem compile_rename_coinByCoin :
    coinByCoin.compile [] = .ok (coinByCoinProgram "coin" "coin_2") ∧
    coinByCoin.compile ["coin"] = .ok (coinByCoinProgram "coin_2" "coin_3") ∧
    ∀ o, Transaction.ofProgram (coinByCoinProgram "coin_2" "coin_3") o =
      Transaction.ofProgram (coinByCoinProgram "coin" "coin_2") o := by
  have h : coinByCoin.compile [] = .ok (coinByCoinProgram "coin" "coin_2") := by decide +kernel
  have h' : coinByCoin.compile ["coin"] = .ok (coinByCoinProgram "coin_2" "coin_3") := by
    decide +kernel
  obtain ⟨p', hp', -, hsame⟩ := compile_rename h ["coin"]
  cases h'.symm.trans hp'
  exact ⟨h, h', fun o => (hsame o).1⟩

end TxGraph
