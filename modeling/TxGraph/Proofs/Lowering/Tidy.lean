import TxGraph.Proofs.Lowering.Arguments
import TxGraph.Proofs.Lowering.Scope

/-!
# Lowering builds tidy transactions

An operation ends with one command, for which everything is ready by then. So every operation keeps
a draft sound, and the transaction of a program is tidy. If no operation adds a command of its own,
the inputs are in the order of their first use.
-/

namespace TxGraph

def Operation.Formed (rule : TxCommand.Rule) : Operation → Prop
  | .splitCoins _ amounts _ => amounts ≠ []
  | .makeMoveVec elem _ _ =>
    ∀ spelling, elem = some spelling → (DataType.ofMove spelling).moveSpelling? = some spelling
  | .moveCall package module function typeArgs args out => (Address.parse? package).isSome ∧
    (∀ a ∈ args, a.kind.Declared) ∧ (out.length < Limited.limit → ∀ names values,
      names.length = typeArgs.length → values.length = args.length →
      rule (.moveCall package module function names values) (args.map Argument.kind))
  | .upgrade _ _ package _ _ => (Address.parse? package).isSome
  | _ => True

/-- What lowering needs to know of an operation. -/
structure Operation.Regular (rule : TxCommand.Rule) (op : Operation) : Prop where
  operands : ∀ v ∈ op.operands, v.Even ∧ v.NoBytes
  formed : op.Formed rule

namespace Lowering

open Transaction (Builder)

/-! ## Operations -/

/-- The second draft has more commands. If it has one more, the arguments of that one meet the new
inputs in the order of their numbers. -/
def Adds (w w' : Draft) : Prop :=
  w.commands.length < w'.commands.length ∧
    (w'.commands.length = w.commands.length + 1 → ∃ c, w'.commands = w.commands ++ [c] ∧
      c.args.foldl TxArg.note (indices w.inputs.length) = indices w'.inputs.length)

section

variable {rule : TxCommand.Rule} {kinds kinds' : UInt16 → ParamKind}
  {w w' : Draft}

theorem adds_of_scans (hfront : w.commands <+: w'.commands) {c : TxCommand}
    (h : Scans w c.args w') : Adds w (w'.addCommand c) := by
  have hle := hfront.length_le
  refine ⟨?_, fun hone => ⟨c, ?_, ?_⟩⟩
  · rw [commands_addCommand, List.length_append, List.length_singleton]
    omega
  · rw [commands_addCommand, List.length_append, List.length_singleton] at hone
    rw [commands_addCommand, hfront.eq_of_length (by omega)]
  · rw [commands_addCommand, List.length_append, List.length_singleton] at hone
    exact h (by omega)

theorem Sound.named (hw : Sound rule kinds w) (names : List String) {args : List TxArg}
    (hargs : ∀ arg ∈ args, arg.Stands w.inputs w.commands) : Sound rule kinds (w.named names args) := by
  refine ⟨hw.tidy, fun name arg hname => ?_, fun name value hname => ?_, hw.unsigned⟩
  · rcases get?_bindEnv hname with hold | ⟨i, arg', -, harg, hentry⟩
    · exact hw.bound name arg hold
    · cases hentry
      exact hargs arg (List.mem_of_getElem? harg)
  · rcases get?_bindEnv hname with hold | ⟨i, arg', -, -, hentry⟩
    · exact hw.init name value hold
    · cases hentry

/-- A command for which everything is ready ends the operation. -/
structure Concludes (rule : TxCommand.Rule) (kinds : UInt16 → ParamKind)
    (w w' : Draft) (command : TxCommand) (params : List ParamKind) : Prop where
  sound : Sound rule kinds w'
  earlier : w.commands <+: w'.commands
  args : List.Forall₂ (fun arg kind => Ready kinds 0 w' kind arg) command.args params
  scans : Scans w command.args w'

theorem Concludes.addCommand {command : TxCommand} {params : List ParamKind}
    (h : Concludes rule kinds w w' command params) (htakes : command.Takes rule params)
    (hformed : command.Formed) (hroom : w'.commands.length < Limited.limit) :
    Sound rule kinds (w'.addCommand command) ∧ Adds w (w'.addCommand command) :=
  ⟨h.sound.addCommand (tidy_of_ready htakes h.args hformed) hroom, adds_of_scans h.earlier h.scans⟩

/-- Everything is ready for the command of a regular operation. -/
theorem Prepares.concludes {op : Operation} {d : TxCommand} (h : Prepares w op d w')
    (hop : op.Regular rule) (hw : Sound rule kinds w) (hmemo : MemoReady kinds w)
    (hfew : (resultsAt w'.commands.length op).length < Limited.limit) :
    ∃ kinds' params, Concludes rule kinds' w w' d params ∧ d.Takes rule params ∧ d.Formed := by
  have hoperand := hop.operands
  cases h with
  | @splitCoins coin amounts arg args w₁ _ out hcoin hamounts =>
    obtain ⟨⟨heven, hbytes⟩, hothers⟩ := List.forall_mem_cons.mp hoperand
    obtain ⟨kinds₁, hext₁, hw₁, hmemo₁, hstands, hscans₁⟩ :=
      hcoin.handle_reaches heven hbytes hw hmemo
    have hvalues : ∀ a ∈ amounts.map fun a => (⟨a, .integer .u64⟩ : Argument),
        a.kind.Declared ∧ a.value.Even ∧ a.value.NoBytes := by
      simpa using fun v hv => ⟨.inr (.inr trivial), hothers v hv⟩
    obtain ⟨kinds₂, hext₂, hw₂, -, hargs, hscans₂⟩ := hamounts.reaches hvalues hw₁ hmemo₁
    have hlength : args.length = amounts.length := hamounts.length_eq.trans (List.length_map _)
    -- the kinds of the amounts, as those that the command takes
    have hreplicate : (amounts.map fun a => (⟨a, .integer .u64⟩ : Argument)).map Argument.kind =
        List.replicate args.length (.integer .u64) := by
      rw [List.map_map, hlength, ← List.map_const']
      rfl
    refine ⟨kinds₂, _, ⟨hw₂, hext₁.commands.trans hext₂.commands,
      .cons (.inl (hext₂.stands hstands)) (hreplicate ▸ hargs),
      hscans₁.append hscans₂ hext₁.commands hext₂.commands⟩, rfl, ?_, ?_⟩
    · rw [← List.length_pos_iff, hlength, List.length_pos_iff]
      exact hop.formed
    · rw [hlength]
      simpa [resultsAt, Builder.results] using hfew
  | mergeCoins hdestination hsources =>
    obtain ⟨⟨heven, hbytes⟩, hothers⟩ := List.forall_mem_cons.mp hoperand
    obtain ⟨kinds₁, hext₁, hw₁, hmemo₁, hstands, hscans₁⟩ :=
      hdestination.handle_reaches heven hbytes hw hmemo
    obtain ⟨kinds₂, hext₂, hw₂, -, hargs, hscans₂⟩ :=
      hsources.reaches (.inl rfl) hothers hw₁ hmemo₁
    exact ⟨kinds₂, _, ⟨hw₂, hext₁.commands.trans hext₂.commands,
      .cons (.inl (hext₂.stands hstands)) (forall₂_replicate hargs),
      hscans₁.append hscans₂ hext₁.commands hext₂.commands⟩, rfl, trivial⟩
  | transferObjects hobjects hrecipient =>
    obtain ⟨hothers, hlast⟩ := List.forall_mem_append.mp hoperand
    obtain ⟨heven, hbytes⟩ := List.forall_mem_singleton.mp hlast
    obtain ⟨kinds₁, hext₁, hw₁, hmemo₁, hargs, hscans₁⟩ :=
      hobjects.reaches (.inl rfl) hothers hw hmemo
    obtain ⟨kinds₂, hext₂, hw₂, -, hready, hscans₂⟩ :=
      hrecipient.reaches (.inr (.inr trivial)) heven hbytes hw₁ hmemo₁
    refine ⟨kinds₂, _, ⟨hw₂, hext₁.commands.trans hext₂.commands,
      List.rel_append (forall₂_replicate fun arg harg => ?_) (.cons hready .nil),
      hscans₁.append hscans₂ hext₁.commands hext₂.commands⟩, rfl, trivial⟩
    exact hext₂.ready (hargs arg harg)
  | makeMoveVec _ helems =>
    obtain ⟨kinds₁, hext, hw₁, -, hargs, hscans⟩ :=
      helems.reaches (Context.declared_vectorElemKind _) hoperand hw hmemo
    exact ⟨kinds₁, _, ⟨hw₁, hext.commands, forall₂_replicate hargs, hscans⟩, rfl, hop.formed⟩
  | moveCall _ _ _ _ htypes hargs =>
    obtain ⟨htypeArgs, hvalues⟩ := List.forall_mem_append.mp hoperand
    obtain ⟨hpackage, hdeclared, hrule⟩ := hop.formed
    obtain ⟨hnames, hnamed⟩ := htypes.names
    obtain ⟨kinds₁, hext₁, hw₁, hmemo₁, hscans₁⟩ := htypes.reaches htypeArgs hw hmemo
    obtain ⟨kinds₂, hext₂, hw₂, -, hready, hscans₂⟩ := hargs.reaches
      (fun a ha => ⟨hdeclared a ha, hvalues a.value (List.mem_map_of_mem ha)⟩) hw₁ hmemo₁
    refine ⟨kinds₂, _, ⟨hw₂, hext₁.commands.trans hext₂.commands, hready,
      hscans₁.append hscans₂ hext₁.commands hext₂.commands⟩, hrule ?_ _ _ hnames hargs.length_eq,
      hpackage, hnamed⟩
    simpa [resultsAt, Builder.results] using hfew
  | publish => exact ⟨kinds, _, ⟨hw, List.prefix_refl _, .nil, .nil w⟩, rfl, trivial⟩
  | upgrade _ _ _ _ hticket =>
    obtain ⟨heven, hbytes⟩ := List.forall_mem_singleton.mp hoperand
    obtain ⟨kinds₁, hext, hw₁, -, hstands, hscans⟩ := hticket.handle_reaches heven hbytes hw hmemo
    exact ⟨kinds₁, _, ⟨hw₁, hext.commands, .cons (.inl hstands) .nil, hscans⟩, rfl, hop.formed⟩

/-- **One operation adds commands to a sound draft and leaves it sound.** -/
theorem operation_sound (c : Context Builder TxArg) (hc : c.target = Builder.target)
    (hw : Sound rule kinds w) (hmemo : w.memo = []) {op : Operation} (hop : op.Regular rule) :
    Ensures (fun _ => True) w (c.operation op) fun _ w' =>
      ∃ kinds', Sound rule kinds' w' ∧ Adds w w' := by
  have hready : MemoReady kinds w := by
    intro e he
    rw [hmemo] at he
    cases he
  refine (operation_ensures hc op w).mono fun _ w' ⟨d, w₁, h⟩ => ?_
  obtain ⟨kinds', params, hends, htakes, hformed⟩ := h.prepares.concludes hop hw hready h.few
  obtain ⟨hsound, hadds⟩ := hends.addCommand htakes hformed h.room
  rw [h.named]
  refine ⟨kinds', hsound.named _ fun arg harg => ?_, hadds⟩
  obtain ⟨i, hi⟩ := List.mem_iff_getElem?.mp harg
  obtain ⟨rfl, hlt⟩ := h.result hi
  exact stands_resultAt hlt

end

/-! ## Programs -/

structure Progress (rule : TxCommand.Rule) (i : Nat) (w : Draft) : Prop where
  sound : ∃ kinds, Sound rule kinds w
  count : i ≤ w.commands.length
  ordered : w.commands.length = i →
    (w.commands.flatMap TxCommand.args).foldl TxArg.note [] = indices w.inputs.length

theorem Progress.next {rule : TxCommand.Rule} {kinds : UInt16 → ParamKind} {i : Nat}
    {w w' : Draft} (h : Progress rule i w) (hw' : Sound rule kinds w')
    (hadds : Adds w w') : Progress rule (i + 1) w' := by
  have hcount := h.count
  obtain ⟨hmore, hone⟩ := hadds
  refine ⟨⟨kinds, hw'⟩, by omega, fun hlen => ?_⟩
  obtain ⟨c, hcommands, hargs⟩ := hone (by omega)
  rw [hcommands, List.flatMap_append, List.foldl_append, h.ordered (by omega)]
  simpa using hargs

theorem operations_progress {rule : TxCommand.Rule} (sender : Option String) (depth : Nat)
    {ops : List Operation} (hops : ∀ op ∈ ops, op.Regular rule) :
    ∀ {i : Nat} {w : Draft}, Progress rule i w →
    Ensures (fun _ => True) w (operations Builder.target sender depth i ops) fun _ w' =>
      Progress rule (i + ops.length) w' := by
  induction ops with
  | nil => exact fun h => .pure h
  | cons op rest ih =>
    intro i w h
    obtain ⟨hop, hrest⟩ := List.forall_mem_cons.mp hops
    obtain ⟨kinds, hw⟩ := h.sound
    have hcleared : Sound rule kinds { w with memo := [] } := 
      ⟨hw.tidy, hw.bound, hw.init, hw.unsigned⟩
    refine .modify_bind (.bind (operation_sound _ rfl hcleared rfl hop)
      fun _ w' ⟨kinds', hw', hadds⟩ => ?_)
    have hnext : Progress rule (i + 1) w' := h.next hw' hadds
    refine (ih hrest hnext).mono fun _ w'' hend => ?_
    rwa [List.length_cons, Nat.add_comm rest.length, ← Nat.add_assoc]

theorem progress_initial (rule : TxCommand.Rule) {vars : List Binding}
    (hvars : ∀ v ∈ vars, v.init.Even ∧ v.init.NoBytes) :
    Progress rule 0 ⟨Builder.empty, initialEnv vars, []⟩ := by
  refine ⟨⟨fun _ => .other, ?_, fun name arg h => ?_, fun name value h => ?_, rfl⟩,
    Nat.zero_le _, fun _ => rfl⟩
  · exact ⟨Nat.zero_le _, Nat.zero_le _, nofun, nofun, nofun, nofun⟩
  · obtain ⟨v, -, -, heq⟩ := init_of_initialEnv h
    cases heq
  · obtain ⟨v, hv, -, heq⟩ := init_of_initialEnv h
    cases heq
    exact hvars v hv

end Lowering


namespace Transaction

variable {options : ExecOptions}

/-- A sender that options set is a full address. -/
theorem Builder.sender_of_configure {b b' : Builder} (hsender : b.sender = none)
    (h : b.configure options = .ok b') (s : String) (hs : b'.sender = some s) :
    ∃ text, fullAddress text = .ok s := by
  obtain ⟨sender, hset, rfl⟩ := configure_eq_ok.mp h
  have hfull := senderOf_ends options
  rw [hset] at hfull
  exact hfull.of_ok s (by simpa [hsender] using hs)

theorem Builder.configure_keeps {b b' : Builder} (h : b.configure options = .ok b') :
    b'.inputs = b.inputs ∧ b'.commands = b.commands := by
  obtain ⟨_, _, rfl⟩ := configure_eq_ok.mp h
  exact ⟨rfl, rfl⟩

/-- A transaction is what the walk leaves, with the options set. -/
theorem exists_walk_of_ofProgram {p : Program} {t : Transaction} (h : ofProgram p options = .ok t) :
    ∃ w : Lowering.Draft,
      (Lowering.operations Builder.target options.sender p.vars.length 0 p.ops).run
        ⟨Builder.empty, Lowering.initialEnv p.vars, []⟩ = .ok ((), w) ∧
      (∃ b, w.target.configure options = .ok b ∧ t = b.build) ∧
      t.inputs = w.inputs ∧ t.commands = w.commands := by
  unfold ofProgram at h
  split at h
  · cases h
  obtain ⟨b, hrun, h⟩ := bind_eq_ok.mp h
  obtain ⟨b', hconfigure, h⟩ := bind_eq_ok.mp h
  cases h
  obtain ⟨⟨⟨⟩, w⟩, hwalk, hrun⟩ := bind_eq_ok.mp hrun
  cases hrun
  obtain ⟨hinputs, hcommands⟩ := Builder.configure_keeps hconfigure
  exact ⟨w, hwalk, ⟨b', hconfigure, rfl⟩, congrArg Array.toList hinputs,
    congrArg Array.toList hcommands⟩

/-- **The transaction of a regular program is tidy.** -/
theorem tidy_of_ofProgram {rule : TxCommand.Rule} {p : Program} {t : Transaction}
    (h : ofProgram p options = .ok t) (hops : ∀ op ∈ p.ops, op.Regular rule)
    (hvars : ∀ v ∈ p.vars, v.init.Even ∧ v.init.NoBytes) :
    (∃ kinds, Transaction.Tidy rule kinds t.inputs t.commands) ∧
      (t.commands.length = p.ops.length → t.firstUses = indices t.inputs.length) ∧
      ∀ s, t.sender = some s → ∃ text, Builder.fullAddress text = .ok s := by
  obtain ⟨w, hwalk, ⟨b, hconfigure, rfl⟩, hinputs, hcommands⟩ := exists_walk_of_ofProgram h
  have hprogress := Lowering.operations_progress options.sender p.vars.length hops
    (Lowering.progress_initial rule hvars)
  rw [Ensures, hwalk] at hprogress
  cases hprogress with
  | ok hend =>
    obtain ⟨kinds, hsound⟩ := hend.sound
    refine ⟨⟨kinds, ?_⟩, fun hlen => ?_, Builder.sender_of_configure hsound.unsigned hconfigure⟩
    · rw [hinputs, hcommands]
      exact hsound.tidy
    · rw [firstUses, hinputs, hcommands]
      exact hend.ordered (by rw [← hcommands, hlen, Nat.zero_add])

end Transaction

end TxGraph
