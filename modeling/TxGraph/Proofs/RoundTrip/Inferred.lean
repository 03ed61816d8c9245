import TxGraph.Proofs.RoundTrip

/-!
# Round trips without signatures

Where no signature is known, the parameters of a decoded call have no declared types, so an argument
is encoded at the type that is inferred from its value. The decoded graph always compiles. As long
as inputs have indices, it builds a transaction with the same calls exactly if the pure arguments of
calls show their types: an id passes for an address, and a vector goes by its first element, so an
empty one has no type.
-/

namespace TxGraph

variable {t : Transaction}

open Decoding (SignatureSource DrawnAs Shows contextOf)

/-! ## Traces that show types -/

/-- The type of the argument can be inferred from its value. -/
def TraceArg.showsType : TraceArg → Bool
  | pure type value => PureValue.showsType type value
  | _ => true

def CallTrace.showsTypes (trace : CallTrace) : Bool :=
  trace.all fun call => call.kind != .moveCall || call.args.all TraceArg.showsType

namespace Transaction

variable {t : Transaction} {trace : CallTrace}

/-- The values of pure inputs that are given to calls show their types. -/
def ShowsTypes (t : Transaction) : Prop :=
  ∀ c ∈ t.commands, c.kind? = some .moveCall → ∀ i type bs, .input i ∈ c.args →
    t.inputs[i.toNat]? = some (.pure type bs) →
    PureValue.showsType type (PureValue.canonical type bs) = true

theorem forall₂_of_mapM {ε α β : Type} {f : α → Except ε β} {as : List α} {bs : List β}
    (h : as.mapM f = .ok bs) : List.Forall₂ (fun a b => f a = .ok b) as bs := by
  induction as generalizing bs with
  | nil =>
    cases h
    exact .nil
  | cons a as ih =>
    rw [List.mapM_cons] at h
    obtain ⟨b, hb, h⟩ := bind_eq_ok.mp h
    obtain ⟨rest, hrest, h⟩ := bind_eq_ok.mp h
    cases h
    exact .cons hb (ih hrest)

theorem exists_mapM {ε α β : Type} {f : α → Except ε β} {as : List α}
    (h : ∀ a ∈ as, ∃ b, f a = .ok b) : ∃ bs, as.mapM f = .ok bs := by
  induction as with
  | nil => exact ⟨[], rfl⟩
  | cons a as ih =>
    obtain ⟨⟨b, hb⟩, hrest⟩ := List.forall_mem_cons.mp h
    obtain ⟨bs, hbs⟩ := ih hrest
    exact ⟨b :: bs, by rw [List.mapM_cons, hb, hbs]; rfl⟩

section

variable {inputs : Array TxInput} {c : TxCommand}

theorem traceCommand_eq_some {call : TracedCall} (h : traceCommand inputs c = .ok (some call)) :
    c.kind? = some call.kind ∧
      List.Forall₂ (fun arg shown => traceArg inputs arg = .ok shown) c.args call.args := by
  unfold traceCommand at h
  cases hkind : c.kind? with
  | none =>
    rw [hkind] at h
    cases h
  | some kind =>
    rw [hkind] at h
    obtain ⟨target, -, h⟩ := bind_eq_ok.mp h
    obtain ⟨args, hargs, h⟩ := bind_eq_ok.mp h
    cases h
    exact ⟨rfl, forall₂_of_mapM hargs⟩

theorem traceCommand_ne_none {kind : CommandKind} (hkind : c.kind? = some kind) :
    traceCommand inputs c ≠ .ok none := by
  intro h
  unfold traceCommand at h
  rw [hkind] at h
  obtain ⟨target, -, h⟩ := bind_eq_ok.mp h
  obtain ⟨args, -, h⟩ := bind_eq_ok.mp h
  cases h

end

theorem exists_traced_of_mem (h : t.callTrace = .ok trace) {c : TxCommand} (hc : c ∈ t.commands)
    {kind : CommandKind} (hkind : c.kind? = some kind) :
    ∃ call ∈ trace, traceCommand t.inputs.toArray c = .ok (some call) := by
  obtain ⟨calls, hcalls, h⟩ := bind_eq_ok.mp h
  cases h
  obtain ⟨call?, hmem, hcall⟩ := exists_of_forall₂ (forall₂_of_mapM hcalls) hc
  cases call? with
  | none => exact absurd hcall (traceCommand_ne_none hkind)
  | some call => exact ⟨call, List.mem_filterMap.mpr ⟨some call, hmem, rfl⟩, hcall⟩

theorem exists_command_of_mem (h : t.callTrace = .ok trace) {call : TracedCall}
    (hcall : call ∈ trace) :
    ∃ c ∈ t.commands, traceCommand t.inputs.toArray c = .ok (some call) := by
  obtain ⟨calls, hcalls, h⟩ := bind_eq_ok.mp h
  cases h
  obtain ⟨call?, hmem, rfl⟩ := List.mem_filterMap.mp hcall
  exact exists_of_forall₂ (forall₂_of_mapM hcalls).flip hmem

theorem eq_pure_of_traceArg {inputs : List TxInput} {i : UInt16} {type : Option String}
    {bs : Bytes} (hi : inputs[i.toNat]? = some (.pure type bs)) {shown : TraceArg}
    (h : traceArg inputs.toArray (.input i) = .ok shown) :
    shown = .pure type (PureValue.canonical type bs) := by
  simp only [traceArg, List.getElem?_toArray, hi] at h
  cases h
  rfl

theorem showsType_of_traceArg {inputs : List TxInput} {arg : TxArg} {shown : TraceArg}
    (h : traceArg inputs.toArray arg = .ok shown)
    (hpure : ∀ i type bs, arg = .input i → inputs[i.toNat]? = some (.pure type bs) →
      PureValue.showsType type (PureValue.canonical type bs) = true) : shown.showsType = true := by
  cases arg with
  | input i =>
    cases hx : inputs[i.toNat]? with
    | none =>
      simp only [traceArg, List.getElem?_toArray, hx] at h
      cases h
      rfl
    | some x =>
      cases x with
      | pure type bs =>
        rw [eq_pure_of_traceArg hx h]
        exact hpure i type bs rfl hx
      | object id =>
        simp only [traceArg, List.getElem?_toArray, hx] at h
        obtain ⟨address, -, h⟩ := bind_eq_ok.mp h
        cases h
        rfl
  | _ =>
    cases h
    rfl

/-- A trace shows types if the transaction does. -/
theorem showsTypes_iff (h : t.callTrace = .ok trace) : trace.showsTypes = true ↔ t.ShowsTypes := by
  simp only [CallTrace.showsTypes, List.all_eq_true, Bool.or_eq_true, bne_iff_ne]
  constructor
  · intro hall c hc hkind i type bs hi hx
    obtain ⟨call, hmem, hcall⟩ := exists_traced_of_mem h hc hkind
    obtain ⟨hsame, hargs⟩ := traceCommand_eq_some hcall
    obtain ⟨shown, hshown, harg⟩ := exists_of_forall₂ hargs hi
    have hmove : call.kind = .moveCall := Option.some.inj (hsame.symm.trans hkind)
    have htype := (hall call hmem).resolve_left (not_not.mpr hmove) shown hshown
    rwa [eq_pure_of_traceArg hx harg] at htype
  · intro hall call hmem
    obtain ⟨c, hc, hcall⟩ := exists_command_of_mem h hmem
    obtain ⟨hkind, hargs⟩ := traceCommand_eq_some hcall
    by_cases hmove : call.kind = .moveCall
    · refine .inr fun shown hshown => ?_
      obtain ⟨arg, harg, htraced⟩ := exists_of_forall₂ hargs.flip hshown
      refine showsType_of_traceArg htraced ?_
      rintro i type bs rfl hx
      exact hall c hc (hmove ▸ hkind) i type bs harg hx
    · exact .inl hmove

end Transaction

/-! ## Tidy transactions -/

namespace Transaction.Tidy

section

variable {rule : TxCommand.Rule} {kinds : UInt16 → ParamKind} {t : Transaction}
  (h : Transaction.Tidy rule kinds t.inputs t.commands)
variable {k : Nat} {c : TxCommand}

include h

theorem fits_of_mem (hk : t.commands[k]? = some c) {arg : TxArg} (harg : arg ∈ c.args) :
    ∃ kind, arg.Fits kinds t.inputs (t.commands.take k) kind := by
  obtain ⟨params, -, hargs⟩ := (h.commands k c hk).args
  obtain ⟨kind, -, hfits⟩ := exists_of_forall₂ hargs harg
  exact ⟨kind, hfits⟩

theorem exists_traceArg (hk : t.commands[k]? = some c) {arg : TxArg} (harg : arg ∈ c.args) :
    ∃ shown, traceArg t.inputs.toArray arg = .ok shown := by
  cases arg with
  | input i =>
    obtain ⟨kind, hfits⟩ := h.fits_of_mem hk harg
    obtain ⟨x, hx⟩ : ∃ x, t.inputs[i.toNat]? = some x := ⟨_, List.getElem?_eq_getElem hfits.lt⟩
    simp only [traceArg, List.getElem?_toArray, hx]
    cases x with
    | pure type bs => exact ⟨_, rfl⟩
    | object id =>
      obtain ⟨text, htext⟩ := h.full i.toNat id hx
      exact ⟨_, bind_eq_ok.mpr ⟨_, Builder.normalize_fullAddress htext, rfl⟩⟩
  | _ => exact ⟨_, rfl⟩

omit h in
theorem exists_target (hc : c.Formed) : ∃ target, c.target = .ok target := by
  cases c with
  | moveCall =>
    obtain ⟨bs, hbs⟩ := Option.isSome_iff_exists.mp hc.1
    exact ⟨_, bind_eq_ok.mpr ⟨_, Address.normalize_of_parse? hbs, rfl⟩⟩
  | upgrade =>
    obtain ⟨bs, hbs⟩ := Option.isSome_iff_exists.mp hc
    exact ⟨_, bind_eq_ok.mpr ⟨_, Address.normalize_of_parse? hbs, rfl⟩⟩
  | _ => exact ⟨_, rfl⟩

theorem exists_callTrace : ∃ trace, t.callTrace = .ok trace := by
  have hcommand : ∀ c ∈ t.commands, ∃ call, traceCommand t.inputs.toArray c = .ok call := by
    intro c hc
    obtain ⟨k, hk⟩ := List.mem_iff_getElem?.mp hc
    obtain ⟨target, htarget⟩ := exists_target (h.commands k c hk).formed
    obtain ⟨args, hargs⟩ := exists_mapM fun arg harg => h.exists_traceArg hk harg
    unfold traceCommand
    cases c.kind? with
    | none => exact ⟨_, rfl⟩
    | some kind => exact ⟨_, bind_eq_ok.mpr ⟨_, htarget, bind_eq_ok.mpr ⟨_, hargs, rfl⟩⟩⟩
  obtain ⟨calls, hcalls⟩ := exists_mapM hcommand
  exact ⟨_, bind_eq_ok.mpr ⟨calls, hcalls, rfl⟩⟩

theorem eq_of_uses {j : Nat} {d : TxCommand} (hj : t.commands[j]? = some c)
    (hk : t.commands[k]? = some d) {i : UInt16} (hc : .input i ∈ c.args) (hd : .input i ∈ d.args)
    (hpure : ∃ type bs, t.inputs[i.toNat]? = some (.pure type bs)) : j = k := by
  have hbefore {j k : Nat} {c d : TxCommand} (hj : t.commands[j]? = some c)
      (hk : t.commands[k]? = some d) (hc : .input i ∈ c.args) (hd : .input i ∈ d.args) :
      ¬ j < k := by
    intro hlt
    have hmem : c ∈ t.commands.take k :=
      List.mem_of_getElem? ((List.getElem?_take_of_lt hlt).trans hj)
    exact (h.commands k d hk).own i hd hpure c hmem hc
  have hle := hbefore hj hk hc hd
  have hge := hbefore hk hj hd hc
  omega

end

end Transaction.Tidy

/-! ## Sources without signatures -/

def Decoding.Lacks (source : SignatureSource) : Prop :=
  ∀ package key, Address.normalize package = .ok key → source package = .error (.noPackage package)

namespace Decoding.Lacks

variable {source : SignatureSource} (h : Lacks source)

include h

theorem uniform : Uniform source where
  reads hpackage hsource := by
    rw [h _ _ hpackage] at hsource
    cases hsource
  same hpackage hother := by
    rw [h _ _ hpackage, h _ _ hother]
    rfl

theorem callOf_eq {package : String} (hpackage : (Address.parse? package).isSome)
    (module function : String) :
    callOf source package module function = MoveCall.of package module function := by
  obtain ⟨bs, hbs⟩ := Option.isSome_iff_exists.mp hpackage
  rw [Decoding.callOf_eq, callBy, h _ _ (Address.normalize_of_parse? hbs)]
  rfl

end Decoding.Lacks

def Decoding.noSignatures : SignatureSource := fun package => .error (.noPackage package)

theorem Decoding.lacks_noSignatures : Lacks noSignatures := fun _ _ _ => rfl

/-- What a decoder has to recover of a command: its package is an address, and the spelling of its
element type leads back to it. -/
def Command.Readable : Command → Prop
  | makeMoveVec elem _ _ => ∀ spelling, elem.moveSpelling? = some spelling →
    (DataType.ofMove spelling).moveSpelling? = some spelling
  | moveCall call => (Address.parse? call.package).isSome
  | upgrade _ _ package => (Address.parse? package).isSome
  | _ => True

namespace TxCommand.Rule

def undeclared : Rule := fun _ kinds => ∀ kind ∈ kinds, kind = .other

theorem shownBy_of_lacks {source : SignatureSource} (hsource : Decoding.Lacks source)
    {agrees : List ParamKind → List ParamKind → Prop} {package module function : String}
    (hpackage : (Address.parse? package).isSome) {typeArgs : List String} {args : List TxArg}
    {kinds : List ParamKind} (h : agrees kinds (List.replicate args.length .other)) :
    shownBy source agrees (.moveCall package module function typeArgs args) kinds := by
  simp only [shownBy, hsource.callOf_eq hpackage]
  refine ⟨Nat.zero_le _, Nat.zero_le _, (by decide : 0 < Limited.limit), ?_⟩
  simpa [MoveCall.of, Decoding.padTypes, ParamKind.ofType] using h

end TxCommand.Rule

theorem Command.Readable.allows {source : SignatureSource} (hsource : Decoding.Lacks source)
    {c : Command} (h : c.Readable) :
    Compile.Allows (.shownBy source fun _ _ => True) c := by
  cases c with
  | makeMoveVec => exact h
  | moveCall call =>
    exact ⟨h, fun _ names values _ _ => TxCommand.Rule.shownBy_of_lacks hsource h trivial⟩
  | upgrade => exact h
  | _ => trivial

/-! ## Inferred kinds -/

def Transaction.feedsCall (t : Transaction) (i : UInt16) : Bool :=
  t.commands.any fun c => c.kind? == some .moveCall && c.args.contains (.input i)

theorem Transaction.feedsCall_iff {i : UInt16} :
    t.feedsCall i = true ↔ ∃ c ∈ t.commands, c.kind? = some .moveCall ∧ .input i ∈ c.args := by
  simp [feedsCall]

/-- The kinds at which inputs are encoded again, where calls have no declared types. -/
def Transaction.inferredKinds (t : Transaction) (kinds : UInt16 → ParamKind) (i : UInt16) :
    ParamKind :=
  if t.feedsCall i then .other else kinds i

section

variable {source : SignatureSource} (hsource : Decoding.Lacks source)
  {agrees : List ParamKind → List ParamKind → Prop} {kinds : UInt16 → ParamKind} {t : Transaction}
  (h : Transaction.Tidy (.shownBy source agrees) kinds t.inputs t.commands)

include h

/-- What is given to other commands than calls is given as before. -/
theorem TxArg.Fits.infer {k : Nat} {c : TxCommand} (hk : t.commands[k]? = some c)
    (hkind : c.kind? ≠ some .moveCall) {arg : TxArg} (harg : arg ∈ c.args) {kind : ParamKind}
    (hfits : arg.Fits kinds t.inputs (t.commands.take k) kind) :
    arg.Fits (t.inferredKinds kinds) t.inputs (t.commands.take k) kind := by
  rcases hfits with hstands | ⟨i, rfl, hpure, hsame⟩
  · exact .inl hstands
  · have hfeeds : ¬ t.feedsCall i = true := by
      intro hfeeds
      obtain ⟨call, hcall, hmove, hi⟩ := Transaction.feedsCall_iff.mp hfeeds
      obtain ⟨j, hj⟩ := List.mem_iff_getElem?.mp hcall
      rw [h.eq_of_uses hj hk hi harg hpure, hk] at hj
      cases hj
      exact hkind hmove
    exact .inr ⟨i, rfl, hpure, (if_neg hfeeds).trans hsame⟩

include hsource

/-- **Where the values of pure arguments show their types, calls need no declared types.** -/
theorem Transaction.Tidy.infer (hshows : t.ShowsTypes) :
    Transaction.Tidy (.shownBy source Eq) (t.inferredKinds kinds) t.inputs t.commands where
  fewInputs := h.fewInputs
  fewCommands := h.fewCommands
  full := h.full
  distinct := h.distinct
  encodes i type bs hx := by
    obtain ⟨hdeclared, hencodes⟩ := h.encodes i type bs hx
    unfold Transaction.inferredKinds
    split
    case isTrue hfeeds =>
      obtain ⟨c, hc, hkind, hi⟩ := Transaction.feedsCall_iff.mp hfeeds
      have htype := hshows c hc hkind i type bs hi hx
      exact ⟨.inr (.inl rfl), (hencodes.other_iff hdeclared).mpr htype⟩
    case isFalse => exact ⟨hdeclared, hencodes⟩
  commands k c hk := by
    obtain ⟨⟨params, htakes, hargs⟩, hown, hformed⟩ := h.commands k c hk
    refine ⟨?_, hown, hformed⟩
    have hsame (hkind : c.kind? ≠ some .moveCall) : List.Forall₂
        (TxArg.Fits (t.inferredKinds kinds) t.inputs (t.commands.take k)) c.args params :=
      ((List.forall₂_and_left _ _).mpr ⟨fun _ => id, hargs⟩).imp fun _ _ hboth =>
        TxArg.Fits.infer h hk hkind hboth.1 hboth.2
    cases c with
    | moveCall package module function typeArgs args =>
      refine ⟨List.replicate args.length .other,
        TxCommand.Rule.shownBy_of_lacks hsource hformed.1 rfl,
        Lowering.forall₂_replicate fun arg harg => ?_⟩
      obtain ⟨kind, -, hfits⟩ := exists_of_forall₂ hargs harg
      rcases hfits with hstands | ⟨i, rfl, hpure, -⟩
      · exact .inl hstands
      · have hfeeds : t.feedsCall i = true :=
          Transaction.feedsCall_iff.mpr ⟨_, List.mem_of_getElem? hk, rfl, harg⟩
        exact .inr ⟨i, rfl, hpure, if_pos hfeeds⟩
    | _ => exact ⟨params, htakes, hsame nofun⟩

end

/-! ## Transactions of decoded graphs -/

/-- A transaction in which no parameter of a call has a declared type shows types. -/
theorem Transaction.Tidy.showsTypes {kinds : UInt16 → ParamKind}
    (h : Transaction.Tidy .undeclared kinds t.inputs t.commands) : t.ShowsTypes := by
  intro c hc hkind i type bs hi hx
  obtain ⟨k, hk⟩ := List.mem_iff_getElem?.mp hc
  obtain ⟨params, htakes, hargs⟩ := (h.commands k c hk).args
  have hother : ∀ kind ∈ params, kind = .other := by
    cases c with
    | moveCall => exact htakes
    | _ => cases hkind
  obtain ⟨kind, hmem, hfits⟩ := exists_of_forall₂ hargs hi
  have hsame : kinds i = .other := by
    rcases hfits with hstands | ⟨j, hij, -, hsame⟩
    · obtain ⟨id, hobject⟩ := TxArg.object_of_stands hstands
      cases hx.symm.trans hobject
    · cases hij
      exact hsame.trans (hother kind hmem)
  obtain ⟨hdeclared, hencodes⟩ := h.encodes i type bs hx
  rw [hsame] at hdeclared hencodes
  exact (hencodes.other_iff hdeclared).mp hencodes

/-- A program is without bytes if the variables that it declares are. -/
theorem Graph.noBytes_of_compile {g : Graph} {reserved : List String} {p : Program}
    (h : g.compile reserved = .ok p)
    (hvars : ∀ v, .var v ∈ g.nodes → Variable.inlined v = .ok none → v.initial.NoBytes) :
    p.NoBytes := by
  obtain ⟨ps, scope, scope', hbinds, hproduced, -, hruns⟩ := compile_runs h
  refine ⟨fun b hb => ?_, fun value hvalue => ?_⟩
  · obtain ⟨v, hv, hnamed, hinit⟩ := exists_variable h hb
    exact hinit ▸ hvars v hv hnamed
  · obtain ⟨op, hop, hvalue⟩ := List.mem_flatMap.mp hvalue
    refine hruns.forall_operands trivial (fun _ => trivial) (fun e he => ?_) op hop value hvalue
    rw [hproduced, List.mem_reverse] at he
    refine hbinds.forall_values (fun _ => trivial) (fun v value hv => ?_) e he
    rcases Variable.inlined_eq hv with rfl | ⟨o, -, rfl⟩
    · exact fun _ => Literal.noConfusion
    · trivial

/-- The spelling of an element type leads back to it, also where none was recorded. -/
theorem TxCommand.Formed.moveSpelling? {elem : Option String} {elems : List TxArg}
    (h : (TxCommand.makeMoveVec elem elems).Formed) {spelling : String}
    (hspelling : (elem.elim .anyObject DataType.ofMove).moveSpelling? = some spelling) :
    (DataType.ofMove spelling).moveSpelling? = some spelling := by
  cases elem with
  | none => cases hspelling
  | some found =>
    cases (h found rfl).symm.trans hspelling
    exact hspelling

section

variable {source : SignatureSource} (hsource : Decoding.Lacks source)
  {agrees : List ParamKind → List ParamKind → Prop} {kinds : UInt16 → ParamKind} {t : Transaction}
  (h : Transaction.Tidy (.shownBy source agrees) kinds t.inputs t.commands)
  {ds : List Decoding.Drawing} {g : Graph} (hds : DrawnAs (contextOf source t) t.commands ds)
  (hg : Shows t ds g)

include h hds hg

theorem Decoding.noBytes_of_compile {reserved : List String} {p : Program}
    (hp : g.compile reserved = .ok p) : p.NoBytes := by
  refine Graph.noBytes_of_compile hp fun v hv hnamed => ?_
  rcases object_or_literal h hds hg hv hnamed with ⟨id, hid⟩ | ⟨value, hvalue⟩
  · rw [hid]
    trivial
  · exact (Operand.spells_of_literal? hvalue).noBytes

include hsource

omit hg in
/-- The parameters of calls have no declared types in a decoded graph. -/
theorem Decoding.allows_undeclared {k : Nat} {d : Drawing} (hk : ds[k]? = some d) :
    Compile.Allows .undeclared d.command := by
  obtain ⟨command, hcommand, hdraw⟩ := exists_command hds hk
  have hformed := (h.commands k command hcommand).formed
  cases command with
  | makeMoveVec elem elems =>
    cases hdraw
    unfold drawVector
    split
    · split <;> exact fun _ => hformed.moveSpelling?
    · exact fun _ => hformed.moveSpelling?
  | moveCall package module function typeArgs args =>
    cases hdraw
    obtain ⟨hpackage, hmodule, hfunction⟩ :=
      shownCall_target (contextOf source t) k package module function typeArgs args
    refine ⟨by rw [hpackage]; exact hformed.1, fun _ names values _ _ kind hkind => ?_⟩
    obtain ⟨type, htype, rfl⟩ := List.mem_map.mp hkind
    have hcall : callOf (contextOf source t).source package module function =
        MoveCall.of package module function := hsource.callOf_eq hformed.1 module function
    rw [shownCall, hcall] at htype
    rw [List.eq_of_mem_replicate htype]
    rfl
  | upgrade =>
    cases hdraw
    exact hformed
  | unsupported => cases hdraw
  | _ =>
    cases hdraw
    trivial

/-- **The transaction of a decoded graph shows types.** -/
theorem Decoding.showsTypes_of_ofProgram {reserved : List String} {p : Program}
    (hp : g.compile reserved = .ok p) {options : ExecOptions} {t' : Transaction}
    (ht' : Transaction.ofProgram p options = .ok t') : t'.ShowsTypes := by
  have hallows : ∀ id ∈ g.flow.order, ∀ c, g.node? id = some (.command id c) →
      Compile.Allows .undeclared c := by
    intro id hid c hc
    rw [hg.flow.order_eq] at hid
    obtain ⟨k, hk, rfl⟩ := List.mem_map.mp hid
    have hd := List.getElem?_eq_getElem (List.mem_range.mp hk)
    cases hc.symm.trans (hg.command k _ hd)
    exact allows_undeclared hsource h hds hd
  obtain ⟨hops, hvars⟩ := Graph.regular_of_allows hp (noBytes_of_compile h hds hg hp) hallows
  obtain ⟨⟨kinds', htidy⟩, -, -⟩ := Transaction.tidy_of_ofProgram ht' hops hvars
  exact htidy.showsTypes

end

/-! ## Round trips -/

/-- **Round trip without signatures.** The transaction of a graph is decoded, and if that reports no
error, the decoded graph compiles. Its program builds a transaction with the same calls exactly if
the calls show the types of their pure arguments and the inputs, with those of vectors of vectors
not shared, have indices. -/
theorem roundTrip_iff_showsTypes {g : Graph} {source : SignatureSource} {reserved : List String}
    {p : Program} {options : ExecOptions} {t : Transaction} (hsource : Decoding.Lacks source)
    (hcompile : g.compile reserved = .ok p) (hbuild : Transaction.ofProgram p options = .ok t)
    (hbytes : p.NoBytes) (hcommands : ∀ id c, .command id c ∈ g.nodes → c.Readable)
    (helements : ∀ c ∈ t.commands, c.HasElements) :
    ∃ d trace, Decoded.ofTransaction source t = .ok d ∧ t.callTrace = .ok trace ∧
      (d.hasErrors = false → ∀ reserved', ∃ p', d.graph.compile reserved' = .ok p' ∧
        ((∃ t', Transaction.ofProgram p' d.options = .ok t' ∧ t'.callTrace = .ok trace) ↔
          trace.showsTypes = true ∧ t.unshared.length ≤ Limited.limit)) := by
  obtain ⟨hops, hvars⟩ := Graph.regular_of_allows hcompile hbytes fun id _ c hc =>
    (hcommands id c (Graph.mem_of_node? hc)).allows hsource
  obtain ⟨⟨kinds, htidy⟩, -, hsender⟩ := Transaction.tidy_of_ofProgram hbuild hops hvars
  obtain ⟨trace, htrace⟩ := htidy.exists_callTrace
  obtain ⟨d, ds, hdecode, hoptions, hds, hg, hdrops⟩ := Decoding.exists_shown htidy hsource.uniform
  refine ⟨d, trace, hdecode, htrace, fun hclean reserved' => ?_⟩
  obtain ⟨p', hp'⟩ := Decoding.exists_compile htidy hds hg reserved'
  -- what shows its types is tidy at the inferred kinds too, and recalled at these
  have hbuilds (hshows : trace.showsTypes = true) :
      Ends (fun _ => Limited.limit < t.unshared.length)
        (fun t' => t.unshared.length ≤ Limited.limit ∧ t'.callTrace = .ok trace)
        (Transaction.ofProgram p' d.options) := by
    have htidy' := htidy.infer hsource ((Transaction.showsTypes_iff htrace).mp hshows)
    have hrecalled := Decoding.recalled_of_compile htidy' hds hg hp' (hdrops hclean) helements
    rw [hoptions]
    refine (Transaction.ofProgram_of_recalled htidy' hrecalled hsender).mono ?_
    exact fun t' ⟨hroom, hrenumbers, _⟩ => ⟨hroom, hrenumbers.callTrace_eq.trans htrace⟩
  refine ⟨p', hp', ?_, ?_⟩
  · rintro ⟨t', ht', htrace'⟩
    have hshows := (Transaction.showsTypes_iff htrace').mpr
      (Decoding.showsTypes_of_ofProgram hsource htidy hds hg hp' ht')
    have hbuilt := hbuilds hshows
    rw [ht'] at hbuilt
    exact ⟨hshows, hbuilt.of_ok.1⟩
  · rintro ⟨hshows, hroom⟩
    obtain ⟨t', ht', -, hsame⟩ := (hbuilds hshows).exists_ok fun _ => Nat.not_lt.mpr hroom
    exact ⟨t', ht', hsame⟩

/-! ## A round trip -/

/-- A lot is opened by a call with a vector of vectors and closed by another call, whose result goes
to the owner. -/
def auction : Graph where
  nodes := [.start "s", .finish "e",
    .var ⟨"b", "bids", .vector (.vector (.integer .u8)),
      some (.arr [.arr [.int 1, .int 2], .arr []])⟩,
    .var ⟨"o", "clock", .anyObject, some (.str "0x6")⟩,
    .var ⟨"a", "owner", .address, some (.str "0x7")⟩,
    .var ⟨"t", "type", .string, some (.str "0x2::sui::SUI")⟩,
    .command "open" (.moveCall ⟨"0xa", "auction", "open", ["T"],
      [.vector (.vector (.integer .u8)), .objectOf "0x2::clock::Clock"],
      [.objectOf "0xa::auction::Lot", .objectOf "0xa::auction::Key"]⟩),
    .command "close" (.moveCall ⟨"0xa", "auction", "close", [],
      [.objectOf "0xa::auction::Key", .address], [.objectOf "0xa::auction::Receipt"]⟩),
    .command "send" (.transferObjects 1 true)]
  edges := [.flow "s" "open", .flow "open" "close", .flow "close" "send", .flow "send" "e",
    .io "t" "out" "open" "in_targ_0" none, .io "b" "out" "open" "in_arg_0" none,
    .io "o" "out" "open" "in_arg_1" none, .io "open" "out_ret_1" "close" "in_arg_0" none,
    .io "a" "out" "close" "in_arg_1" none, .io "close" "out_ret_0" "send" "in_object_0" none,
    .io "a" "out" "send" "in_recipient" none]

def auctionProgram : Program where
  vars := [⟨"bids", .vector [.vector [.integer .u8 "1", .integer .u8 "2"], .vector []]⟩,
    ⟨"owner", .constant (.address "0x7")⟩, ⟨"type_2", .constant (.string "0x2::sui::SUI")⟩]
  ops := [.moveCall "0xa" "auction" "open" [.ref "type_2"]
      [⟨.ref "bids", .vector (.vector (.integer .u8))⟩, ⟨.object .clock, .handle⟩]
      ["open_result", "open_result_2"],
    .moveCall "0xa" "auction" "close" [] [⟨.ref "open_result_2", .handle⟩, ⟨.ref "owner", .address⟩]
      ["close_result"],
    .transferObjects (.each [.ref "close_result"]) (.ref "owner")]

def auctionTransaction : Transaction where
  sender := none
  gasBudget := none
  inputs := [.pure (some "vector<vector<u8>>") [2, 2, 1, 2, 0],
    .object "0x0000000000000000000000000000000000000000000000000000000000000006",
    .pure (some "address") (List.replicate 31 0 ++ [7]),
    .pure (some "address") (List.replicate 31 0 ++ [7])]
  commands := [.moveCall "0xa" "auction" "open" ["0x2::sui::SUI"] [.input 0, .input 1],
    .moveCall "0xa" "auction" "close" [] [.nested 0 1, .input 2],
    .transferObjects [.nested 1 0] (.input 3)]

theorem roundTrip_iff_showsTypes_auction :
    auction.compile [] = .ok auctionProgram ∧
    Transaction.ofProgram auctionProgram ⟨none, none⟩ = .ok auctionTransaction ∧
    ∃ d trace, Decoded.ofTransaction Decoding.noSignatures auctionTransaction = .ok d ∧
      auctionTransaction.callTrace = .ok trace ∧ d.hasErrors = false ∧
      ∃ p' t', d.graph.compile [] = .ok p' ∧ Transaction.ofProgram p' d.options = .ok t' ∧
        t'.callTrace = .ok trace := by
  have hcompile : auction.compile [] = .ok auctionProgram := by decide +kernel
  have hbuild : Transaction.ofProgram auctionProgram ⟨none, none⟩ = .ok auctionTransaction := by
    decide +kernel
  have hbytes : auctionProgram.NoBytes := by
    constructor <;> simp [auctionProgram, Program.operands, Operation.operands, Group.operands,
      Operand.NoBytes, Operand.Leaves, Operand.Leaves.all, Lowering.constantLiteral]
  have hcommands : ∀ id c, .command id c ∈ auction.nodes → c.Readable := by
    intro id c hc
    simp only [auction, List.mem_cons, List.not_mem_nil, or_false, Node.command.injEq, reduceCtorEq,
      false_or] at hc
    rcases hc with ⟨-, rfl⟩ | ⟨-, rfl⟩ | ⟨-, rfl⟩
    · exact (by decide +kernel : (Address.parse? "0xa").isSome = true)
    · exact (by decide +kernel : (Address.parse? "0xa").isSome = true)
    · trivial
  have helements : ∀ c ∈ auctionTransaction.commands, c.HasElements := by
    simp [auctionTransaction, TxCommand.HasElements]
  obtain ⟨d, trace, hd, htrace, htrip⟩ := roundTrip_iff_showsTypes Decoding.lacks_noSignatures
    hcompile hbuild hbytes hcommands helements
  have hclean : d.hasErrors = false := by
    have hreport : (Decoded.ofTransaction Decoding.noSignatures auctionTransaction).map
        Decoded.hasErrors = .ok false := by
      decide +kernel
    rw [hd] at hreport
    exact Except.ok.inj hreport
  have hshows : trace.showsTypes = true := by
    have hreport : auctionTransaction.callTrace.map CallTrace.showsTypes = .ok true := by
      decide +kernel
    rw [htrace] at hreport
    exact Except.ok.inj hreport
  obtain ⟨p', hp', hiff⟩ := htrip hclean []
  obtain ⟨t', ht', htrace'⟩ := hiff.mpr ⟨hshows, by decide +kernel⟩
  exact ⟨hcompile, hbuild, d, trace, hd, htrace, hclean, p', t', hp', ht', htrace'⟩

/-! ## Arguments that do not show their types -/

def lookUp (type : DataType) (value : Json) : Graph where
  nodes := [.start "s", .var ⟨"x", "key", type, some value⟩,
    .command "c" (.moveCall ⟨"0xa", "book", "look_up", [], [type], []⟩), .finish "e"]
  edges := [.flow "s" "c", .flow "c" "e", .io "x" "out" "c" "in_arg_0" none]

def lookUpProgram (name : String) (key : Operand) (kind : ParamKind) : Program where
  vars := [⟨name, key⟩]
  ops := [.moveCall "0xa" "book" "look_up" [] [⟨.ref name, kind⟩] []]

def lookUpTransaction (type : String) (bytes : Bytes) : Transaction where
  sender := none
  gasBudget := none
  inputs := [.pure (some type) bytes]
  commands := [.moveCall "0xa" "book" "look_up" [] [.input 0]]

/-- The graph is built and decoded without an error, but what is decoded does not issue the calls of
the transaction again. -/
structure Graph.LosesCalls (g : Graph) (p : Program) (t : Transaction) : Prop where
  compile : g.compile [] = .ok p
  build : Transaction.ofProgram p ⟨none, none⟩ = .ok t
  bytes : p.NoBytes
  commands (id : String) (c : Command) : .command id c ∈ g.nodes → c.Readable
  elements : ∀ c ∈ t.commands, c.HasElements
  decode : ∃ d, Decoded.ofTransaction Decoding.noSignatures t = .ok d ∧
    d.hasErrors = false ∧ ¬ ∃ p' t', d.graph.compile [] = .ok p' ∧
      Transaction.ofProgram p' d.options = .ok t' ∧ t'.callTrace = t.callTrace

def Decoded.calls? (d : Decoded) : Option (Except Address.Uncut CallTrace) := do
  let p ← (d.graph.compile []).toOption
  let t ← (Transaction.ofProgram p d.options).toOption
  return t.callTrace

theorem losesCalls_lookUp {type : DataType} {value : Json} {p : Program}
    (hcompile : (lookUp type value).compile [] = .ok p)
    (hbuild : Transaction.ofProgram p ⟨none, none⟩ = .ok t) (hbytes : p.NoBytes)
    (helements : ∀ c ∈ t.commands, c.HasElements)
    (hlost : ((Decoded.ofTransaction Decoding.noSignatures t).map fun d =>
      (d.hasErrors, decide (d.calls? = some t.callTrace))) = .ok (false, false)) :
    (lookUp type value).LosesCalls p t := by
  refine ⟨hcompile, hbuild, hbytes, fun id c hc => ?_, helements, ?_⟩
  · simp only [lookUp, List.mem_cons, List.not_mem_nil, or_false, Node.command.injEq, reduceCtorEq,
      false_or] at hc
    obtain ⟨-, rfl⟩ := hc
    exact (by decide +kernel : (Address.parse? "0xa").isSome = true)
  · cases hd : Decoded.ofTransaction Decoding.noSignatures t with
    | error cause =>
      rw [hd] at hlost
      cases hlost
    | ok d =>
      rw [hd] at hlost
      obtain ⟨herrors, hcalls⟩ := Prod.mk.inj (Except.ok.inj hlost)
      refine ⟨d, rfl, herrors, ?_⟩
      rintro ⟨p', t', hp', ht', hsame⟩
      refine of_decide_eq_false hcalls ?_
      rw [Decoded.calls?, hp', ← hsame]
      simp [Except.toOption, ht']

/-- Without its signature a call that was given an id is given an address, and one that was given an
empty vector cannot be built at all. -/
theorem roundTrip_lookUp_ne :
    (lookUp (.objectOf DataType.idTag) (.str "0x5")).LosesCalls
      (lookUpProgram "key" (.constant (.address "0x5")) .id)
      (lookUpTransaction DataType.idTag (List.replicate 31 0 ++ [5])) ∧
    (lookUp (.vector (.integer .u64)) (.arr [])).LosesCalls
      (lookUpProgram "keys" (.vector []) (.vector (.integer .u64)))
      (lookUpTransaction "vector<u64>" [0]) := by
  constructor
  · refine losesCalls_lookUp (by decide +kernel) (by decide +kernel) ?_ ?_ (by decide +kernel)
    · constructor <;> simp [lookUpProgram, Program.operands, Operation.operands, Operand.NoBytes,
        Operand.Leaves, Lowering.constantLiteral]
    · simp [lookUpTransaction, TxCommand.HasElements]
  · refine losesCalls_lookUp (by decide +kernel) (by decide +kernel) ?_ ?_ (by decide +kernel)
    · constructor <;> simp [lookUpProgram, Program.operands, Operation.operands, Operand.NoBytes,
        Operand.Leaves, Operand.Leaves.all]
    · simp [lookUpTransaction, TxCommand.HasElements]

end TxGraph
