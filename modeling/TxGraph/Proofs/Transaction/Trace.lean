import TxGraph.Proofs.Pure.Written

/-!
# What a trace tells apart

A trace shows the commands of a transaction over the contents of its inputs: over `resolved`. It
shows less than they hold. The modules of a package are left out, the parts of a call's target run
together, and bytes are shown by their value, which several bytes may have. `Alike` says exactly
which commands look the same. Commands that are `Legible` and have the same code are alike only if
they are equal.
-/

namespace TxGraph

/-! ## Contents -/

/-- An argument by its content: an input by what it holds, an object by its normalized id. -/
inductive ResolvedArg
  | gas
  | pure (type : Option String) (bytes : Bytes)
  | object (id : String)
  /-- An input that does not exist. -/
  | missing
  | result (index : UInt16)
  | nested (index nth : UInt16)
  deriving DecidableEq, Repr

/-- A command over the contents of its arguments, with its package normalized. -/
inductive ResolvedCommand
  | moveCall (package module function : String) (typeArgs : List String) (args : List ResolvedArg)
  | splitCoins (coin : ResolvedArg) (amounts : List ResolvedArg)
  | mergeCoins (destination : ResolvedArg) (sources : List ResolvedArg)
  | transferObjects (objects : List ResolvedArg) (recipient : ResolvedArg)
  | makeMoveVec (elem : Option String) (elems : List ResolvedArg)
  | publish (modules dependencies : List String)
  | upgrade (modules dependencies : List String) (package : String) (ticket : ResolvedArg)
  | unsupported
  deriving DecidableEq, Repr

namespace Transaction

def resolveArg (inputs : Array TxInput) : TxArg → Except Address.Uncut ResolvedArg
  | .gasCoin => .ok .gas
  | .result index => .ok (.result index)
  | .nested index nth => .ok (.nested index nth)
  | .input index =>
    match inputs[index.toNat]? with
    | some (.pure type bytes) => .ok (.pure type bytes)
    | some (.object id) => do return .object (← Address.normalize id)
    | none => .ok .missing

def resolveCommand (inputs : Array TxInput) : TxCommand → Except Address.Uncut ResolvedCommand
  | .moveCall package module function typeArgs args => do
    let package ← Address.normalize package
    return .moveCall package module function typeArgs (← args.mapM (resolveArg inputs))
  | .splitCoins coin amounts => do
    return .splitCoins (← resolveArg inputs coin) (← amounts.mapM (resolveArg inputs))
  | .mergeCoins destination sources => do
    return .mergeCoins (← resolveArg inputs destination) (← sources.mapM (resolveArg inputs))
  | .transferObjects objects recipient => do
    return .transferObjects (← objects.mapM (resolveArg inputs)) (← resolveArg inputs recipient)
  | .makeMoveVec elem elems => do return .makeMoveVec elem (← elems.mapM (resolveArg inputs))
  | .publish modules dependencies => .ok (.publish modules dependencies)
  | .upgrade modules dependencies package ticket => do
    let package ← Address.normalize package
    return .upgrade modules dependencies package (← resolveArg inputs ticket)
  | .unsupported => .ok .unsupported

def resolved (t : Transaction) : Except Address.Uncut (List ResolvedCommand) :=
  t.commands.mapM (resolveCommand t.inputs.toArray)

end Transaction

/-! ## What is shown -/

def ResolvedArg.shown : ResolvedArg → TraceArg
  | gas => .gas
  | pure type bytes => .pure type (PureValue.canonical type bytes)
  | object id => .object id
  | missing => .pure none .null
  | result index => .result index
  | nested index nth => .nested index nth

namespace ResolvedCommand

def callTarget (package module function : String) : String :=
  package ++ "::" ++ module ++ "::" ++ function

def shown : ResolvedCommand → Option TracedCall
  | moveCall package module function typeArgs args =>
    some ⟨.moveCall, some (callTarget package module function), typeArgs,
      args.map ResolvedArg.shown⟩
  | splitCoins coin amounts =>
    some ⟨.splitCoins, none, [], coin.shown :: amounts.map ResolvedArg.shown⟩
  | mergeCoins destination sources =>
    some ⟨.mergeCoins, none, [], destination.shown :: sources.map ResolvedArg.shown⟩
  | transferObjects objects recipient =>
    some ⟨.transferObjects, none, [], objects.map ResolvedArg.shown ++ [recipient.shown]⟩
  | makeMoveVec elem elems => some ⟨.makeMoveVec, elem, [], elems.map ResolvedArg.shown⟩
  | publish _ _ => some ⟨.publish, none, [], []⟩
  | upgrade _ _ package ticket => some ⟨.upgrade, some package, [], [ticket.shown]⟩
  | unsupported => none

end ResolvedCommand

namespace Transaction

theorem traceArg_eq_map (inputs : Array TxInput) (a : TxArg) :
    traceArg inputs a = ResolvedArg.shown <$> resolveArg inputs a := by
  cases a with
  | input index =>
    simp only [traceArg, resolveArg]
    cases inputs[index.toNat]? with
    | none => rfl
    | some input =>
      cases input with
      | pure type bytes => rfl
      | object id => simp [ResolvedArg.shown]
  | _ => rfl

theorem mapM_traceArg (inputs : Array TxInput) (args : List TxArg) :
    args.mapM (traceArg inputs) = List.map ResolvedArg.shown <$> args.mapM (resolveArg inputs) := by
  induction args with
  | nil => rfl
  | cons a rest ih => simp [List.mapM_cons, traceArg_eq_map, ih]

theorem traceCommand_eq_map (inputs : Array TxInput) (c : TxCommand) :
    traceCommand inputs c = ResolvedCommand.shown <$> resolveCommand inputs c := by
  have hok {α β : Type} (a : α) (f : α → Except Address.Uncut β) : Except.ok a >>= f = f a := rfl
  cases c with
  | publish => rfl
  | unsupported => rfl
  | _ =>
    simp [traceCommand, TxCommand.kind?, TxCommand.target, TxCommand.args, TxCommand.typeArgs,
      resolveCommand, traceArg_eq_map, mapM_traceArg, ResolvedCommand.shown,
      ResolvedCommand.callTarget, hok]

/-- **A trace shows the resolved commands.** -/
theorem callTrace_eq_map (t : Transaction) :
    t.callTrace = List.filterMap ResolvedCommand.shown <$> t.resolved := by
  have hmap (cs : List TxCommand) : cs.mapM (traceCommand t.inputs.toArray) =
      List.map ResolvedCommand.shown <$> cs.mapM (resolveCommand t.inputs.toArray) := by
    induction cs with
    | nil => rfl
    | cons c rest ih => simp [List.mapM_cons, traceCommand_eq_map, ih]
  simp [callTrace, resolved, hmap, List.filterMap_map]

end Transaction

/-! ## Values that look the same -/

namespace PureValue

variable {spelling : String} {bs bs' : Bytes}

/-- The first bytes do not decode at the type, and the others decode into the text that shows the
first. -/
def Mimics (spelling : String) (bs bs' : Bytes) : Prop :=
  (∀ value, decode spelling bs ≠ .ok value) ∧ DataType.ofMove spelling = .string ∧
    decode spelling bs' = .ok (.str (Address.format bs))

/-- The bytes are shown alike though they may differ: they decode into one value, or some are the
text that shows the others. -/
def Blurs (spelling : String) (bs bs' : Bytes) : Prop :=
  (∃ value, decode spelling bs = .ok value ∧ decode spelling bs' = .ok value) ∨
    Mimics spelling bs bs' ∨ Mimics spelling bs' bs

theorem canonical_of_ok {value : Json} (h : decode spelling bs = .ok value) :
    canonical (some spelling) bs = value := by
  simp only [canonical, Option.map_some, h]

theorem canonical_of_undecoded (h : ∀ value, decode spelling bs ≠ .ok value) :
    canonical (some spelling) bs = .str (Address.format bs) := by
  cases hdecode : decode spelling bs with
  | ok value => exact absurd hdecode (h value)
  | error e =>
    simp only [canonical, Option.map_some, hdecode]
    rfl

/-- Only a text can be shown like bytes that do not decode. -/
theorem mimics_of_decode (h : ∀ value, decode spelling bs ≠ .ok value)
    (h' : decode spelling bs' = .ok (.str (Address.format bs))) : Mimics spelling bs bs' := by
  refine ⟨h, ?_, h'⟩
  have hwritten := decode_eq_ok_iff.mp h'
  have haddress (hvalue : Json.str (Address.format bs) = .str (Address.format bs')) : False := by
    obtain rfl := Address.format_inj.mp (Json.str.inj hvalue)
    exact h _ h'
  generalize DataType.ofMove spelling = type at hwritten ⊢
  match type, hwritten with
  | .scalar .bool, ⟨_, hvalue, _⟩ => cases hvalue
  | .scalar .string, _ => rfl
  | .scalar .address, ⟨_, hvalue⟩ => exact (haddress hvalue).elim
  | .integer _, ⟨_, hvalue⟩ =>
    -- the mark of hexadecimal digits is no digit
    have hx : 'x' ∈ (Address.format bs).toList := by simp [Address.toList_format]
    rw [Json.str.inj hvalue] at hx
    exact absurd (Text.isDigit_of_mem_repr hx) (by decide)
  | .object _, ⟨_, _, hvalue⟩ => exact (haddress hvalue).elim
  | .vector _, ⟨_, _, _, hvalue, _⟩ => cases hvalue

/-- **When bytes are shown alike.** -/
theorem canonical_eq_iff :
    canonical (some spelling) bs = canonical (some spelling) bs' ↔
      bs = bs' ∨ Blurs spelling bs bs' := by
  constructor
  · intro h
    by_cases hbs : ∃ value, decode spelling bs = .ok value
    · obtain ⟨value, hvalue⟩ := hbs
      rw [canonical_of_ok hvalue] at h
      by_cases hbs' : ∃ value, decode spelling bs' = .ok value
      · obtain ⟨value', hvalue'⟩ := hbs'
        rw [canonical_of_ok hvalue'] at h
        exact .inr (.inl ⟨value, hvalue, h ▸ hvalue'⟩)
      · have hnone' := not_exists.mp hbs'
        rw [canonical_of_undecoded hnone'] at h
        exact .inr (.inr (.inr (mimics_of_decode hnone' (h ▸ hvalue))))
    · have hnone := not_exists.mp hbs
      rw [canonical_of_undecoded hnone] at h
      by_cases hbs' : ∃ value, decode spelling bs' = .ok value
      · obtain ⟨value', hvalue'⟩ := hbs'
        rw [canonical_of_ok hvalue'] at h
        exact .inr (.inr (.inl (mimics_of_decode hnone (h ▸ hvalue'))))
      · rw [canonical_of_undecoded (not_exists.mp hbs')] at h
        exact .inl (Address.format_inj.mp (Json.str.inj h))
  · rintro (rfl | ⟨value, hvalue, hvalue'⟩ | ⟨hnone, -, htext⟩ | ⟨hnone, -, htext⟩)
    · rfl
    · rw [canonical_of_ok hvalue, canonical_of_ok hvalue']
    · rw [canonical_of_undecoded hnone, canonical_of_ok htext]
    · rw [canonical_of_undecoded hnone, canonical_of_ok htext]

/-- The bytes are shown as they are: they are the tight form of a value, or they do not decode and
are no text. -/
def Legible (spelling : String) (bs : Bytes) : Prop :=
  IsTight spelling bs ∨
    (∀ value, decode spelling bs ≠ .ok value) ∧ DataType.ofMove spelling ≠ .string

theorem Legible.eq (h : Legible spelling bs) (h' : Legible spelling bs')
    (hblurs : Blurs spelling bs bs') : bs = bs' := by
  have htight {bs : Bytes} {value : Json} (hlegible : Legible spelling bs)
      (hvalue : decode spelling bs = .ok value) : IsTight spelling bs :=
    hlegible.resolve_right fun hnone => hnone.1 value hvalue
  have hnone {bs bs' : Bytes} (hlegible : Legible spelling bs) (hmimics : Mimics spelling bs bs') :
      False := by
    obtain ⟨hundecoded, hstring, -⟩ := hmimics
    rcases hlegible with ⟨value, hvalue⟩ | ⟨-, hother⟩
    · exact hundecoded value (decode_eq_ok_iff.mpr hvalue.loose)
    · exact hother hstring
  rcases hblurs with ⟨value, hvalue, hvalue'⟩ | hmimics | hmimics
  · exact (htight h hvalue).eq (htight h' hvalue') hvalue hvalue'
  · exact (hnone h hmimics).elim
  · exact (hnone h' hmimics).elim

end PureValue

/-! ## Commands that look the same -/

namespace ResolvedArg

/-- The arguments are shown alike. -/
inductive Alike : ResolvedArg → ResolvedArg → Prop
  | refl (a : ResolvedArg) : Alike a a
  | blurred {spelling : String} {bs bs' : Bytes} (h : PureValue.Blurs spelling bs bs') :
    Alike (pure (some spelling) bs) (pure (some spelling) bs')

theorem alike_pure {type : Option String} {bs bs' : Bytes}
    (h : PureValue.canonical type bs = PureValue.canonical type bs') :
    Alike (pure type bs) (pure type bs') := by
  cases type with
  | none =>
    obtain rfl := Address.format_inj.mp (Json.str.inj h)
    exact .refl _
  | some spelling =>
    rcases PureValue.canonical_eq_iff.mp h with rfl | hblurs
    · exact .refl _
    · exact .blurred hblurs

theorem shown_eq_iff {a b : ResolvedArg} : a.shown = b.shown ↔ a.Alike b := by
  constructor
  · intro h
    cases a with
    | pure type bs =>
      cases b with
      | pure type' bs' =>
        obtain ⟨rfl, hvalue⟩ := TraceArg.pure.inj h
        exact alike_pure hvalue
      | missing =>
        obtain ⟨rfl, hvalue⟩ := TraceArg.pure.inj h
        cases hvalue
      | _ => cases h
    | missing =>
      cases b with
      | pure type bs =>
        obtain ⟨rfl, hvalue⟩ := TraceArg.pure.inj h
        cases hvalue
      | missing => exact .refl _
      | _ => cases h
    | _ =>
      cases b <;> cases h
      exact .refl _
  · rintro (_ | ⟨hblurs⟩)
    · rfl
    · simp only [shown, PureValue.canonical_eq_iff.mpr (.inr hblurs)]

def Legible : ResolvedArg → Prop
  | pure (some spelling) bytes => PureValue.Legible spelling bytes
  | _ => True

theorem Alike.eq {a b : ResolvedArg} (h : a.Alike b) (ha : a.Legible) (hb : b.Legible) : a = b := by
  cases h with
  | refl => rfl
  | blurred hblurs => rw [PureValue.Legible.eq ha hb hblurs]

theorem map_shown_eq_iff {as bs : List ResolvedArg} :
    as.map shown = bs.map shown ↔ List.Forall₂ Alike as bs := by
  rw [← List.forall₂_eq_eq_eq, List.forall₂_map_left_iff, List.forall₂_map_right_iff]
  exact ⟨fun h => h.imp fun _ _ => shown_eq_iff.mp, fun h => h.imp fun _ _ => shown_eq_iff.mpr⟩

theorem eq_of_alike {as bs : List ResolvedArg} (h : List.Forall₂ Alike as bs)
    (has : ∀ a ∈ as, a.Legible) (hbs : ∀ b ∈ bs, b.Legible) : as = bs := by
  induction h with
  | nil => rfl
  | cons hfirst _ ih =>
    rw [List.forall_mem_cons] at has hbs
    rw [hfirst.eq has.1 hbs.1, ih has.2 hbs.2]

end ResolvedArg

namespace ResolvedCommand

variable {c d : ResolvedCommand}

inductive Alike : ResolvedCommand → ResolvedCommand → Prop
  | moveCall {p m f p' m' f' : String} {typeArgs : List String} {as bs : List ResolvedArg}
    (htarget : callTarget p m f = callTarget p' m' f')
    (hargs : List.Forall₂ ResolvedArg.Alike as bs) :
    Alike (moveCall p m f typeArgs as) (moveCall p' m' f' typeArgs bs)
  | splitCoins {a b : ResolvedArg} {as bs : List ResolvedArg} (hcoin : a.Alike b)
    (hamounts : List.Forall₂ ResolvedArg.Alike as bs) : Alike (splitCoins a as) (splitCoins b bs)
  | mergeCoins {a b : ResolvedArg} {as bs : List ResolvedArg} (hdestination : a.Alike b)
    (hsources : List.Forall₂ ResolvedArg.Alike as bs) : Alike (mergeCoins a as) (mergeCoins b bs)
  | transferObjects {as bs : List ResolvedArg} {a b : ResolvedArg}
    (hobjects : List.Forall₂ ResolvedArg.Alike as bs) (hrecipient : a.Alike b) :
    Alike (transferObjects as a) (transferObjects bs b)
  | makeMoveVec {elem : Option String} {as bs : List ResolvedArg}
    (helems : List.Forall₂ ResolvedArg.Alike as bs) :
    Alike (makeMoveVec elem as) (makeMoveVec elem bs)
  | publish (ms ds ms' ds' : List String) : Alike (publish ms ds) (publish ms' ds')
  | upgrade (ms ds ms' ds' : List String) {package : String} {a b : ResolvedArg}
    (hticket : a.Alike b) : Alike (upgrade ms ds package a) (upgrade ms' ds' package b)
  | unsupported : Alike unsupported unsupported

theorem alike_of_shown (h : c.shown = d.shown) : c.Alike d := by
  cases c <;> cases d <;> simp only [shown, Option.some.injEq, TracedCall.mk.injEq, reduceCtorEq,
    false_and, true_and, List.cons.injEq, ResolvedArg.shown_eq_iff, ResolvedArg.map_shown_eq_iff]
    at h
  case moveCall.moveCall =>
    obtain ⟨htarget, rfl, hargs⟩ := h
    exact .moveCall htarget hargs
  case splitCoins.splitCoins => exact .splitCoins h.1 h.2
  case mergeCoins.mergeCoins => exact .mergeCoins h.1 h.2
  case transferObjects.transferObjects =>
    obtain ⟨hobjects, hrecipient⟩ := List.append_inj' h rfl
    exact .transferObjects (ResolvedArg.map_shown_eq_iff.mp hobjects)
      (ResolvedArg.shown_eq_iff.mp (List.cons.inj hrecipient).1)
  case makeMoveVec.makeMoveVec =>
    obtain ⟨rfl, helems⟩ := h
    exact .makeMoveVec helems
  case publish.publish => exact .publish ..
  case upgrade.upgrade =>
    obtain ⟨rfl, hticket, -⟩ := h
    exact .upgrade _ _ _ _ hticket
  case unsupported.unsupported => exact .unsupported

theorem Alike.shown_eq (h : c.Alike d) : c.shown = d.shown := by
  have harg {a b : ResolvedArg} (hab : a.Alike b) : a.shown = b.shown :=
    ResolvedArg.shown_eq_iff.mpr hab
  have hargs {as bs : List ResolvedArg} (hab : List.Forall₂ ResolvedArg.Alike as bs) :
      as.map ResolvedArg.shown = bs.map ResolvedArg.shown :=
    ResolvedArg.map_shown_eq_iff.mpr hab
  cases h with
  | moveCall htarget has => rw [shown, shown, htarget, hargs has]
  | splitCoins hcoin hamounts => rw [shown, shown, harg hcoin, hargs hamounts]
  | mergeCoins hdestination hsources => rw [shown, shown, harg hdestination, hargs hsources]
  | transferObjects hobjects hrecipient => rw [shown, shown, hargs hobjects, harg hrecipient]
  | makeMoveVec helems => rw [shown, shown, hargs helems]
  | publish => rfl
  | upgrade _ _ _ _ hticket => rw [shown, shown, harg hticket]
  | unsupported => rfl

/-- **When commands are shown alike.** -/
theorem shown_eq_iff : c.shown = d.shown ↔ c.Alike d :=
  ⟨alike_of_shown, Alike.shown_eq⟩

def code : ResolvedCommand → Option (List String × List String)
  | publish modules dependencies => some (modules, dependencies)
  | upgrade modules dependencies _ _ => some (modules, dependencies)
  | _ => none

/-- The parts of the target can be told apart, and the values are shown as they are. -/
def Legible : ResolvedCommand → Prop
  | moveCall package module _ _ args =>
    ':' ∉ package.toList ∧ ':' ∉ module.toList ∧ ∀ a ∈ args, a.Legible
  | splitCoins coin amounts => coin.Legible ∧ ∀ a ∈ amounts, a.Legible
  | mergeCoins destination sources => destination.Legible ∧ ∀ a ∈ sources, a.Legible
  | transferObjects objects recipient => (∀ a ∈ objects, a.Legible) ∧ recipient.Legible
  | makeMoveVec _ elems => ∀ a ∈ elems, a.Legible
  | publish _ _ => True
  | upgrade _ _ _ ticket => ticket.Legible
  | unsupported => True

theorem append_colon_inj {front front' rest rest' : List Char} (h : ':' ∉ front) (h' : ':' ∉ front')
    (heq : front ++ ':' :: rest = front' ++ ':' :: rest') : front = front' ∧ rest = rest' := by
  induction front generalizing front' with
  | nil =>
    cases front' with
    | nil => exact ⟨rfl, (List.cons.inj heq).2⟩
    | cons c front' =>
      obtain ⟨rfl, -⟩ := List.cons.inj heq
      exact absurd List.mem_cons_self h'
  | cons c front ih =>
    cases front' with
    | nil =>
      obtain ⟨rfl, -⟩ := List.cons.inj heq
      exact absurd List.mem_cons_self h
    | cons c' front' =>
      obtain ⟨rfl, htail⟩ := List.cons.inj heq
      rw [List.mem_cons, not_or] at h h'
      obtain ⟨rfl, hrest⟩ := ih h.2 h'.2 htail
      exact ⟨rfl, hrest⟩

/-- A target is read from the left, if the package and the module have no colon. -/
theorem callTarget_inj {p m f p' m' f' : String} (hp : ':' ∉ p.toList) (hm : ':' ∉ m.toList)
    (hp' : ':' ∉ p'.toList) (hm' : ':' ∉ m'.toList) (h : callTarget p m f = callTarget p' m' f') :
    p = p' ∧ m = m' ∧ f = f' := by
  have hchars := congrArg String.toList h
  simp only [callTarget, String.toList_append, show "::".toList = [':', ':'] from rfl,
    List.append_assoc, List.cons_append, List.nil_append] at hchars
  obtain ⟨hpackage, hrest⟩ := append_colon_inj hp hp' hchars
  obtain ⟨hmodule, hfunction⟩ := append_colon_inj hm hm' (List.cons.inj hrest).2
  exact ⟨String.toList_inj.mp hpackage, String.toList_inj.mp hmodule,
    String.toList_inj.mp (List.cons.inj hfunction).2⟩

theorem Alike.eq (h : c.Alike d) (hc : c.Legible) (hd : d.Legible) (hcode : c.code = d.code) :
    c = d := by
  cases h with
  | moveCall htarget hargs =>
    obtain ⟨hp, hm, has⟩ := hc
    obtain ⟨hp', hm', hbs⟩ := hd
    obtain ⟨rfl, rfl, rfl⟩ := callTarget_inj hp hm hp' hm' htarget
    rw [ResolvedArg.eq_of_alike hargs has hbs]
  | splitCoins hcoin hamounts =>
    rw [hcoin.eq hc.1 hd.1, ResolvedArg.eq_of_alike hamounts hc.2 hd.2]
  | mergeCoins hdestination hsources =>
    rw [hdestination.eq hc.1 hd.1, ResolvedArg.eq_of_alike hsources hc.2 hd.2]
  | transferObjects hobjects hrecipient =>
    rw [ResolvedArg.eq_of_alike hobjects hc.1 hd.1, hrecipient.eq hc.2 hd.2]
  | makeMoveVec helems => rw [ResolvedArg.eq_of_alike helems hc hd]
  | publish =>
    cases hcode
    rfl
  | upgrade _ _ _ _ hticket =>
    cases hcode
    rw [hticket.eq hc hd]
  | unsupported => rfl

/-- Commands that are legible are told apart by what is shown of them and their code. -/
theorem eq_of_alike {cs ds : List ResolvedCommand} (h : List.Forall₂ Alike cs ds)
    (hcs : ∀ c ∈ cs, c.Legible) (hds : ∀ d ∈ ds, d.Legible) (hcode : cs.map code = ds.map code) :
    cs = ds := by
  induction h with
  | nil => rfl
  | cons hfirst _ ih =>
    rw [List.forall_mem_cons] at hcs hds
    obtain ⟨hhead, htail⟩ := List.cons.inj hcode
    rw [hfirst.eq hcs.1 hds.1 hhead, ih hcs.2 hds.2 htail]

/-- Without commands of other kinds nothing is skipped. -/
theorem filterMap_shown_eq_iff {cs ds : List ResolvedCommand} (hcs : unsupported ∉ cs)
    (hds : unsupported ∉ ds) :
    cs.filterMap shown = ds.filterMap shown ↔ List.Forall₂ Alike cs ds := by
  have hall {cs : List ResolvedCommand} (h : unsupported ∉ cs) :
      (cs.filterMap shown).map some = cs.map shown := by
    induction cs with
    | nil => rfl
    | cons c rest ih =>
      rw [List.mem_cons, not_or] at h
      obtain ⟨call, hcall⟩ : ∃ call, c.shown = some call := by
        cases c <;> first | exact ⟨_, rfl⟩ | exact absurd rfl h.1
      rw [List.filterMap_cons_some hcall, List.map_cons, List.map_cons, ih h.2, hcall]
  have hsome : Function.Injective (List.map (some : TracedCall → Option TracedCall)) :=
    List.map_injective_iff.mpr fun _ _ => Option.some.inj
  rw [← hsome.eq_iff, hall hcs, hall hds, ← List.forall₂_eq_eq_eq, List.forall₂_map_left_iff,
    List.forall₂_map_right_iff]
  exact ⟨fun h => h.imp fun _ _ => shown_eq_iff.mp, fun h => h.imp fun _ _ => shown_eq_iff.mpr⟩

end ResolvedCommand

namespace Transaction

theorem unsupported_of_resolveCommand {inputs : Array TxInput} {c : TxCommand}
    (h : resolveCommand inputs c = .ok .unsupported) : c = .unsupported := by
  cases c with
  | unsupported => rfl
  | _ => simp [resolveCommand, bind_eq_ok, pure, Except.pure] at h

theorem unsupported_notMem_resolved {t : Transaction} {cs : List ResolvedCommand}
    (hkinds : .unsupported ∉ t.commands) (h : t.resolved = .ok cs) : .unsupported ∉ cs := by
  have hmem {commands : List TxCommand} {cs : List ResolvedCommand}
      (hcs : commands.mapM (resolveCommand t.inputs.toArray) = .ok cs)
      (hother : .unsupported ∈ cs) : .unsupported ∈ commands := by
    induction commands generalizing cs with
    | nil =>
      cases hcs
      cases hother
    | cons c rest ih =>
      rw [List.mapM_cons] at hcs
      obtain ⟨first, hfirst, htail⟩ := bind_eq_ok.mp hcs
      obtain ⟨others, hothers, hcons⟩ := bind_eq_ok.mp htail
      cases hcons
      rcases List.mem_cons.mp hother with rfl | hrest
      · rw [unsupported_of_resolveCommand hfirst]
        exact List.mem_cons_self
      · exact List.mem_cons_of_mem _ (ih hothers hrest)
  exact fun hother => hkinds (hmem h hother)

/-- **What a trace tells apart.** Two transactions have one trace exactly if their resolved commands
are alike, one by one. If all of these are legible, they are equal exactly if the traces are and the
same code is published. -/
theorem callTrace_eq_iff_alike {t t' : Transaction} {trace trace' : CallTrace}
    (hkinds : .unsupported ∉ t.commands) (hkinds' : .unsupported ∉ t'.commands)
    (h : t.callTrace = .ok trace) (h' : t'.callTrace = .ok trace') :
    ∃ cs cs', t.resolved = .ok cs ∧ t'.resolved = .ok cs' ∧
      (trace = trace' ↔ List.Forall₂ ResolvedCommand.Alike cs cs') ∧
      ((∀ c ∈ cs ++ cs', c.Legible) →
        (cs = cs' ↔ trace = trace' ∧
          cs.map ResolvedCommand.code = cs'.map ResolvedCommand.code)) := by
  have hresolved {t : Transaction} {trace : CallTrace} (h : t.callTrace = .ok trace) :
      ∃ cs, t.resolved = .ok cs ∧ trace = cs.filterMap ResolvedCommand.shown := by
    rw [callTrace_eq_map] at h
    cases hcs : t.resolved with
    | error e =>
      rw [hcs] at h
      cases h
    | ok cs =>
      rw [hcs] at h
      cases h
      exact ⟨cs, rfl, rfl⟩
  obtain ⟨cs, hcs, rfl⟩ := hresolved h
  obtain ⟨cs', hcs', rfl⟩ := hresolved h'
  have halike := ResolvedCommand.filterMap_shown_eq_iff (unsupported_notMem_resolved hkinds hcs)
    (unsupported_notMem_resolved hkinds' hcs')
  refine ⟨cs, cs', hcs, hcs', halike, fun hlegible => ?_⟩
  rw [List.forall_mem_append] at hlegible
  constructor
  · rintro rfl
    exact ⟨rfl, rfl⟩
  · rintro ⟨htrace, hcode⟩
    exact ResolvedCommand.eq_of_alike (halike.mp htrace) hlegible.1 hlegible.2 hcode

/-- A vector of one vector, and a package. -/
def packAndPublish (bytes : Bytes) (modules : List String) : Transaction where
  sender := none
  gasBudget := none
  inputs := [.pure (some "vector<u8>") bytes]
  commands := [.makeMoveVec (some "vector<u8>") [.input 0], .publish modules []]

/-- Neither the form of a length nor the modules of a package are seen in the trace. -/
theorem callTrace_eq_iff_alike_packAndPublish :
    ∃ trace cs cs', (packAndPublish [0] ["oRzrCwY="]).callTrace = .ok trace ∧
      (packAndPublish [128, 0] []).callTrace = .ok trace ∧
      (packAndPublish [0] ["oRzrCwY="]).resolved = .ok cs ∧
      (packAndPublish [128, 0] []).resolved = .ok cs' ∧
      cs ≠ cs' ∧ List.Forall₂ ResolvedCommand.Alike cs cs' := by
  have h : (packAndPublish [0] ["oRzrCwY="]).callTrace =
      .ok [⟨.makeMoveVec, some "vector<u8>", [], [.pure (some "vector<u8>") (.arr [])]⟩,
        ⟨.publish, none, [], []⟩] := by
    decide +kernel
  have h' : (packAndPublish [128, 0] []).callTrace =
      .ok [⟨.makeMoveVec, some "vector<u8>", [], [.pure (some "vector<u8>") (.arr [])]⟩,
        ⟨.publish, none, [], []⟩] := by
    decide +kernel
  have hresolved (bytes : Bytes) (modules : List String) : (packAndPublish bytes modules).resolved =
      .ok [.makeMoveVec (some "vector<u8>") [.pure (some "vector<u8>") bytes],
        .publish modules []] := rfl
  obtain ⟨cs, cs', hcs, hcs', halike, -⟩ := callTrace_eq_iff_alike (by decide) (by decide) h h'
  refine ⟨_, cs, cs', h, h', hcs, hcs', fun hsame => ?_, halike.mp rfl⟩
  rw [hresolved] at hcs hcs'
  cases hcs
  cases hcs'
  cases hsame

end Transaction

end TxGraph
