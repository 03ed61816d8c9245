import TxGraph.Proofs.Lowering.Simulation

/-!
# Walks on one target

A target that is asked the same gives the same answer. So walks that resolve operands alike do the
same, however far each of them may follow variables (`Manner.operations_follow`), and it is the same
for them whether the sender is put in beforehand (`simulates_same`). What a walk may fail with is
settled by what resolving an operand fails with, what the target refuses, and whether the resolved
values have the shape that their use asks for (`Manner`).
-/

namespace TxGraph

theorem Literal.leaves_true : (value : Literal) → value.Leaves fun _ => True
  | bool _ => trivial
  | string _ => trivial
  | address _ => trivial
  | number _ => trivial
  | integer _ _ => trivial
  | sender => trivial
  | bytes _ => trivial
  | list items => go items
where
  go : (items : List Literal) → Leaves.all (fun _ => True) items
    | [] => trivial
    | item :: rest => ⟨leaves_true item, go rest⟩

namespace Lowering

variable {σ η α β : Type}

/-! ## Equal states and handles -/

def Correspondence.same {name : String → String} (hname : Function.Injective name)
    (fill : Option String) : Correspondence σ σ η η where
  name := name
  name_injective := hname
  fill := fill
  state := Eq
  pass _ _ := Eq
  arg _ _ _ := Eq
  arg_of_pass h := h

open Correspondence Lockstep

section Same

variable {name : String → String} {hname : Function.Injective name} {fill : Option String}

theorem name_same : (same (σ := σ) (η := η) hname fill).name = name := rfl

theorem step_same {exempt : Refusal → Prop} {s : σ} (x : Except Refusal (α × σ))
    {post : σ → σ → α → α → Prop} (hpost : ∀ s a, post s s a a) :
    (same (η := η) hname fill).Step exempt s s post x x := by
  cases x with
  | error e => exact .error e
  | ok result => exact .ok ⟨rfl, ⟨id, id⟩, hpost _ _⟩

theorem eq_of_forall₂_eq {as bs : List η} (h : List.Forall₂ Eq as bs) : as = bs :=
  (congrFun₂ List.forall₂_eq_eq_eq as bs).mp h

theorem forall₂_eq_self (as : List η) : List.Forall₂ Eq as as :=
  List.forall₂_same.mpr fun _ _ => rfl

theorem resolved_same {s t : σ} : (x : Resolved η) →
    (same hname none).resolved (fun _ => True) s t x x
  | .literal l => ⟨rfl, l.leaves_true⟩
  | .handle _ => rfl
  | .list items => go items
where
  go : (items : List (Resolved η)) →
      resolved.all (same hname none) (fun _ => True) s t items items
    | [] => trivial
    | item :: rest => ⟨resolved_same item, go rest⟩

end Same

/-- The target has no use for names, or they stay the same. -/
structure Ignores (T : Target σ η) (name : String → String) : Prop where
  object (o : ObjectRef) (symbol : Option String) :
    T.object o (symbol.map name) = T.object o symbol
  pure (kind : ParamKind) (value : Literal) (symbol : Option String) :
    T.pure kind value (symbol.map name) = T.pure kind value symbol
  splitCoins (coin : η) (amounts : List η) (out : List String) :
    T.splitCoins coin amounts (out.map name) = T.splitCoins coin amounts out
  makeMoveVec (elem : Option String) (elems : List η) (out : Option String) :
    T.makeMoveVec elem elems (out.map name) = T.makeMoveVec elem elems out
  moveCall (callee : Callee) (args : List η) (out : List String) :
    T.moveCall callee args (out.map name) = T.moveCall callee args out
  publish (modules dependencies : List String) (out : String) :
    T.publish modules dependencies (name out) = T.publish modules dependencies out
  upgrade (modules dependencies : List String) (package : String) (ticket : η) (out : String) :
    T.upgrade modules dependencies package ticket (name out) =
      T.upgrade modules dependencies package ticket out

theorem ignores_id (T : Target σ η) : Ignores T id := by
  constructor <;> intros <;> simp

def anyProgram : Promise where
  leaf _ := True
  package _ := True

/-- A target does not care where the sender is put in. -/
theorem simulates_same {T : Target σ η} {name : String → String} (hT : Ignores T name)
    (hname : Function.Injective name) {fill : Option String} (sender : Option String)
    (hfill : fill = none ∨ fill = sender) :
    Simulates T T (same hname fill) sender anyProgram fun _ => False where
  fill := hfill
  object o symbol hs := by
    cases hs
    exact hT.object o symbol ▸ step_same _ fun _ _ => rfl
  pure kind value symbol hs _ := by
    cases hs
    exact hT.pure kind _ symbol ▸ step_same _ fun _ _ => rfl
  splitCoins out hs hcoin _ hamounts := by
    cases hs
    cases hcoin
    cases eq_of_forall₂_eq (hamounts.forall₂ id)
    exact hT.splitCoins _ _ out ▸ step_same _ fun _ => forall₂_eq_self
  mergeCoins hs hdestination hsources := by
    cases hs
    cases hdestination
    cases eq_of_forall₂_eq hsources
    exact step_same _ fun _ _ => trivial
  transferObjects hs hobjects hrecipient := by
    cases hs
    cases eq_of_forall₂_eq hobjects
    cases hrecipient
    exact step_same _ fun _ _ => trivial
  makeMoveVec kind elem out hs helems _ := by
    cases hs
    cases eq_of_forall₂_eq helems
    exact hT.makeMoveVec elem _ out ▸ step_same _ fun _ _ => rfl
  moveCall callee kinds out hs _ hargs := by
    cases hs
    cases eq_of_forall₂_eq (hargs.forall₂ id)
    exact hT.moveCall callee _ out ▸ step_same _ fun _ => forall₂_eq_self
  publish modules dependencies out hs := by
    cases hs
    exact hT.publish modules dependencies out ▸ step_same _ fun _ _ => rfl
  upgrade modules dependencies package out hs _ hticket := by
    cases hs
    cases hticket
    exact hT.upgrade modules dependencies package _ out ▸ step_same _ fun _ _ => rfl

theorem echoes (T : Target σ η) (sender : Option String) :
    Simulates T T (same Function.injective_id none) sender anyProgram fun _ => False :=
  simulates_same (ignores_id T) Function.injective_id sender (.inl rfl)

/-- Two walks on one kind of target without exempt refusals end alike. -/
theorem run_alike {T : Target σ η} {r : Correspondence σ σ η η} {sender : Option String}
    (S : Simulates T T r sender anyProgram fun _ => False) (p : Program) {s t : σ}
    (hs : r.state s t) :
    Follows (fun _ => False) r.state
      ((run T sender (p.given r.fill) s).mapError (LowerError.rename r.name))
      (run T sender (p.rename r.name) t) := by
  have h := run_follows S p hs (fun v _ => v.init.leaves_true) fun op _ =>
    ⟨fun value _ => value.leaves_true, False.elim, fun _ _ => trivial⟩
  exact h.mono_exempt fun e he => by cases e <;> exact he

/-! ## Computations that leave the environment alone -/

/-- The computation leaves the environment alone, fails only with errors of which `err` holds, and
gives a value with the property. -/
def Quiet (err : LowerError → Prop) (env : Directory (Entry η)) (x : WalkM σ η α)
    (post : α → Prop) : Prop :=
  ∀ w : Walk σ η, w.env = env → Ensures err w x fun a w' => w'.env = env ∧ post a

namespace Quiet

variable {err : LowerError → Prop} {env : Directory (Entry η)} {x : WalkM σ η α} {post : α → Prop}
  {next : β → Prop}

theorem pure {a : α} (h : post a) : Quiet (σ := σ) err env (pure a) post :=
  fun _ hw => .pure ⟨hw, h⟩

theorem throw {e : LowerError} (h : err e) : Quiet (σ := σ) err env (throw e) post :=
  fun _ _ => .throw h

theorem bind {f : α → WalkM σ η β} (h : Quiet err env x post)
    (hf : ∀ a, post a → Quiet err env (f a) next) : Quiet err env (x >>= f) next :=
  fun w hw => .bind (h w hw) fun a w' ⟨hw', ha⟩ => hf a ha w' hw'

theorem get_bind {f : Walk σ η → WalkM σ η β} (hf : ∀ w, w.env = env → Quiet err env (f w) next) :
    Quiet err env (get >>= f) next :=
  fun w hw => .get_bind (hf w hw w hw)

theorem mono {post' : α → Prop} (h : Quiet err env x post) (hp : ∀ a, post a → post' a) :
    Quiet err env x post' :=
  fun w hw => (h w hw).mono fun a _ ⟨hw', ha⟩ => ⟨hw', hp a ha⟩

/-- A call of the target fails as the target refuses it. -/
theorem call (c : Context σ η) {f : σ → Except Refusal (α × σ)}
    (hf : ∀ s, Ends (fun e => err (e.report c.site)) (fun _ => True) (f s)) :
    Quiet err env (c.call f) fun _ => True := by
  rintro ⟨target, e, memo⟩ hw
  have hends := hf target
  unfold Ensures StateT.run Context.call
  dsimp only
  generalize f target = answer at hends ⊢
  cases hends with
  | ok h => exact .ok ⟨hw, h⟩
  | @error r h => cases r <;> exact .error h

end Quiet

/-- The errors of operands that no name is the cause of. -/
def OfUse : LowerError → Prop
  | .undefinedOperand _ _ => True
  | .operandShape _ _ _ => True
  | .encode _ _ => True
  | .uncut _ => True
  | _ => False

section Resolving

variable (c : Context σ η) {err : LowerError → Prop} {env : Directory (Entry η)}
  {expand : String → Operand → WalkM σ η (Resolved η)}

/-- A name stands for its handle or for its value. Unless it may be missed, it is one of a handle, or
of a value that is no name. -/
theorem ref_quiet {name : String} {post : Resolved η → Prop}
    (hmissing : err (.unresolvedSymbol c.site name) ∨ ∃ entry,
      Directory.get? env name = some entry ∧ ∀ value, entry = .init value → symbolOf value = none)
    (hbound : ∀ handle, Directory.get? env name = some (.bound handle) → post (.handle handle))
    (hinit : ∀ value, Directory.get? env name = some (.init value) →
      Quiet err env (expand name value) post) (slot : Slot) (symbol : Option String) :
    Quiet err env (c.resolveWith expand slot symbol (.ref name)) post := by
  rw [resolveWith_ref]
  refine .get_bind fun w hw => ?_
  rw [hw]
  cases hentry : Directory.get? env name with
  | none => exact .throw (hmissing.resolve_right (by simp [hentry]))
  | some entry =>
    cases entry with
    | bound handle => exact .pure (hbound handle hentry)
    | init value =>
      dsimp only
      split
      case isTrue hsome =>
        refine .throw (hmissing.resolve_right ?_)
        rintro ⟨_, hentry', hnone⟩
        rw [hnone value (Option.some.inj (hentry'.symm.trans hentry))] at hsome
        cases hsome
      case isFalse => exact hinit value hentry

/-- An operand is resolved as its references are. -/
theorem resolveWith_quiet (herr : ∀ e, OfUse e → err e) (slot : Slot) :
    (symbol : Option String) → (value : Operand) →
    (∀ name ∈ value.refs, ∀ symbol,
      Quiet err env (c.resolveWith expand slot symbol (.ref name)) fun _ => True) →
    Quiet err env (c.resolveWith expand slot symbol value) fun _ => True
  | _, .absent, _ => .throw (herr _ trivial)
  | symbol, .ref name, h => h name List.mem_cons_self symbol
  | _, .constant _, _ => .pure trivial
  | _, .integer _ _, _ => .pure trivial
  | _, .object _, _ =>
    .bind (.call c fun _ => (Ends.always _).mono_error fun e _ => herr _ (by cases e <;> trivial))
      fun _ _ => .pure trivial
  | _, .vector items, h => .bind (items_quiet items h) fun _ _ => .pure trivial
where
  items_quiet : (items : List Operand) →
      (∀ name ∈ Operand.refs.allRefs items, ∀ symbol,
        Quiet err env (c.resolveWith expand slot symbol (.ref name)) fun _ => True) →
      Quiet err env (Context.resolveWith.resolveItems c expand slot items) fun _ => True
    | [], _ => .pure trivial
    | item :: rest, h =>
      .bind (resolveWith_quiet herr slot none item fun name hname =>
          h name (List.mem_append_left _ hname)) fun _ _ =>
        .bind (items_quiet rest fun name hname => h name (List.mem_append_right _ hname))
          fun _ _ => .pure trivial

end Resolving

/-! ## What a walk may come to -/

/-- What a walk may fail with, and what the values are to be like that it uses at a kind. Another
may follow it but for some errors. -/
structure Manner (η : Type) where
  raised : LowerError → Prop
  exempt : LowerError → Prop := fun _ => False
  refused : Refusal → Prop := fun _ => True
  fits : ParamKind → Resolved η → Prop := fun _ _ => True

namespace Manner

variable (m : Manner η) (c₁ c₂ : Context σ η)

structure Met : Prop where
  refuses : Refuses m.refused c₁.target
  reports (e : Refusal) : m.refused e → m.raised (e.report c₁.site)
  items {kind : ParamKind} {items : List (Resolved η)} : m.fits kind (.list items) →
    ∀ item ∈ items, m.fits (Context.elemKind kind) item
  noHandle {l : Literal} : m.fits .handle (.literal l) →
    ∀ slot, m.raised (.operandShape c₁.site slot .handle)
  literal {kind : ParamKind} {l : Literal} (h : m.fits kind (.literal l))
    (symbol : Option String) (s : σ) :
    Ends m.refused (fun _ => True) (c₁.target.pure kind (l.given c₁.sender) symbol s)

/-- The operand is resolved to a value that serves the use, and alike by the second walk. -/
def Resolves (env : Directory (Entry η)) (use : Use) (value : Operand) : Prop :=
  ∀ slot, Quiet m.raised env (c₁.resolve slot value) (asks m.raised m.fits c₁.site use) ∧
    ∀ w : Walk σ η, w.env = env →
      Follows m.exempt Eq ((c₁.resolve slot value).run w) ((c₂.resolve slot value).run w)

variable {c₁ c₂} in
/-- Nothing is asked of values, nor of the target. -/
theorem met_of_lax {raised exempt : LowerError → Prop} (h : ∀ e, OfUse e → raised e) :
    Manner.Met { raised, exempt } c₁ where
  refuses := .any _
  reports e _ := by cases e <;> exact h _ trivial
  items _ _ _ := trivial
  noHandle _ _ := h _ trivial
  literal _ _ _ := .always _

variable {c₁ c₂} in
theorem resolves_of_lax {raised exempt : LowerError → Prop} (h : ∀ e, OfUse e → raised e)
    {env : Directory (Entry η)} {use : Use} {value : Operand}
    (hquiet : ∀ slot, Quiet raised env (c₁.resolve slot value) fun _ => True)
    (hfollows : ∀ slot, ∀ w : Walk σ η, w.env = env →
      Follows exempt Eq ((c₁.resolve slot value).run w) ((c₂.resolve slot value).run w)) :
    Manner.Resolves { raised, exempt } c₁ c₂ env use value := by
  refine fun slot => ⟨(hquiet slot).mono fun found _ => ?_, hfollows slot⟩
  exact asks_of_lax (fun _ _ => h _ trivial) (fun _ _ => trivial) use found

/-- The two walks are one. -/
def lockstep (env : Directory (Entry η) → Prop) (operand : Use → Operand → Prop) :
    Lockstep (same (σ := σ) (η := η) Function.injective_id none) where
  walk w v := w = v ∧ env w.env
  exempt := m.exempt
  raised := m.raised
  refused := m.refused
  fits := m.fits
  operand := operand
  named symbol symbol' _ := symbol' = symbol

variable {m c₁ c₂}

theorem encodeLiteral_quiet (M : m.Met c₁) {env : Directory (Entry η)} {kind : ParamKind}
    {l : Literal} (h : m.fits kind (.literal l)) (symbol : Option String) :
    Quiet m.raised env (c₁.encodeLiteral kind l symbol) fun _ => True := by
  have hcall : Quiet m.raised env (c₁.call (c₁.target.pure kind (l.given c₁.sender) symbol))
      fun _ => True := .call c₁ fun s => (M.literal h symbol s).mono_error M.reports
  refine .get_bind fun w _ => ?_
  cases symbol with
  | none => exact .bind hcall fun _ _ => .pure trivial
  | some name =>
    simp only [Option.bind_some]
    cases w.memo.lookup (kind, name) with
    | some handle => exact .pure trivial
    | none => exact .bind hcall fun _ _ _ hw => .modify_bind (.pure ⟨hw, trivial⟩)

section Steps

variable {T : Target σ η} {site : Site} {sender : Option String} {d₁ d₂ : Nat}
  {env : Directory (Entry η) → Prop} {operand : Use → Operand → Prop} {w : Walk σ η}

theorem together_of_follows {x y : WalkM σ η α} {post : α → Prop} (hw : env w.env)
    (hx : Quiet m.raised w.env x post) (h : Follows m.exempt Eq (x.run w) (y.run w)) :
    (m.lockstep env operand).Together w w (fun _ _ a b => a = b ∧ post a) x y := by
  have hends := hx w rfl
  refine ⟨?_, hends.mono fun _ _ _ => trivial⟩
  rw [name_same, LowerError.mapError_rename_id]
  refine (h.and_ends hends).mono ?_
  rintro ⟨a, v⟩ _ ⟨rfl, henv, ha⟩
  exact ⟨⟨rfl, henv ▸ hw⟩, ⟨id, id⟩, rfl, ha⟩

theorem step_of_same {v : Walk σ η} {x : Except Refusal (α × σ)} {y : Except Refusal (β × σ)}
    {post : σ → σ → α → β → Prop} (hw : w = v ∧ env w.env)
    (h : (same (η := η) Function.injective_id none).Step (fun _ => False) w.target v.target post
      x y) :
    (m.lockstep env operand).Step w v post x y := by
  obtain ⟨rfl, hw⟩ := hw
  refine (Follows.mono h ?_).mono_exempt fun _ => False.elim
  rintro ⟨a, s⟩ ⟨b, _⟩ ⟨rfl, hk, hpost⟩
  exact ⟨⟨rfl, hw⟩, hk, hpost⟩

theorem issues (M : m.Met ⟨T, site, sender, d₁⟩)
    (hresolve : ∀ use value {w : Walk σ η}, operand use value → env w.env →
      m.Resolves (Context.mk T site sender d₁) ⟨T, site, sender, d₂⟩ w.env use value) :
    (m.lockstep env operand).Issues ⟨T, site, sender, d₁⟩ ⟨T, site, sender, d₂⟩
      fun _ => True where
  refuses := M.refuses
  reports := M.reports
  items := M.items
  noHandle := M.noHandle
  site := rfl
  named_none _ := rfl
  resolve slot use v w _ hv hw := by
    obtain ⟨rfl, hw⟩ := hw
    obtain ⟨hquiet, hfollows⟩ := hresolve use v hv hw slot
    rw [name_same, v.rename_id]
    refine (together_of_follows hw hquiet (hfollows w rfl)).mono ?_
    rintro s t x _ ⟨rfl, hasks⟩
    refine ⟨resolved_same x, hasks, fun _ _ => ?_⟩
    exact congrArg symbolOf v.rename_id
  literal kind l symbol _ w _ _ hfits hname hw := by
    obtain ⟨rfl, hw⟩ := hw
    cases hname
    exact (together_of_follows hw (encodeLiteral_quiet M hfits symbol) (.refl _)).mono And.left
  vector kind _ _ _ _ hw h :=
    step_of_same hw
      ((echoes T sender).makeMoveVec kind _ none (congrArg _ hw.1) h (.inr ⟨rfl, rfl⟩))
  splitCoins _ hw ha has :=
    step_of_same hw ((echoes T sender).splitCoins _ (congrArg _ hw.1) ha False.elim has)
  mergeCoins hw ha has := step_of_same hw ((echoes T sender).mergeCoins (congrArg _ hw.1) ha has)
  transferObjects hw has ha :=
    step_of_same hw ((echoes T sender).transferObjects (congrArg _ hw.1) has ha)
  makeMoveVec elem out _ _ _ _ hw h :=
    step_of_same hw ((echoes T sender).makeMoveVec _ elem (some out) (congrArg _ hw.1) h (.inl rfl))
  moveCall _ _ _ _ _ _ hw has :=
    step_of_same hw ((echoes T sender).moveCall _ _ _ (congrArg _ hw.1) trivial has)
  publish modules dependencies out _ _ hw :=
    step_of_same hw ((echoes T sender).publish modules dependencies out (congrArg _ hw.1))
  upgrade _ hw h := step_of_same hw ((echoes T sender).upgrade _ _ _ _ (congrArg _ hw.1) trivial h)

end Steps

/-- Operations one after the other. What holds of the environment may depend on what is left to
do. -/
theorem operations_follow {T : Target σ η} {sender : Option String} {d₁ : Nat}
    (M : ∀ site, m.Met ⟨T, site, sender, d₁⟩) (d₂ : Nat)
    (env : List Operation → Directory (Entry η) → Prop)
    (hresolve : ∀ site op rest d, env (op :: rest) d → ∀ u ∈ Use.all op,
      m.Resolves (Context.mk T site sender d₁) ⟨T, site, sender, d₂⟩ d u.1 u.2)
    (hbinds : ∀ op rest d handles, env (op :: rest) d →
      (Complete T → op.Balanced → handles.length = op.outputs.length) →
      env rest (bindEnv op.outputs handles d))
    (i : Nat) (ops : List Operation) {w : Walk σ η} (h : env ops w.env) :
    Follows m.exempt Eq ((operations T sender d₁ i ops).run w)
      ((operations T sender d₂ i ops).run w) ∧
    Ensures m.raised w (operations T sender d₁ i ops) fun _ _ => True := by
  -- the operands in question are those of the next operation
  let operand : List Operation → Use → Operand → Prop := fun ops use value =>
    ∃ op rest, ops = op :: rest ∧ (use, value) ∈ Use.all op
  let walk : List Operation → Walk σ η → Walk σ η → Prop := fun ops w v => w = v ∧ env ops w.env
  let L := m.lockstep (σ := σ) (env ops) (operand ops)
  have hissues (site : Site) (op : Operation) (rest : List Operation) :
      (L.along (walk (op :: rest)) (operand (op :: rest))).Issues ⟨T, site, sender, d₁⟩
        ⟨T, site, sender, d₂⟩ fun _ => True := by
    refine issues (M site) ?_
    rintro use value w ⟨_, _, ⟨⟩, hu⟩ hw
    exact hresolve site op rest w.env hw _ hu
  have hnames (op : Operation) (rest : List Operation) (_ : True) :
      (L.along (walk (op :: rest)) (operand (op :: rest))).Binds (walk rest) T op := by
    rintro w _ as bs ⟨rfl, hw⟩ hpass hlen
    cases eq_of_forall₂_eq hpass
    refine ⟨?_, hbinds op rest w.env as hw hlen⟩
    rw [name_same, List.map_id]
  have hops := operations_together walk operand hissues hnames
    (fun op rest _ u hu => ⟨op, rest, rfl, hu⟩) (fun _ _ _ hw => ⟨by rw [hw.1], hw.2⟩) i ops
    (fun _ _ => trivial) ⟨rfl, h⟩
  rw [show L.first = id from rfl, Operation.map_mapOperands_id, name_same,
    Operation.map_rename_id] at hops
  refine ⟨?_, hops.2⟩
  have hfollows := hops.1
  rw [name_same, LowerError.mapError_rename_id] at hfollows
  exact hfollows.mono fun a b hab => Prod.ext rfl hab.1.1

end Manner

end Lowering

end TxGraph
