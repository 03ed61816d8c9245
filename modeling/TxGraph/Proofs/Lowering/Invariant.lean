import TxGraph.Proofs.Lowering.Simulation

/-!
# What a target keeps while operands are gathered

Between two commands the walk resolves and encodes operands. It then asks the target for objects, for
pure values and for vectors, and hands the handles on that it is given. So what these three calls
keep of a target's state and handles is kept by every function of the walk short of an operation:
the walk is in step with itself.
-/

namespace TxGraph.Lowering

variable {σ η α β : Type}

/-- What is to hold of the states of a target, and of its handles in a state. -/
structure Invariant (σ η : Type) where
  state : σ → Prop
  handle : σ → η → Prop

namespace Invariant

variable (I : Invariant σ η)

def Keeps (s s' : σ) : Prop :=
  ∀ a, I.handle s a → I.handle s' a

theorem Keeps.refl (s : σ) : I.Keeps s s := fun _ h => h

structure Next (s s' : σ) : Prop where
  state : I.state s'
  keeps : I.Keeps s s'

/-- The state of the target is good, and so are the handles at hand. -/
structure Stands (w : Walk σ η) : Prop where
  state : I.state w.target
  env {name : String} {a : η} : Directory.get? w.env name = some (.bound a) → I.handle w.target a
  memo {kind : ParamKind} {symbol : String} {a : η} :
    w.memo.lookup (kind, symbol) = some a → I.handle w.target a

/-- The computation may fail; otherwise it gives a value with the property, and keeps what stood. -/
def Yields (w : Walk σ η) (x : WalkM σ η α) (post : σ → α → Prop) : Prop :=
  Ensures (fun _ => True) w x fun a w' =>
    I.Stands w' ∧ I.Keeps w.target w'.target ∧ post w'.target a

def diagonal : Correspondence σ σ η η where
  state s t := s = t ∧ I.state s
  pass s _ a b := a = b ∧ I.handle s a
  arg _ s _ a b := a = b ∧ I.handle s a
  arg_of_pass h := h

end Invariant

/-- The calls by which operands are gathered keep the invariant. -/
structure Gathers (T : Target σ η) (I : Invariant σ η) : Prop where
  object {s s' : σ} {a : η} (o : ObjectRef) (symbol : Option String) : I.state s →
    T.object o symbol s = .ok (a, s') → I.Next s s' ∧ I.handle s' a
  pure {s s' : σ} {a : η} (kind : ParamKind) (value : Literal) (symbol : Option String) :
    I.state s → T.pure kind value symbol s = .ok (a, s') → I.Next s s' ∧ I.handle s' a
  makeMoveVec {s s' : σ} {a : η} {elems : List η} (elem : Option String) : I.state s →
    (∀ e ∈ elems, I.handle s e) → T.makeMoveVec elem elems none s = .ok (a, s') →
    I.Next s s' ∧ I.handle s' a

namespace Invariant

variable {I : Invariant σ η} {s s' : σ} {w : Walk σ η} {post : σ → α → Prop}

theorem Yields.andThen {x : WalkM σ η α} {f : α → WalkM σ η β} {last : β → Walk σ η → Prop}
    (h : I.Yields w x post)
    (hf : ∀ {a w'}, I.Stands w' → I.Keeps w.target w'.target → post w'.target a →
      Ensures (fun _ => True) w' (f a) last) : Ensures (fun _ => True) w (x >>= f) last :=
  Ensures.bind h fun _ _ ⟨hw, hk, ha⟩ => hf hw hk ha

/-- A call after which something else holds, but of the same handles. -/
theorem Stands.call {J : Invariant σ η} (c : Context σ η) {f : σ → Except Refusal (α × σ)}
    (hw : I.Stands w) (hf : ∀ {a s'}, f w.target = .ok (a, s') →
      J.state s' ∧ (∀ b, I.handle w.target b → J.handle s' b) ∧ post s' a) :
    Ensures (fun _ => True) w (c.call f) fun a w' => J.Stands w' ∧ post w'.target a := by
  obtain ⟨s, env, memo⟩ := w
  unfold Ensures StateT.run Context.call
  dsimp only at hf ⊢
  split
  case h_1 a s' heq =>
    obtain ⟨hstate, hk, ha⟩ := hf heq
    exact .ok ⟨⟨hstate, fun h => hk _ (hw.env h), fun h => hk _ (hw.memo h)⟩, ha⟩
  case h_2 => exact .error trivial
  case h_3 => exact .error trivial

theorem Stands.bindEnv (hw : I.Stands w) (names : List String) {handles : List η}
    (h : ∀ a ∈ handles, I.handle w.target a) :
    I.Stands { w with env := bindEnv names handles w.env } := by
  refine ⟨hw.state, fun hentry => ?_, hw.memo⟩
  rcases get?_bindEnv hentry with hold | ⟨i, a, -, ha, heq⟩
  · exact hw.env hold
  · cases heq
    exact h _ (List.mem_of_getElem? ha)

/-! ## In step with itself -/

theorem Stands.walk (hw : I.Stands w) : I.diagonal.walk (fun _ => True) w w where
  state := ⟨rfl, hw.state⟩
  env name := by
    show I.diagonal.entry _ _ _ (Directory.get? w.env name) (Directory.get? w.env name)
    cases hentry : Directory.get? w.env name with
    | none => trivial
    | some entry =>
      cases entry with
      | init value => exact ⟨value, rfl, value.rename_id.symm, value.leaves_true⟩
      | bound a => exact ⟨rfl, hw.env hentry⟩
  memo kind symbol := by
    show I.diagonal.memoized _ _ _ (w.memo.lookup (kind, symbol)) (w.memo.lookup (kind, symbol))
    cases hmemo : w.memo.lookup (kind, symbol) with
    | none => trivial
    | some a => exact ⟨rfl, hw.memo hmemo⟩

theorem Stands.of_walk (h : I.diagonal.walk (fun _ => True) w w) : I.Stands w where
  state := h.state.2
  env {name a} hentry := by
    have := h.env name
    rw [show I.diagonal.name name = name from rfl, hentry] at this
    exact this.2
  memo {kind symbol a} hmemo := by
    have := h.memo kind symbol
    rw [show I.diagonal.name symbol = symbol from rfl, hmemo] at this
    exact this.2

/-- A computation that is in step with itself keeps what stood. -/
theorem Yields.of_together {x : WalkM σ η α} {both : σ → σ → α → α → Prop}
    (h : (I.diagonal.alike (fun _ => True) fun _ => False).Together w w both x x)
    (hpost : ∀ s a, both s s a a → post s a) : I.Yields w x post := by
  have hfollows := h.1
  unfold Yields Ensures
  generalize x.run w = found at hfollows ⊢
  cases found with
  | error e => exact .error trivial
  | ok r =>
    cases hfollows with
    | ok h =>
      obtain ⟨hw, hk, hboth⟩ := h
      exact .ok ⟨.of_walk hw, fun a ha => (hk.pass ⟨rfl, ha⟩).2, hpost _ _ hboth⟩

theorem step_diagonal {x : Except Refusal (η × σ)}
    (h : ∀ {a s'}, x = .ok (a, s') → I.Next s s' ∧ I.handle s' a) :
    I.diagonal.Step (fun _ => False) s s I.diagonal.pass x x := by
  cases x with
  | error e => exact .error e
  | ok r =>
    obtain ⟨hnext, ha⟩ := h rfl
    have hkeeps {a b : η} (hab : a = b ∧ I.handle s a) : a = b ∧ I.handle r.2 a :=
      ⟨hab.1, hnext.keeps _ hab.2⟩
    exact .ok ⟨⟨rfl, hnext.state⟩, ⟨hkeeps, hkeeps⟩, rfl, ha⟩

theorem forall₂_diagonal {as bs : List η}
    (h : List.Forall₂ (fun a b => a = b ∧ I.handle s a) as bs) :
    as = bs ∧ ∀ a ∈ as, I.handle s a := by
  induction h with
  | nil => exact ⟨rfl, nofun⟩
  | cons h _ ih =>
    obtain ⟨rfl, ha⟩ := h
    exact ⟨congrArg _ ih.1, List.forall_mem_cons.mpr ⟨ha, ih.2⟩⟩

end Invariant

/-! ## Operands by use -/

section

open Invariant Lockstep

variable {I : Invariant σ η} {c : Context σ η} (G : Gathers c.target I) {w : Walk σ η}

include G

theorem Gathers.alike : (I.diagonal.alike (fun _ => True) fun _ => False).Gathers c c :=
  alike_gathers {
    object := fun o symbol hs => by
      obtain ⟨rfl, hs⟩ := hs
      rw [show symbol.map I.diagonal.name = symbol from Option.map_id']
      exact step_diagonal (G.object o symbol hs)
    pure := fun kind value symbol hs _ => by
      obtain ⟨rfl, hs⟩ := hs
      rw [show symbol.map I.diagonal.name = symbol from Option.map_id']
      exact step_diagonal (G.pure kind _ symbol hs)
    vector := fun kind hs h => by
      obtain ⟨rfl, hs⟩ := hs
      obtain ⟨rfl, hgood⟩ := forall₂_diagonal h
      exact step_diagonal (G.makeMoveVec _ hs hgood) }

theorem argument_yields (slot : Slot) (kind : ParamKind) (value : Operand) (hw : I.Stands w) :
    I.Yields w (c.argument slot kind value) I.handle := by
  have h := argument_together G.alike slot kind value.leaves_true hw.walk
  rw [show I.diagonal.name = id from rfl, value.rename_id] at h
  exact .of_together h fun _ _ h => h.2

theorem handle_yields (slot : Slot) (value : Operand) (hw : I.Stands w) :
    I.Yields w (c.handle slot value) I.handle := by
  have h := handle_together G.alike slot value.leaves_true hw.walk
  rw [show I.diagonal.name = id from rfl, value.rename_id] at h
  exact .of_together h fun _ _ h => h.2

theorem spread_yields (name : String) (kind : ParamKind) (group : Group) (hw : I.Stands w) :
    I.Yields w (c.spread name kind group) fun s as => ∀ a ∈ as, I.handle s a := by
  have h := spread_together G.alike name kind group (fun u _ => u.2.leaves_true) hw.walk
  rw [show I.diagonal.name = id from rfl, group.rename_id] at h
  have hsame : group.map id = group := by cases group <;> simp [Group.map]
  exact .of_together (hsame ▸ h) fun _ _ h => (forall₂_diagonal (h.imp fun _ _ h => h.1)).2

theorem arguments_yields (name : String) (i : Nat) (args : List Argument) (hw : I.Stands w) :
    I.Yields w (c.arguments name i args) fun s as => ∀ a ∈ as, I.handle s a := by
  have h := arguments_together G.alike name i args (fun a _ => a.value.leaves_true) hw.walk
  have hsecond : args.map (Argument.rename id) = args := by
    rw [funext Argument.rename_id, List.map_id']
  have hfirst : args.map (fun a => (⟨id a.value, a.kind⟩ : Argument)) = args := List.map_id' args
  rw [show I.diagonal.name = id from rfl, hsecond] at h
  exact .of_together (hfirst ▸ h) fun _ _ h => (forall₂_diagonal (h.forall₂ id)).2

theorem typeNames_yields (i : Nat) (values : List Operand) (hw : I.Stands w) :
    I.Yields w (c.typeNames i values) fun _ _ => True := by
  have h := typeNames_together G.alike i values (fun v _ => v.leaves_true) hw.walk
  have hsecond : values.map (Operand.rename id) = values := by
    rw [funext Operand.rename_id, List.map_id']
  rw [show I.diagonal.name = id from rfl, hsecond] at h
  exact .of_together (List.map_id values ▸ h) fun _ _ _ => trivial

end

end TxGraph.Lowering
