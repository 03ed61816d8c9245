/-!
# Outcomes

How computations that may fail end: one outcome that follows another, and what a computation from a
state ensures about its result.
-/

namespace TxGraph

variable {ε α β : Type}

theorem bind_eq_ok {x : Except ε α} {f : α → Except ε β} {b : β} :
    (x >>= f) = .ok b ↔ ∃ a, x = .ok a ∧ f a = .ok b := by
  cases x with
  | error e => exact ⟨nofun, nofun⟩
  | ok a => exact ⟨fun h => ⟨a, rfl, h⟩, fun ⟨_, ha, h⟩ => by cases ha; exact h⟩

theorem exists_bind_pure_iff {x : Except ε α} {f : α → β} :
    (∃ b, (x >>= fun a => pure (f a)) = .ok b) ↔ ∃ a, x = .ok a := by
  cases x with
  | error e => exact ⟨nofun, nofun⟩
  | ok a => exact ⟨fun _ => ⟨a, rfl⟩, fun _ => ⟨f a, rfl⟩⟩

theorem mapError_bind {ε' : Type} (h : ε → ε') (x : Except ε α) (f : α → Except ε β) :
    (x >>= f).mapError h = x.mapError h >>= fun a => (f a).mapError h := by
  cases x <;> rfl

/-! ## Two outcomes -/

/-- The second outcome is like the first: a related value, or the same error unless that error is
exempt. -/
inductive Follows {ε α β : Type} (exempt : ε → Prop) (post : α → β → Prop) :
    Except ε α → Except ε β → Prop
  | ok {a : α} {b : β} (h : post a b) : Follows exempt post (.ok a) (.ok b)
  | error (e : ε) : Follows exempt post (.error e) (.error e)
  | exempt {e : ε} (h : exempt e) (y : Except ε β) : Follows exempt post (.error e) y

namespace Follows

variable {ε α β γ δ : Type} {exempt : ε → Prop} {post : α → β → Prop} {next : γ → δ → Prop}
  {x : Except ε α} {y : Except ε β}

theorem bind {f : α → Except ε γ} {g : β → Except ε δ} (h : Follows exempt post x y)
    (hf : ∀ a b, post a b → Follows exempt next (f a) (g b)) :
    Follows exempt next (x >>= f) (y >>= g) := by
  cases h with
  | ok h => exact hf _ _ h
  | error e => exact .error e
  | exempt h y => exact .exempt h _

theorem refl (x : Except ε α) : Follows exempt Eq x x := by
  cases x with
  | ok a => exact .ok rfl
  | error e => exact .error e

theorem mono {post' : α → β → Prop} (h : Follows exempt post x y)
    (hp : ∀ a b, post a b → post' a b) : Follows exempt post' x y := by
  cases h with
  | ok h => exact .ok (hp _ _ h)
  | error e => exact .error e
  | exempt h y => exact .exempt h y

theorem mono_exempt {exempt' : ε → Prop} (h : Follows exempt post x y)
    (he : ∀ e, exempt e → exempt' e) : Follows exempt' post x y := by
  cases h with
  | ok h => exact .ok h
  | error e => exact .error e
  | exempt h y => exact .exempt (he _ h) y

/-- Without exempt errors, outcomes with equal values are equal. -/
theorem eq {y : Except ε α} (h : Follows (fun _ => False) Eq x y) : x = y := by
  cases h with
  | ok h => exact congrArg Except.ok h
  | error e => rfl
  | exempt h y => exact h.elim

end Follows

/-! ## Computations from a state -/

/-- The outcome is a value with one property or an error with another. -/
inductive Ends {ε α : Type} (err : ε → Prop) (post : α → Prop) : Except ε α → Prop
  | ok {a : α} (h : post a) : Ends err post (.ok a)
  | error {e : ε} (h : err e) : Ends err post (.error e)

namespace Ends

variable {ε α β : Type} {err : ε → Prop} {post : α → Prop} {x : Except ε α}

theorem bind {next : β → Prop} {f : α → Except ε β} (h : Ends err post x)
    (hf : ∀ a, post a → Ends err next (f a)) : Ends err next (x >>= f) := by
  cases h with
  | ok h => exact hf _ h
  | error h => exact .error h

theorem map {next : β → Prop} {f : α → β} (h : Ends err post x) (hf : ∀ a, post a → next (f a)) :
    Ends err next (x.map f) := by
  cases h with
  | ok h => exact .ok (hf _ h)
  | error h => exact .error h

theorem mono {post' : α → Prop} (h : Ends err post x) (hp : ∀ a, post a → post' a) :
    Ends err post' x := by
  cases h with
  | ok h => exact .ok (hp _ h)
  | error h => exact .error h

theorem mono_error {err' : ε → Prop} (h : Ends err post x) (he : ∀ e, err e → err' e) :
    Ends err' post x := by
  cases h with
  | ok h => exact .ok h
  | error h => exact .error (he _ h)

theorem always (x : Except ε α) : Ends (fun _ => True) (fun _ => True) x := by
  cases x with
  | ok a => exact .ok trivial
  | error e => exact .error trivial

theorem of_error {e : ε} (h : Ends err post (.error e)) : err e := by
  cases h with
  | error h => exact h

theorem of_ok {a : α} (h : Ends err post (.ok a)) : post a := by
  cases h with
  | ok h => exact h

/-- Errors that a map leaves alone. -/
theorem mapError_eq {h : ε → ε} (hx : Ends (fun e => h e = e) post x) : x.mapError h = x := by
  cases hx with
  | ok _ => rfl
  | error he => exact congrArg Except.error he

/-- The outcome is a value where no error is possible. -/
theorem exists_ok (h : Ends err post x) (he : ∀ e, ¬ err e) : ∃ a, x = .ok a ∧ post a := by
  cases h with
  | ok h => exact ⟨_, rfl, h⟩
  | error h => exact absurd h (he _)

end Ends

theorem Follows.and_ends {exempt err : ε → Prop} {both : α → β → Prop} {post : α → Prop}
    {x : Except ε α} {y : Except ε β} (h : Follows exempt both x y) (hx : Ends err post x) :
    Follows exempt (fun a b => both a b ∧ post a) x y := by
  cases h with
  | ok h => exact .ok ⟨h, hx.of_ok⟩
  | error e => exact .error e
  | exempt h y => exact .exempt h y

/-- From the state, the computation gives a value and a state with the property, or fails with an
error of which `err` holds. -/
def Ensures {σ ε α : Type} (err : ε → Prop) (s : σ) (x : StateT σ (Except ε) α)
    (post : α → σ → Prop) : Prop :=
  Ends err (fun r => post r.1 r.2) (x.run s)

/-- From the state, the computation does not fail. -/
abbrev Does {σ ε α : Type} (s : σ) (x : StateT σ (Except ε) α) (post : α → σ → Prop) : Prop :=
  Ensures (fun _ => False) s x post

namespace Ensures

variable {σ ε α β : Type} {err : ε → Prop} {s s' : σ} {x : StateT σ (Except ε) α}
  {post : α → σ → Prop} {next : β → σ → Prop}

theorem pure {a : α} (h : post a s) : Ensures err s (pure a) post := .ok h

theorem throw {e : ε} (h : err e) : Ensures err s (throw e) post := .error h

theorem bind {f : α → StateT σ (Except ε) β} (h : Ensures err s x post)
    (hf : ∀ a t, post a t → Ensures err t (f a) next) : Ensures err s (x >>= f) next := by
  unfold Ensures at h ⊢
  rw [StateT.run_bind]
  exact Ends.bind h fun r hr => hf r.1 r.2 hr

theorem get_bind {f : σ → StateT σ (Except ε) β} (h : Ensures err s (f s) next) :
    Ensures err s (get >>= f) next := h

theorem modify_bind {f : σ → σ} {g : Unit → StateT σ (Except ε) β}
    (h : Ensures err (f s) (g ()) next) :
    Ensures err s ((modify f : StateT σ (Except ε) Unit) >>= g) next := h

theorem modify {f : σ → σ} {post : Unit → σ → Prop} (h : post () (f s)) :
    Ensures err s (modify f : StateT σ (Except ε) Unit) post := .ok h

theorem always (x : StateT σ (Except ε) α) (h : ∀ a t, post a t) :
    Ensures (fun _ => True) s x post := by
  rw [Ensures]
  cases x.run s with
  | ok r => exact .ok (h _ _)
  | error e => exact .error trivial

theorem mono {post' : α → σ → Prop} (h : Ensures err s x post)
    (hp : ∀ a t, post a t → post' a t) : Ensures err s x post' :=
  Ends.mono h fun r => hp r.1 r.2

theorem mono_error {err' : ε → Prop} (h : Ensures err s x post) (he : ∀ e, err e → err' e) :
    Ensures err' s x post :=
  Ends.mono_error h he

theorem of_run {a : α} (h : Ensures err s x post) (hrun : x.run s = .ok (a, s')) : post a s' := by
  rw [Ensures, hrun] at h
  exact h.of_ok

theorem lift {y : Except ε α} (he : ∀ e, y = .error e → err e) :
    Ensures err s (liftM y : StateT σ (Except ε) α) fun a s' => y = .ok a ∧ s' = s := by
  cases y with
  | error e => exact .error (he e rfl)
  | ok a => exact .ok ⟨rfl, rfl⟩

end Ensures

/-- A computation that does not fail ensures the same whatever errors are allowed. -/
theorem Does.ensures {σ : Type} {err : ε → Prop} {s : σ} {x : StateT σ (Except ε) α}
    {post : α → σ → Prop} (h : Does s x post) : Ensures err s x post :=
  Ensures.mono_error h fun _ => False.elim

end TxGraph
