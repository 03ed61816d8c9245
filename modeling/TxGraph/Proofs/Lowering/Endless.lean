import Mathlib.Data.Finset.Card
import Mathlib.Logic.Relation
import Mathlib.Order.WellFounded
import TxGraph.Proofs.Lowering.Single
import TxGraph.Proofs.Program.Scope

/-!
# Operands without an end

Resolving an operand enters other operands: those of a vector, one after the other, and the value of
a variable for its name. The walk follows a bounded number of variables. Here it is shown that the
bound only ever cuts off what has no end: if it is not less than the number of variables, resolving
stops at it if and only if operands could be entered for ever. For then a variable comes up within
its own value, and since a target gives out an object that it has given out before without a change
of state, what led there leads there again.
-/

namespace TxGraph.Lowering

open Relation
open Context.resolveWith (resolveItems)

variable {σ η α β : Type}

/-- The name is that of a variable, whose value is no other name. -/
def StandsFor (env : Directory (Entry η)) (name : String) (value : Operand) : Prop :=
  Directory.get? env name = some (.init value) ∧ symbolOf value = none

def IsCircular (e : LowerError) : Prop :=
  ∃ site name, e = .circular site name

def Stopped (x : Except LowerError α) : Prop :=
  ∃ site name, x = .error (.circular site name)

theorem not_stopped_ok (a : α) : ¬ Stopped (.ok a : Except LowerError α) := by
  rintro ⟨site, name, h⟩
  cases h

theorem eq_of_follows {x y : Except LowerError α} (h : Follows IsCircular Eq x y)
    (hx : ¬ Stopped x) : x = y := by
  cases h with
  | ok h => exact congrArg Except.ok h
  | error e => rfl
  | exempt h _ =>
    obtain ⟨site, name, rfl⟩ := h
    exact absurd ⟨site, name, rfl⟩ hx

theorem stopped_bind_iff {x : Except LowerError α} {f : α → Except LowerError β} :
    Stopped (x >>= f) ↔ Stopped x ∨ ∃ a, x = .ok a ∧ Stopped (f a) := by
  cases x with
  | ok a =>
    constructor
    · intro h
      exact .inr ⟨a, rfl, h⟩
    · rintro (h | ⟨_, ha, h⟩)
      · exact absurd h (not_stopped_ok a)
      · cases ha
        exact h
  | error e =>
    constructor
    · rintro ⟨site, name, h⟩
      cases h
      exact .inl ⟨site, name, rfl⟩
    · rintro (⟨site, name, h⟩ | ⟨_, ha, _⟩)
      · cases h
        exact ⟨site, name, rfl⟩
      · cases ha

theorem not_stopped_call (c : Context σ η) (f : σ → Except Refusal (α × σ)) (w : Walk σ η) :
    ¬ Stopped ((c.call f).run w) := by
  obtain ⟨s, env, memo⟩ := w
  rintro ⟨site, name, h⟩
  simp only [Context.call, StateT.run] at h
  split at h <;> cases h

/-! ## Visits -/

/-- An operand that resolving has come to, and the state of the walk there. -/
structure Visit (σ η : Type) where
  symbol : Option String
  value : Operand
  walk : Walk σ η

namespace Context

variable (c : Context σ η) (slot : Slot)

/-- How the value of a variable is resolved where `depth` more may be followed. -/
def expand : (depth : Nat) → (name : String) → Operand → WalkM σ η (Resolved η)
  | 0 => fun name _ => throw (.circular c.site name)
  | depth + 1 => fun name value => c.resolveFrom slot depth (some name) value

theorem resolveFrom_eq (depth : Nat) :
    c.resolveFrom slot depth = c.resolveWith (c.expand slot depth) slot := by
  cases depth <;> rfl

/-- What resolving enters next: the value of a variable, or an item of a vector once the items
before it are resolved. -/
inductive Enters : Visit σ η → Visit σ η → Prop
  | value {symbol : Option String} {name : String} {value : Operand} {w : Walk σ η}
    (h : StandsFor w.env name value) : Enters ⟨symbol, .ref name, w⟩ ⟨some name, value, w⟩
  | item {symbol : Option String} {front back : List Operand} {item : Operand} {w w' : Walk σ η}
    {depth : Nat} {values : List (Resolved η)}
    (h : (resolveItems c (c.expand slot depth) slot front).run w = .ok (values, w')) :
    Enters ⟨symbol, .vector (front ++ item :: back), w⟩ ⟨none, item, w'⟩

/-- From the visit, operands can be entered one after the other for ever. -/
def Endless (v : Visit σ η) : Prop :=
  ∃ visits : Nat → Visit σ η, visits 0 = v ∧ ∀ i, c.Enters slot (visits i) (visits (i + 1))

end Context

section Items

variable {c : Context σ η} {expand : String → Operand → WalkM σ η (Resolved η)} {slot : Slot}

theorem run_resolveItems_cons (item : Operand) (rest : List Operand) (w : Walk σ η) :
    (resolveItems c expand slot (item :: rest)).run w =
      (c.resolveWith expand slot none item).run w >>= fun a =>
        (resolveItems c expand slot rest).run a.2 >>= fun b =>
          .ok (a.1 :: b.1, b.2) := by
  rw [resolveItems, StateT.run_bind]
  rfl

/-- Items are resolved too far if one of them is, once those before it are resolved. -/
theorem stopped_resolveItems_iff (items : List Operand) (w : Walk σ η) :
    Stopped ((resolveItems c expand slot items).run w) ↔
      ∃ front item back values w', items = front ++ item :: back ∧
        (resolveItems c expand slot front).run w = .ok (values, w') ∧
        Stopped ((c.resolveWith expand slot none item).run w') := by
  induction items generalizing w with
  | nil =>
    constructor
    · intro h
      exact absurd h (not_stopped_ok _)
    · rintro ⟨front, item, back, values, w', h, _⟩
      simp at h
  | cons first rest ih =>
    rw [run_resolveItems_cons, stopped_bind_iff]
    constructor
    · rintro (h | ⟨⟨value, w₁⟩, hfirst, h⟩)
      · exact ⟨[], first, rest, [], w, rfl, rfl, h⟩
      · rcases stopped_bind_iff.mp h with h | ⟨_, _, h⟩
        · obtain ⟨front, item, back, values, w', rfl, hfront, hitem⟩ := (ih w₁).mp h
          refine ⟨first :: front, item, back, value :: values, w', rfl, ?_, hitem⟩
          rw [run_resolveItems_cons, hfirst]
          exact bind_eq_ok.mpr ⟨_, rfl, bind_eq_ok.mpr ⟨_, hfront, rfl⟩⟩
        · exact absurd h (not_stopped_ok _)
    · rintro ⟨front, item, back, values, w', hsplit, hfront, hitem⟩
      cases front with
      | nil =>
        cases hsplit
        cases hfront
        exact .inl hitem
      | cons head front =>
        cases hsplit
        rw [run_resolveItems_cons] at hfront
        obtain ⟨a, ha, hfront⟩ := bind_eq_ok.mp hfront
        obtain ⟨b, hb, hvalues⟩ := bind_eq_ok.mp hfront
        cases hvalues
        exact .inr ⟨a, ha, stopped_bind_iff.mpr
          (.inl ((ih a.2).mpr ⟨front, item, back, b.1, b.2, rfl, hb, hitem⟩))⟩

theorem stopped_vector_iff (symbol : Option String) (items : List Operand) (w : Walk σ η) :
    Stopped ((c.resolveWith expand slot symbol (.vector items)).run w) ↔
      Stopped ((resolveItems c expand slot items).run w) := by
  rw [Context.resolveWith, StateT.run_bind, stopped_bind_iff]
  refine or_iff_left ?_
  rintro ⟨a, _, h⟩
  exact not_stopped_ok _ h

theorem run_resolveWith_ref (symbol : Option String) (name : String) (w : Walk σ η) :
    (c.resolveWith expand slot symbol (.ref name)).run w =
      match Directory.get? w.env name with
      | some (.bound handle) => .ok (.handle handle, w)
      | some (.init value) =>
        if (symbolOf value).isSome then .error (.unresolvedSymbol c.site name)
        else (expand name value).run w
      | none => .error (.unresolvedSymbol c.site name) := by
  rw [resolveWith_ref, StateT.run_bind, StateT.run_get, pure_bind]
  dsimp only
  cases Directory.get? w.env name with
  | none => rfl
  | some entry =>
    cases entry with
    | bound handle => rfl
    | init value => cases value <;> rfl

theorem run_resolveWith_standsFor {name : String} {value : Operand} {w : Walk σ η}
    (h : StandsFor w.env name value) (symbol : Option String) :
    (c.resolveWith expand slot symbol (.ref name)).run w = (expand name value).run w := by
  simp [run_resolveWith_ref, h.1, h.2]

/-- A name is resolved too far if it is that of a variable and its value is. -/
theorem stopped_ref_iff (symbol : Option String) (name : String) (w : Walk σ η) :
    Stopped ((c.resolveWith expand slot symbol (.ref name)).run w) ↔
      ∃ value, StandsFor w.env name value ∧ Stopped ((expand name value).run w) := by
  constructor
  · rw [run_resolveWith_ref]
    split
    case h_2 value hget =>
      split
      · rintro ⟨site, other, h⟩
        cases h
      case isFalse hvalue =>
        intro h
        exact ⟨value, ⟨hget, by simpa using hvalue⟩, h⟩
    all_goals
      rintro ⟨site, other, h⟩
      cases h
  · rintro ⟨value, hvalue, h⟩
    rwa [run_resolveWith_standsFor hvalue]

end Items

/-! ## Returning means coming to an end -/

section Depths

variable {T : Target σ η} {site : Site} {sender : Option String} {exempt : LowerError → Prop}
  {d₁ d₂ : Nat}

/-- An operand is resolved alike if the values of variables are. -/
theorem resolveWith_follows {e₁ e₂ : String → Operand → WalkM σ η (Resolved η)}
    (he : ∀ name value w, Follows exempt Eq ((e₁ name value).run w) ((e₂ name value).run w))
    (slot : Slot) : (symbol : Option String) → (value : Operand) → (w : Walk σ η) →
    Follows exempt Eq (((Context.mk T site sender d₁).resolveWith e₁ slot symbol value).run w)
      (((Context.mk T site sender d₂).resolveWith e₂ slot symbol value).run w)
  | _, .absent, _ => .error _
  | symbol, .ref name, w => by
    rw [run_resolveWith_ref, run_resolveWith_ref]
    split
    · exact .refl _
    · split
      · exact .error _
      · exact he name _ w
    · exact .error _
  | _, .constant _, _ => .ok rfl
  | _, .integer _ _, _ => .ok rfl
  | _, .object _, _ => .refl _
  | _, .vector items, w => by
    refine .bind (items_follow items w) ?_
    rintro a _ rfl
    exact .ok rfl
where
  items_follow : (items : List Operand) → (w : Walk σ η) →
      Follows exempt Eq
        ((resolveItems ⟨T, site, sender, d₁⟩ e₁ slot items).run w)
        ((resolveItems ⟨T, site, sender, d₂⟩ e₂ slot items).run w)
    | [], _ => .ok rfl
    | item :: rest, w => by
      rw [run_resolveItems_cons, run_resolveItems_cons]
      refine .bind (resolveWith_follows he slot none item w) ?_
      rintro a _ rfl
      refine .bind (items_follow rest a.2) ?_
      rintro b _ rfl
      exact .ok rfl

theorem expand_follows (slot : Slot) {n m : Nat} (hle : n ≤ m)
    (hstop : n = m ∨ ∀ site name, exempt (.circular site name)) (name : String) (value : Operand)
    (w : Walk σ η) :
    Follows exempt Eq (((Context.mk T site sender d₁).expand slot n name value).run w)
      (((Context.mk T site sender d₂).expand slot m name value).run w) := by
  induction n generalizing m name value w with
  | zero =>
    cases m with
    | zero => exact .error _
    | succ m => exact .exempt (hstop.resolve_left (Nat.succ_ne_zero m).symm site name) _
  | succ n ih =>
    obtain ⟨m, rfl⟩ : ∃ k, m = k + 1 := ⟨m - 1, by omega⟩
    rw [Context.expand, Context.expand, Context.resolveFrom_eq, Context.resolveFrom_eq]
    exact resolveWith_follows (ih (Nat.le_of_succ_le_succ hle) (hstop.imp_left Nat.succ.inj)) slot
      (some name) value w

/-- Of two depths the greater gives what the other gives, unless the other has to stop. -/
theorem resolveFrom_follows (slot : Slot) {n m : Nat} (hle : n ≤ m)
    (hstop : n = m ∨ ∀ site name, exempt (.circular site name)) (symbol : Option String)
    (value : Operand) (w : Walk σ η) :
    Follows exempt Eq (((Context.mk T site sender d₁).resolveFrom slot n symbol value).run w)
      (((Context.mk T site sender d₂).resolveFrom slot m symbol value).run w) := by
  rw [Context.resolveFrom_eq, Context.resolveFrom_eq]
  exact resolveWith_follows (expand_follows slot hle hstop) slot symbol value w

end Depths

section Ends

variable (slot : Slot) (c : Context σ η)
variable {depth depth' : Nat}

theorem resolveItems_follows (hle : depth ≤ depth') (items : List Operand) (w : Walk σ η) :
    Follows IsCircular Eq
      ((resolveItems c (c.expand slot depth) slot items).run w)
      ((resolveItems c (c.expand slot depth') slot items).run w) :=
  resolveWith_follows.items_follow
    (expand_follows slot hle (.inr fun site name => ⟨site, name, rfl⟩)) slot items w

/-- Items that are resolved at one depth are resolved alike at any other that does not stop. -/
theorem resolveItems_eq_ok {items : List Operand} {w : Walk σ η} {r : List (Resolved η) × Walk σ η}
    (hok : (resolveItems c (c.expand slot depth') slot items).run w = .ok r)
    (h : ¬ Stopped ((resolveItems c (c.expand slot depth) slot items).run w)) :
    (resolveItems c (c.expand slot depth) slot items).run w = .ok r := by
  rcases Nat.le_total depth depth' with hle | hle
  · exact (eq_of_follows (resolveItems_follows slot c hle items w) h).trans hok
  · have heq := eq_of_follows (resolveItems_follows slot c hle items w)
      (by rw [hok]; exact not_stopped_ok r)
    exact heq.symm.trans hok

/-- From an operand that is resolved, operands are not entered for ever. -/
theorem acc_of_resolveWith
    (hexpand : ∀ name value w, StandsFor w.env name value →
      ¬ Stopped ((c.expand slot depth name value).run w) →
        Acc (fun b a => c.Enters slot a b) ⟨some name, value, w⟩) (value : Operand)
    (symbol : Option String) (w : Walk σ η)
    (h : ¬ Stopped ((c.resolveWith (c.expand slot depth) slot symbol value).run w)) :
    Acc (fun b a => c.Enters slot a b) ⟨symbol, value, w⟩ := by
  induction value using Operand.induction_on generalizing symbol w with
  | absent => exact ⟨_, by rintro _ ⟨⟩⟩
  | constant k => exact ⟨_, by rintro _ ⟨⟩⟩
  | integer => exact ⟨_, by rintro _ ⟨⟩⟩
  | object o => exact ⟨_, by rintro _ ⟨⟩⟩
  | ref name =>
    constructor
    rintro _ (hvalue | _)
    rw [run_resolveWith_standsFor hvalue] at h
    exact hexpand name _ w hvalue h
  | vector items ih =>
    rw [stopped_vector_iff] at h
    constructor
    intro next henters
    cases henters with
    | @item _ front back item _ w' _ values hfront =>
      -- a part of the items before this one that is resolved too far is one of all the items
      have hgoes : ¬ Stopped
          ((resolveItems c (c.expand slot depth) slot front).run w) := by
        intro hstop
        obtain ⟨front', item', back', values', w'', rfl, hfront', hitem'⟩ :=
          (stopped_resolveItems_iff front w).mp hstop
        exact h ((stopped_resolveItems_iff _ w).mpr
          ⟨front', item', back' ++ item :: back, values', w'', by simp, hfront', hitem'⟩)
      refine ih item (by simp) none w' fun hitem => h ?_
      exact (stopped_resolveItems_iff _ w).mpr
        ⟨front, item, back, values, w', rfl, resolveItems_eq_ok slot c hfront hgoes, hitem⟩

theorem acc_of_not_stopped {symbol : Option String} {value : Operand} {w : Walk σ η}
    (h : ¬ Stopped ((c.resolveFrom slot depth symbol value).run w)) :
    Acc (fun b a => c.Enters slot a b) ⟨symbol, value, w⟩ := by
  induction depth generalizing symbol value w with
  | zero =>
    rw [Context.resolveFrom_eq] at h
    refine acc_of_resolveWith slot c ?_ value symbol w h
    intro name value w _ hstop
    exact absurd ⟨c.site, name, rfl⟩ hstop
  | succ depth ih =>
    rw [Context.resolveFrom_eq] at h
    refine acc_of_resolveWith slot c ?_ value symbol w h
    intro name value w _ hstop
    exact ih hstop

end Ends

/-! ## What is resolved once is resolved again -/

/-- In the state the target has the object already, and gives it out without a change. -/
def Recalls (T : Target σ η) (s : σ) (o : ObjectRef) (handle : η) : Prop :=
  ∀ symbol, T.object o symbol s = .ok (handle, s)

/-- An object that the target has given out it has, as long as only objects are asked for. -/
structure Steady (T : Target σ η) : Prop where
  learns {o : ObjectRef} {symbol : Option String} {s s' : σ} {handle : η} :
    T.object o symbol s = .ok (handle, s') → Recalls T s' o handle
  keeps {o o' : ObjectRef} {symbol : Option String} {s s' : σ} {handle handle' : η} :
    T.object o symbol s = .ok (handle, s') → Recalls T s o' handle' → Recalls T s' o' handle'

/-- The second state has the names of the first and all the objects that the first has. -/
structure Later (T : Target σ η) (w w' : Walk σ η) : Prop where
  env : w'.env = w.env
  recalls {o : ObjectRef} {handle : η} : Recalls T w.target o handle →
    Recalls T w'.target o handle

theorem Later.refl (T : Target σ η) (w : Walk σ η) : Later T w w := ⟨rfl, id⟩

theorem Later.trans {T : Target σ η} {w w' w'' : Walk σ η} (h : Later T w w')
    (h' : Later T w' w'') : Later T w w'' :=
  ⟨h'.env.trans h.env, fun hrecalls => h'.recalls (h.recalls hrecalls)⟩

/-- A computation that succeeds does so again at any later state, and without a change. -/
def Repeatable (T : Target σ η) (x : WalkM σ η α) : Prop :=
  ∀ w a w', x.run w = .ok (a, w') →
    Later T w w' ∧ ∀ w'', Later T w' w'' → x.run w'' = .ok (a, w'')

namespace Repeatable

variable {T : Target σ η}

theorem pure (a : α) : Repeatable (σ := σ) T (pure a) := by
  intro w b w' h
  cases h
  exact ⟨.refl T w, fun _ _ => rfl⟩

theorem throw (e : LowerError) : Repeatable (α := α) T (throw e) := by
  intro w b w' h
  cases h

theorem bind {x : WalkM σ η α} {f : α → WalkM σ η β} (hx : Repeatable T x)
    (hf : ∀ a, Repeatable T (f a)) : Repeatable T (x >>= f) := by
  intro w b w₂ h
  rw [StateT.run_bind] at h
  obtain ⟨⟨a, w₁⟩, ha, hb⟩ := bind_eq_ok.mp h
  obtain ⟨hw₁, hxagain⟩ := hx w a w₁ ha
  obtain ⟨hw₂, hfagain⟩ := hf a w₁ b w₂ hb
  refine ⟨hw₁.trans hw₂, fun w'' hw'' => ?_⟩
  rw [StateT.run_bind, hxagain w'' (hw₂.trans hw'')]
  exact hfagain w'' hw''

theorem object (hT : Steady T) {c : Context σ η} (hc : c.target = T) (o : ObjectRef)
    (symbol : Option String) : Repeatable T (c.call (c.target.object o symbol)) := by
  subst hc
  intro w a w' h
  obtain ⟨s, env, memo⟩ := w
  cases hcall : c.target.object o symbol s with
  | error cause => cases cause <;> simp [Context.call, StateT.run, hcall] at h
  | ok r =>
    simp only [Context.call, StateT.run, hcall] at h
    cases h
    refine ⟨⟨rfl, hT.keeps hcall⟩, fun w'' hw'' => ?_⟩
    have hagain := hw''.recalls (hT.learns hcall) symbol
    simp only [Context.call, StateT.run, hagain]

end Repeatable

section Again

variable {c : Context σ η} (hT : Steady c.target)

include hT

theorem resolveWith_repeatable {expand : String → Operand → WalkM σ η (Resolved η)}
    (hexpand : ∀ name value, Repeatable c.target (expand name value)) (slot : Slot) :
    (symbol : Option String) → (value : Operand) →
    Repeatable c.target (c.resolveWith expand slot symbol value)
  | _, .absent => .throw _
  | symbol, .ref name => by
    intro w a w' h
    rw [run_resolveWith_ref] at h
    split at h
    case h_1 handle hget =>
      cases h
      refine ⟨.refl _ w, fun w'' hw'' => ?_⟩
      rw [run_resolveWith_ref, hw''.env, hget]
    case h_2 value hget =>
      split at h
      · cases h
      case isFalse hvalue =>
        obtain ⟨hw, hagain⟩ := hexpand name value w a w' h
        refine ⟨hw, fun w'' hw'' => ?_⟩
        have hstands : StandsFor w''.env name value := by
          rw [StandsFor, hw''.env, hw.env]
          exact ⟨hget, by simpa using hvalue⟩
        rw [run_resolveWith_standsFor hstands]
        exact hagain w'' hw''
    case h_3 => cases h
  | _, .constant _ => .pure _
  | _, .integer _ _ => .pure _
  | symbol, .object o => .bind (.object hT rfl o symbol) fun _ => .pure _
  | _, .vector items => .bind (items_repeatable items) fun _ => .pure _
where
  items_repeatable : (items : List Operand) →
      Repeatable c.target (resolveItems c expand slot items)
    | [] => .pure _
    | item :: rest =>
      .bind (resolveWith_repeatable hexpand slot none item) fun _ =>
        .bind (items_repeatable rest) fun _ => .pure _

theorem expand_repeatable (slot : Slot) (depth : Nat) (name : String) (value : Operand) :
    Repeatable c.target (c.expand slot depth name value) := by
  induction depth generalizing name value with
  | zero => exact .throw _
  | succ depth ih =>
    rw [Context.expand, Context.resolveFrom_eq]
    exact resolveWith_repeatable hT ih slot (some name) value

theorem resolveFrom_repeatable (slot : Slot) (depth : Nat) (symbol : Option String)
    (value : Operand) : Repeatable c.target (c.resolveFrom slot depth symbol value) := by
  rw [Context.resolveFrom_eq]
  exact resolveWith_repeatable hT (expand_repeatable hT slot depth) slot symbol value

theorem resolveItems_repeatable (slot : Slot) (depth : Nat) (items : List Operand) :
    Repeatable c.target
      (resolveItems c (c.expand slot depth) slot items) :=
  resolveWith_repeatable.items_repeatable hT (expand_repeatable hT slot depth) slot items

theorem enters_later {slot : Slot} {v v' : Visit σ η} (h : c.Enters slot v v') :
    Later c.target v.walk v'.walk := by
  cases h with
  | value hvalue => exact .refl _ _
  | item hfront =>
    exact (resolveItems_repeatable hT slot _ _ _ _ _ hfront).1

theorem enters_again {slot : Slot} {v v' : Visit σ η} (h : c.Enters slot v v') {w : Walk σ η}
    (hw : Later c.target v'.walk w) : c.Enters slot { v with walk := w } { v' with walk := w } := by
  cases h with
  | value hvalue =>
    refine .value ?_
    rwa [StandsFor, hw.env]
  | item hfront =>
    exact .item ((resolveItems_repeatable hT slot _ _ _ _ _ hfront).2 w hw)

end Again

/-! ## Variables within their own values -/

/-- From the visit, resolving comes to the value of a variable and within it to the variable. -/
def Recurs (c : Context σ η) (slot : Slot) (v : Visit σ η) : Prop :=
  ∃ name value symbol w w', StandsFor w'.env name value ∧
    ReflTransGen (c.Enters slot) v ⟨some name, value, w⟩ ∧
    ReflTransGen (c.Enters slot) ⟨some name, value, w⟩ ⟨symbol, .ref name, w'⟩

/-- An operand that is resolved too far leads to a variable whose value is. -/
theorem exists_ref_of_stopped {c : Context σ η} {slot : Slot} {depth : Nat} (value : Operand)
    (symbol : Option String) (w : Walk σ η)
    (h : Stopped ((c.resolveWith (c.expand slot depth) slot symbol value).run w)) :
    ∃ symbol' name value' w', StandsFor w'.env name value' ∧
      ReflTransGen (c.Enters slot) ⟨symbol, value, w⟩ ⟨symbol', .ref name, w'⟩ ∧
      Stopped ((c.expand slot depth name value').run w') := by
  induction value using Operand.induction_on generalizing symbol w with
  | absent =>
    obtain ⟨_, _, h⟩ := h
    cases h
  | constant k => exact absurd h (not_stopped_ok _)
  | integer => exact absurd h (not_stopped_ok _)
  | object o =>
    rw [Context.resolveWith, StateT.run_bind, stopped_bind_iff] at h
    rcases h with h | ⟨_, _, h⟩
    · exact absurd h (not_stopped_call c _ w)
    · exact absurd h (not_stopped_ok _)
  | ref name =>
    obtain ⟨value, hvalue, h⟩ := (stopped_ref_iff symbol name w).mp h
    exact ⟨symbol, name, value, w, hvalue, .refl, h⟩
  | vector items ih =>
    rw [stopped_vector_iff] at h
    obtain ⟨front, item, back, values, w', rfl, hfront, hitem⟩ :=
      (stopped_resolveItems_iff items w).mp h
    obtain ⟨symbol', name, value', w'', hvalue, hpath, hstop⟩ := ih item (by simp) none w' hitem
    exact ⟨symbol', name, value', w'', hvalue, .head (.item hfront) hpath, hstop⟩

section Recurs

variable {c : Context σ η} (hT : Steady c.target) {slot : Slot}
variable {v v' : Visit σ η}

include hT

theorem later_of_enters (h : ReflTransGen (c.Enters slot) v v') :
    Later c.target v.walk v'.walk := by
  induction h with
  | refl => exact .refl _ _
  | tail _ hstep ih => exact ih.trans (enters_later hT hstep)

/-- Where variables may be followed through all names that there are, resolving is only stopped if a
variable recurs. The names that are left are those of which none has been followed yet. -/
theorem recurs_of_stopped {depth : Nat} {left : Finset String} (hleft : left.card ≤ depth)
    {symbol : Option String} {value : Operand} {w : Walk σ η}
    (h : Stopped ((c.resolveFrom slot depth symbol value).run w)) :
    Recurs c slot ⟨symbol, value, w⟩ ∨
      ∃ symbol' name value' w', name ∉ left ∧ StandsFor w'.env name value' ∧
        ReflTransGen (c.Enters slot) ⟨symbol, value, w⟩ ⟨symbol', .ref name, w'⟩ := by
  induction depth generalizing left symbol value w with
  | zero =>
    rw [Context.resolveFrom_eq] at h
    obtain ⟨symbol', name, value', w', hvalue, hpath, -⟩ := exists_ref_of_stopped value symbol w h
    refine .inr ⟨symbol', name, value', w', ?_, hvalue, hpath⟩
    simp [Finset.card_eq_zero.mp (Nat.le_zero.mp hleft)]
  | succ depth ih =>
    rw [Context.resolveFrom_eq] at h
    obtain ⟨symbol', name, value', w', hvalue, hpath, hstop⟩ :=
      exists_ref_of_stopped value symbol w h
    by_cases hname : name ∈ left
    -- the name is followed for the first time, so one less is left within its value
    · have hpath' := hpath.tail (.value hvalue)
      have hcard : (left.erase name).card ≤ depth := by
        rw [Finset.card_erase_of_mem hname]
        omega
      rcases ih hcard hstop with hrecurs | ⟨symbol'', name', value'', w'', hname', hvalue', hfrom⟩
      · obtain ⟨name', value'', symbol'', u, u', hvalue', hto, hfrom⟩ := hrecurs
        exact .inl ⟨name', value'', symbol'', u, u', hvalue', hpath'.trans hto, hfrom⟩
      · by_cases hsame : name' = name
        -- within its value it comes up again
        · subst hsame
          have henv : w''.env = w'.env := (later_of_enters hT hfrom).env
          refine .inl ⟨name', value', symbol'', w', w'', ?_, hpath', hfrom⟩
          rwa [henv]
        · refine .inr ⟨symbol'', name', value'', w'', ?_, hvalue', hpath'.trans hfrom⟩
          intro hmem
          exact hname' (Finset.mem_erase.mpr ⟨hsame, hmem⟩)
    · exact .inr ⟨symbol', name, value', w', hname, hvalue, hpath⟩

/-- What led from one visit to another leads from the first to the second at any later state. -/
theorem again_of_enters (h : ReflTransGen (c.Enters slot) v v') {w : Walk σ η}
    (hw : Later c.target v'.walk w) :
    ReflTransGen (c.Enters slot) { v with walk := w } { v' with walk := w } := by
  induction h with
  | refl => exact .refl
  | tail _ hstep ih =>
    exact .tail (ih ((enters_later hT hstep).trans hw)) (enters_again hT hstep hw)

omit hT in
theorem acc_of_enters (h : ReflTransGen (c.Enters slot) v v')
    (hacc : Acc (fun b a => c.Enters slot a b) v) : Acc (fun b a => c.Enters slot a b) v' := by
  induction h with
  | refl => exact hacc
  | tail _ hstep ih => exact ih.inv hstep

/-- Operands are entered for ever where a variable recurs. -/
theorem not_acc_of_recurs (h : Recurs c slot v) : ¬ Acc (fun b a => c.Enters slot a b) v := by
  obtain ⟨name, value, symbol, w, w', hvalue, hto, hfrom⟩ := h
  -- the way from the value of the variable to the variable, taken once more, is a loop
  have hagain := again_of_enters hT hfrom (.refl _ w')
  have hloop : TransGen (c.Enters slot) ⟨symbol, .ref name, w'⟩ ⟨symbol, .ref name, w'⟩ :=
    .head' (.value hvalue) hagain
  intro hacc
  have hends := acc_of_enters (hto.trans hfrom) hacc
  have hno : ¬ Acc (TransGen fun b a => c.Enters slot a b) ⟨symbol, .ref name, w'⟩ :=
    not_acc_iff_exists_descending_chain.mpr
      ⟨fun _ => _, rfl, fun _ => transGen_swap.mpr hloop⟩
  exact hno (acc_transGen_iff.mpr hends)

section Few

variable {names : Finset String} {depth : Nat} (hdepth : names.card ≤ depth) {w : Walk σ η}
  (hw : ∀ name value, StandsFor w.env name value → name ∈ names) {symbol : Option String}
  {value : Operand}

include hdepth hw

theorem recurs_of_stopped_of_few (h : Stopped ((c.resolveFrom slot depth symbol value).run w)) :
    Recurs c slot ⟨symbol, value, w⟩ := by
  refine (recurs_of_stopped hT hdepth h).resolve_right ?_
  rintro ⟨_, name, value', w', hname, hvalue, hpath⟩
  have henv : w'.env = w.env := (later_of_enters hT hpath).env
  exact hname (hw name value' (henv ▸ hvalue))

/-- **Resolving is stopped exactly where it has no end.** With no more variables than may be
followed, an operand is resolved too far if and only if operands could be entered from it for
ever. -/
theorem stopped_iff_endless :
    Stopped ((c.resolveFrom slot depth symbol value).run w) ↔
      c.Endless slot ⟨symbol, value, w⟩ := by
  rw [Context.Endless, ← not_acc_iff_exists_descending_chain (r := fun b a => c.Enters slot a b)]
  constructor
  · intro h
    exact not_acc_of_recurs hT (recurs_of_stopped_of_few hT hdepth hw h)
  · intro h
    by_contra hgoes
    exact h (acc_of_not_stopped slot c hgoes)

/-- No greater depth is enough where this one is not. -/
theorem stopped_of_stopped (h : Stopped ((c.resolveFrom slot depth symbol value).run w))
    (depth' : Nat) : Stopped ((c.resolveFrom slot depth' symbol value).run w) := by
  by_contra hgoes
  exact not_acc_of_recurs hT (recurs_of_stopped_of_few hT hdepth hw h)
    (acc_of_not_stopped slot c hgoes)

end Few

/-! ## Circles of names -/

def Mentions (env : Directory (Entry η)) (x y : String) : Prop :=
  ∃ value, StandsFor env x value ∧ y ∈ value.refs

/-- A name in an operand that is entered stands in the operand it is entered from, or is mentioned
from there. -/
theorem mentions_of_enters (h : ReflTransGen (c.Enters slot) v v') {y : String}
    (hy : y ∈ v'.value.refs) :
    y ∈ v.value.refs ∨ ∃ x ∈ v.value.refs, TransGen (Mentions v.walk.env) x y := by
  induction h generalizing y with
  | refl => exact .inl hy
  | tail hpath hstep ih =>
    have henv := (later_of_enters hT hpath).env
    cases hstep with
    | @value _ name value w hvalue =>
      have hmentions : Mentions v.walk.env name y := ⟨value, henv ▸ hvalue, hy⟩
      rcases ih (y := name) (by simp [Operand.refs]) with hname | ⟨x, hx, hname⟩
      · exact .inr ⟨name, hname, .single hmentions⟩
      · exact .inr ⟨x, hx, hname.tail hmentions⟩
    | @item _ front back item _ _ _ _ hfront =>
      refine ih ?_
      rw [Operand.refs_vector]
      exact List.mem_flatMap.mpr ⟨item, by simp, hy⟩

/-- A variable that recurs is mentioned in a circle. -/
theorem mentions_of_recurs (h : Recurs c slot v) :
    ∃ name, TransGen (Mentions v.walk.env) name name := by
  obtain ⟨name, value, symbol, w, w', hvalue, hto, hfrom⟩ := h
  have henv : w'.env = v.walk.env := (later_of_enters hT (hto.trans hfrom)).env
  have henv' : w.env = v.walk.env := (later_of_enters hT hto).env
  rw [henv] at hvalue
  have hname := mentions_of_enters hT hfrom (y := name) (by simp [Operand.refs])
  rw [henv'] at hname
  rcases hname with hname | ⟨x, hx, hname⟩
  · exact ⟨name, .single ⟨value, hvalue, hname⟩⟩
  · exact ⟨name, .head ⟨value, hvalue, hx⟩ hname⟩

end Recurs

end TxGraph.Lowering
