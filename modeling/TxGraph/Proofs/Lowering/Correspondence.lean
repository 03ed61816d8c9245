import Mathlib.Data.List.Forall2
import TxGraph.Lowering.Walk
import TxGraph.Proofs.Directory
import TxGraph.Proofs.Outcome
import TxGraph.Proofs.Program.Rename
import TxGraph.Proofs.Program.Sender

/-!
# Targets that correspond

A `Correspondence` says when the states and the handles of two targets correspond, `Simulates` that
every call keeps this. Handles are indexed by the kind of parameter they may be given to. The second
target may know the names of the program by others, and the first may walk a program that has the
sender put in. `Correspondence.walk` lifts this to the walks.
-/

namespace TxGraph

/-! ## Leaves of values -/

/-- Every literal inside, lists apart, has the property. -/
def Literal.Leaves (leaf : Literal → Prop) : Literal → Prop
  | .list items => all items
  | value => leaf value
where
  all : List Literal → Prop
    | [] => True
    | item :: rest => item.Leaves leaf ∧ all rest

def Operand.Leaves (leaf : Literal → Prop) : Operand → Prop
  | .constant k => leaf (Lowering.constantLiteral k)
  | .integer width digits => leaf (.integer width digits)
  | .vector items => all items
  | _ => True
where
  all : List Operand → Prop
    | [] => True
    | item :: rest => item.Leaves leaf ∧ all rest

theorem Operand.leaves_true : (value : Operand) → value.Leaves fun _ => True
  | absent => trivial
  | ref _ => trivial
  | constant _ => trivial
  | integer _ _ => trivial
  | object _ => trivial
  | vector items => go items
where
  go : (items : List Operand) → Operand.Leaves.all (fun _ => True) items
    | [] => trivial
    | item :: rest => ⟨leaves_true item, go rest⟩

/-- A literal with the sender put in, if there is one. -/
def Literal.given (sender : Option String) (value : Literal) : Literal :=
  sender.elim value fun s => value.withSender s

theorem Literal.withSenderAll_eq_map (s : String) (items : List Literal) :
    withSender.withSenderAll s items = items.map (withSender s) := by
  induction items with
  | nil => rfl
  | cons item rest ih => rw [withSender.withSenderAll, ih, List.map_cons]

namespace Literal

theorem withSender_withSender (s : String) : (value : Literal) →
    (value.withSender s).withSender s = value.withSender s
  | bool _ => rfl
  | string _ => rfl
  | address _ => rfl
  | number _ => rfl
  | integer _ _ => rfl
  | sender => rfl
  | bytes _ => rfl
  | list items => congrArg list (go items)
where
  go : (items : List Literal) → withSender.withSenderAll s (withSender.withSenderAll s items) =
      withSender.withSenderAll s items
    | [] => rfl
    | item :: rest => by
      simp only [withSender.withSenderAll, withSender_withSender s item, go rest]

theorem given_given {fill sender : Option String} (h : fill = none ∨ fill = sender)
    (value : Literal) : (value.given fill).given sender = value.given sender := by
  rcases h with rfl | rfl
  · rfl
  · cases fill with
    | none => rfl
    | some s => exact withSender_withSender s value

theorem given_string (fill : Option String) (text : String) :
    (string text).given fill = string text := by
  cases fill <;> rfl

theorem given_list (fill : Option String) (items : List Literal) :
    (list items).given fill = list (items.map (given fill)) := by
  cases fill with
  | none => exact congrArg list (List.map_id' items).symm
  | some s => exact congrArg list (withSenderAll_eq_map s items)

end Literal

namespace Operation

/-- A split names as many coins as it asks for. -/
def Balanced : Operation → Prop
  | splitCoins _ amounts out => amounts.length = out.length
  | _ => True

def packages : Operation → List String
  | moveCall package .. => [package]
  | upgrade _ _ package .. => [package]
  | _ => []

end Operation

def Refusal.report (site : Site) : Refusal → LowerError
  | encode cause => .encode site cause
  | uncut cause => .uncut cause

namespace Lowering

/-! ## Corresponding states and handles -/

variable {σ₁ σ₂ η₁ η₂ : Type}

/-- When states and handles of two targets correspond, and what a name of the first is called at the
second. A handle that passes anywhere is one for every kind of parameter. The first may have a
sender put in. -/
structure Correspondence (σ₁ σ₂ η₁ η₂ : Type) where
  name : String → String := id
  name_injective : Function.Injective name := by exact Function.injective_id
  fill : Option String := none
  state : σ₁ → σ₂ → Prop
  pass : σ₁ → σ₂ → η₁ → η₂ → Prop
  arg : ParamKind → σ₁ → σ₂ → η₁ → η₂ → Prop
  arg_of_pass {kind : ParamKind} {s : σ₁} {t : σ₂} {a : η₁} {b : η₂} :
    pass s t a b → arg kind s t a b

namespace Correspondence

variable (r : Correspondence σ₁ σ₂ η₁ η₂)

structure Keeps (s : σ₁) (t : σ₂) (s' : σ₁) (t' : σ₂) : Prop where
  pass {a : η₁} {b : η₂} : r.pass s t a b → r.pass s' t' a b
  arg {kind : ParamKind} {a : η₁} {b : η₂} : r.arg kind s t a b → r.arg kind s' t' a b

variable {r} {s s' s'' : σ₁} {t t' t'' : σ₂}

theorem Keeps.refl (r : Correspondence σ₁ σ₂ η₁ η₂) (s : σ₁) (t : σ₂) : r.Keeps s t s t :=
  ⟨id, id⟩

theorem Keeps.trans (h : r.Keeps s t s' t') (h' : r.Keeps s' t' s'' t'') :
    r.Keeps s t s'' t'' :=
  ⟨fun x => h'.pass (h.pass x), fun x => h'.arg (h.arg x)⟩

variable (r)

def args (s : σ₁) (t : σ₂) : List ParamKind → List η₁ → List η₂ → Prop
  | [], [], [] => True
  | kind :: kinds, a :: as, b :: bs => r.arg kind s t a b ∧ args s t kinds as bs
  | _, _, _ => False

variable {r} in
theorem args.length_eq : {kinds : List ParamKind} → {as : List η₁} → {bs : List η₂} →
    r.args s t kinds as bs → as.length = kinds.length
  | [], [], [], _ => rfl
  | _ :: _, _ :: _, _ :: _, h => congrArg (· + 1) h.2.length_eq

variable {r} in
theorem args.forall₂ {P : η₁ → η₂ → Prop} (hP : ∀ {kind a b}, r.arg kind s t a b → P a b) :
    {kinds : List ParamKind} → {as : List η₁} → {bs : List η₂} → r.args s t kinds as bs →
    List.Forall₂ P as bs
  | [], [], [], _ => .nil
  | _ :: _, _ :: _, _ :: _, h => .cons (hP h.1) (h.2.forall₂ hP)

def resolved (leaf : Literal → Prop) (s : σ₁) (t : σ₂) : Resolved η₁ → Resolved η₂ → Prop
  | .literal l, .literal m => l = m.given r.fill ∧ m.Leaves leaf
  | .handle a, .handle b => r.pass s t a b
  | .list xs, .list ys => all xs ys
  | _, _ => False
where
  all : List (Resolved η₁) → List (Resolved η₂) → Prop
    | [], [] => True
    | x :: xs, y :: ys => resolved leaf s t x y ∧ all xs ys
    | _, _ => False

/-- The handle of a resolved value. Only a literal is tied to a kind. -/
def encoded (kind : ParamKind) (value : Resolved η₁) (s : σ₁) (t : σ₂) (a : η₁) (b : η₂) : Prop :=
  match value with
  | .literal _ => r.arg kind s t a b
  | _ => r.pass s t a b

def entry (leaf : Literal → Prop) (s : σ₁) (t : σ₂) :
    Option (Entry η₁) → Option (Entry η₂) → Prop
  | none, none => True
  | some (.init v), some (.init w) =>
    ∃ value : Operand, v = value.given r.fill ∧ w = value.rename r.name ∧ value.Leaves leaf
  | some (.bound a), some (.bound b) => r.pass s t a b
  | _, _ => False

def memoized (kind : ParamKind) (s : σ₁) (t : σ₂) : Option η₁ → Option η₂ → Prop
  | none, none => True
  | some a, some b => r.arg kind s t a b
  | _, _ => False

structure walk (leaf : Literal → Prop) (w₁ : Walk σ₁ η₁) (w₂ : Walk σ₂ η₂) : Prop where
  state : r.state w₁.target w₂.target
  env (name : String) : r.entry leaf w₁.target w₂.target (Directory.get? w₁.env name)
    (Directory.get? w₂.env (r.name name))
  memo (kind : ParamKind) (symbol : String) : r.memoized kind w₁.target w₂.target
    (w₁.memo.lookup (kind, symbol)) (w₂.memo.lookup (kind, r.name symbol))

/-! ## Calls of a target -/

/-- Answers to one call, from corresponding states. -/
def Step {α β : Type} (exempt : Refusal → Prop) (s : σ₁) (t : σ₂)
    (post : σ₁ → σ₂ → α → β → Prop) :
    Except Refusal (α × σ₁) → Except Refusal (β × σ₂) → Prop :=
  Follows exempt fun x y => r.state x.2 y.2 ∧ r.Keeps s t x.2 y.2 ∧ post x.2 y.2 x.1 y.1

end Correspondence

/-- What the program promises to a target: the literals it has, the packages it names, and whether
each split names as many coins as it asks for. -/
structure Promise where
  leaf : Literal → Prop
  package : String → Prop
  balanced : Prop := False

/-- Every call that a walk makes is answered alike by both targets. -/
structure Simulates (T₁ : Target σ₁ η₁) (T₂ : Target σ₂ η₂) (r : Correspondence σ₁ σ₂ η₁ η₂)
    (sender : Option String) (promise : Promise) (exempt : Refusal → Prop) : Prop where
  fill : r.fill = none ∨ r.fill = sender := by exact .inl rfl
  object {s : σ₁} {t : σ₂} (o : ObjectRef) (symbol : Option String) : r.state s t →
    r.Step exempt s t r.pass (T₁.object o symbol s)
      (T₂.object o (symbol.map r.name) t)
  pure {s : σ₁} {t : σ₂} (kind : ParamKind) (value : Literal) (symbol : Option String) :
    r.state s t → value.Leaves promise.leaf →
    r.Step exempt s t (r.arg kind) (T₁.pure kind (value.given sender) symbol s)
      (T₂.pure kind (value.given sender) (symbol.map r.name) t)
  splitCoins {s : σ₁} {t : σ₂} {coin : η₁} {coin' : η₂} {amounts : List η₁} {amounts' : List η₂}
    {count : Nat} (out : List String) : r.state s t → r.pass s t coin coin' →
    (promise.balanced → count = out.length) →
    r.args s t (List.replicate count (.integer .u64)) amounts amounts' →
    r.Step exempt s t (fun s t => List.Forall₂ (r.pass s t)) (T₁.splitCoins coin amounts out s)
      (T₂.splitCoins coin' amounts' (out.map r.name) t)
  mergeCoins {s : σ₁} {t : σ₂} {destination : η₁} {destination' : η₂} {sources : List η₁}
    {sources' : List η₂} : r.state s t → r.pass s t destination destination' →
    List.Forall₂ (r.pass s t) sources sources' →
    r.Step exempt s t (fun _ _ _ _ => True) (T₁.mergeCoins destination sources s)
      (T₂.mergeCoins destination' sources' t)
  transferObjects {s : σ₁} {t : σ₂} {objects : List η₁} {objects' : List η₂} {recipient : η₁}
    {recipient' : η₂} : r.state s t → List.Forall₂ (r.pass s t) objects objects' →
    r.arg .address s t recipient recipient' →
    r.Step exempt s t (fun _ _ _ _ => True) (T₁.transferObjects objects recipient s)
      (T₂.transferObjects objects' recipient' t)
  makeMoveVec {s : σ₁} {t : σ₂} {elems : List η₁} {elems' : List η₂} (kind : ParamKind)
    (elem : Option String) (out : Option String) : r.state s t →
    List.Forall₂ (r.arg kind s t) elems elems' →
    kind = Context.vectorElemKind elem ∨ elem = kind.pureType? ∧ out = none →
    r.Step exempt s t r.pass (T₁.makeMoveVec elem elems out s)
      (T₂.makeMoveVec elem elems' (out.map r.name) t)
  moveCall {s : σ₁} {t : σ₂} {args : List η₁} {args' : List η₂} (callee : Callee)
    (kinds : List ParamKind) (out : List String) : r.state s t → promise.package callee.package →
    r.args s t kinds args args' →
    r.Step exempt s t (fun s t => List.Forall₂ (r.pass s t)) (T₁.moveCall callee args out s)
      (T₂.moveCall callee args' (out.map r.name) t)
  publish {s : σ₁} {t : σ₂} (modules dependencies : List String) (out : String) : r.state s t →
    r.Step exempt s t r.pass (T₁.publish modules dependencies out s)
      (T₂.publish modules dependencies (r.name out) t)
  upgrade {s : σ₁} {t : σ₂} {ticket : η₁} {ticket' : η₂} (modules dependencies : List String)
    (package out : String) : r.state s t → promise.package package → r.pass s t ticket ticket' →
    r.Step exempt s t r.pass (T₁.upgrade modules dependencies package ticket out s)
      (T₂.upgrade modules dependencies package ticket' (r.name out) t)

def reports (exempt : Refusal → Prop) : LowerError → Prop
  | .encode _ cause => exempt (.encode cause)
  | .uncut cause => exempt (.uncut cause)
  | _ => False

theorem reports_report {exempt : Refusal → Prop} {e : Refusal} (h : exempt e) (site : Site) :
    reports exempt (e.report site) := by
  cases e <;> exact h

/-! ## What stays so -/

namespace Correspondence

variable {r : Correspondence σ₁ σ₂ η₁ η₂} {leaf : Literal → Prop} {s s' : σ₁} {t t' : σ₂}

theorem resolved.keeps (h : r.Keeps s t s' t') : (x : Resolved η₁) → (y : Resolved η₂) →
    r.resolved leaf s t x y → r.resolved leaf s' t' x y
  | .literal _, .literal _, hx => hx
  | .handle _, .handle _, hx => h.pass hx
  | .list xs, .list ys, hx => keepsAll xs ys hx
where
  keepsAll : (xs : List (Resolved η₁)) → (ys : List (Resolved η₂)) →
      resolved.all r leaf s t xs ys → resolved.all r leaf s' t' xs ys
    | [], [], _ => trivial
    | x :: xs, y :: ys, hx => ⟨resolved.keeps h x y hx.1, keepsAll xs ys hx.2⟩

theorem encoded.arg {kind : ParamKind} {value : Resolved η₁} {a : η₁} {b : η₂}
    (h : r.encoded kind value s t a b) : r.arg kind s t a b := by
  cases value with
  | literal _ => exact h
  | handle _ => exact r.arg_of_pass h
  | list _ => exact r.arg_of_pass h

theorem entry.keeps (h : r.Keeps s t s' t') {x : Option (Entry η₁)} {y : Option (Entry η₂)}
    (hx : r.entry leaf s t x y) : r.entry leaf s' t' x y := by
  rcases x with _ | _ | _ <;> rcases y with _ | _ | _ <;> first | exact hx | exact h.pass hx

theorem memoized.keeps (h : r.Keeps s t s' t') {kind : ParamKind} {x : Option η₁} {y : Option η₂}
    (hx : r.memoized kind s t x y) : r.memoized kind s' t' x y := by
  rcases x with _ | _ <;> rcases y with _ | _ <;> first | exact hx | exact h.arg hx

theorem forall₂_pass_keeps (h : r.Keeps s t s' t') {as : List η₁} {bs : List η₂}
    (hx : List.Forall₂ (r.pass s t) as bs) : List.Forall₂ (r.pass s' t') as bs :=
  hx.imp fun _ _ => h.pass

end Correspondence

end Lowering

end TxGraph
