import TxGraph.Proofs.Lowering.Correspondence
import TxGraph.Proofs.Lowering.Env

/-!
# Two walks in step

The walk does not look into the handles of a target. So two walks that resolve operands and encode
literals alike gather their operands alike (`Lockstep.Gathers`), and if their targets answer the
calls of operations alike too (`Lockstep.Issues`), they stay in step over all operations. The
operands of the first may be replaced, and the second may walk the program under other names. What
the first may fail with is settled on the way: by what its target refuses, and by whether resolved
values have the shape that their use asks for. There is one lemma for each function of the walk; the
main statement is `operations_together`.
-/

namespace TxGraph.Lowering

variable {σ σ₁ σ₂ η η₁ η₂ α β γ δ : Type}

/-! ## What operands are for -/

/-- What an operand is used for: where a kind is given, it is that of the parameter, or that of the
elements of the vector. -/
inductive Use
  | handle
  | value (kind : ParamKind)
  | vector (kind : ParamKind)
  | typeName

def uses (kind : ParamKind) : Group → List (Use × Operand)
  | .each values => values.map (.value kind, ·)
  | .packed value => [(.vector kind, value)]

def Use.all : Operation → List (Use × Operand)
  | .splitCoins coin amounts _ => (.handle, coin) :: amounts.map (.value (.integer .u64), ·)
  | .mergeCoins destination sources => (.handle, destination) :: uses .handle sources
  | .transferObjects objects recipient => uses .handle objects ++ [(.value .address, recipient)]
  | .makeMoveVec elem elems _ => uses (Context.vectorElemKind elem) elems
  | .moveCall _ _ _ typeArgs args _ =>
    typeArgs.map (.typeName, ·) ++ args.map fun a => (.value a.kind, a.value)
  | .publish .. => []
  | .upgrade _ _ _ ticket _ => [(.handle, ticket)]

theorem Use.map_all (op : Operation) : (Use.all op).map Prod.snd = op.operands := by
  have hgroup (kind : ParamKind) (g : Group) : (uses kind g).map Prod.snd = g.operands := by
    cases g <;> simp [uses, Group.operands, Function.comp_def]
  cases op <;> simp [all, Operation.operands, hgroup, Function.comp_def]

theorem Use.mem_operands {op : Operation} {u : Use × Operand} (h : u ∈ Use.all op) :
    u.2 ∈ op.operands :=
  Use.map_all op ▸ List.mem_map_of_mem h

/-- The target refuses nothing but what `bad` says, pure values apart. -/
structure Refuses (bad : Refusal → Prop) (T : Target σ η) : Prop where
  object (o : ObjectRef) (symbol : Option String) (s : σ) :
    Ends bad (fun _ => True) (T.object o symbol s)
  splitCoins (coin : η) (amounts : List η) (out : List String) (s : σ) :
    Ends bad (fun _ => True) (T.splitCoins coin amounts out s)
  mergeCoins (destination : η) (sources : List η) (s : σ) :
    Ends bad (fun _ => True) (T.mergeCoins destination sources s)
  transferObjects (objects : List η) (recipient : η) (s : σ) :
    Ends bad (fun _ => True) (T.transferObjects objects recipient s)
  makeMoveVec (elem : Option String) (elems : List η) (out : Option String) (s : σ) :
    Ends bad (fun _ => True) (T.makeMoveVec elem elems out s)
  moveCall (callee : Callee) (args : List η) (out : List String) (s : σ) :
    Ends bad (fun _ => True) (T.moveCall callee args out s)
  publish (modules dependencies : List String) (out : String) (s : σ) :
    Ends bad (fun _ => True) (T.publish modules dependencies out s)
  upgrade (modules dependencies : List String) (package : String) (ticket : η) (out : String)
    (s : σ) : Ends bad (fun _ => True) (T.upgrade modules dependencies package ticket out s)

theorem Refuses.any (T : Target σ η) : Refuses (fun _ => True) T := by
  constructor <;> intros <;> exact .always _

structure Complete (T : Target σ η) : Prop where
  splitCoins {coin : η} {amounts handles : List η} {out : List String} {s s' : σ} :
    amounts.length = out.length → T.splitCoins coin amounts out s = .ok (handles, s') →
    handles.length = out.length
  moveCall {callee : Callee} {args handles : List η} {out : List String} {s s' : σ} :
    T.moveCall callee args out s = .ok (handles, s') → handles.length = out.length

/-- How two walks stand alike, and what they have in common on the way. -/
structure Lockstep (r : Correspondence σ₁ σ₂ η₁ η₂) where
  walk : Walk σ₁ η₁ → Walk σ₂ η₂ → Prop
  /-- The errors at which the first may fall behind. -/
  exempt : LowerError → Prop
  /-- The errors that the first may raise. -/
  raised : LowerError → Prop := fun _ => True
  /-- What the target of the first may refuse. -/
  refused : Refusal → Prop := fun _ => True
  /-- What values are like that the first uses at a kind. -/
  fits : ParamKind → Resolved η₁ → Prop := fun _ _ => True
  /-- What holds of the literals of the program. -/
  leaf : Literal → Prop := fun _ => True
  /-- What holds of the operands of the program, by their use. -/
  operand : Use → Operand → Prop := fun _ value => value.Leaves leaf
  /-- What the first has in place of an operand. -/
  first : Operand → Operand := Operand.given r.fill
  /-- The symbols under which each of them may encode a literal. -/
  named : Option String → Option String → Literal → Prop

namespace Lockstep

variable {r : Correspondence σ₁ σ₂ η₁ η₂} (L : Lockstep r)

/-! ## Computations of two walks -/

def Step (w₁ : Walk σ₁ η₁) (w₂ : Walk σ₂ η₂) (post : σ₁ → σ₂ → α → β → Prop) :
    Except Refusal (α × σ₁) → Except Refusal (β × σ₂) → Prop :=
  Follows (fun e => ∀ site, L.exempt (e.report site)) fun x y =>
    L.walk { w₁ with target := x.2 } { w₂ with target := y.2 } ∧
      r.Keeps w₁.target w₂.target x.2 y.2 ∧ post x.2 y.2 x.1 y.1

/-- The second computation follows the first, to walks that stand as `last` says. An error of the
first mentions the names as the second calls them. -/
def Leads (last : Walk σ₁ η₁ → Walk σ₂ η₂ → Prop) (w₁ : Walk σ₁ η₁) (w₂ : Walk σ₂ η₂)
    (post : σ₁ → σ₂ → α → β → Prop) (x : WalkM σ₁ η₁ α) (y : WalkM σ₂ η₂ β) : Prop :=
  Follows L.exempt (fun a b => last a.2 b.2 ∧
    r.Keeps w₁.target w₂.target a.2.target b.2.target ∧ post a.2.target b.2.target a.1 b.1)
    ((x.run w₁).mapError (LowerError.rename r.name)) (y.run w₂) ∧
  Ends L.raised (fun _ => True) (x.run w₁)

/-- The second computation follows the first from walks that stand alike. -/
abbrev Together (w₁ : Walk σ₁ η₁) (w₂ : Walk σ₂ η₂) (post : σ₁ → σ₂ → α → β → Prop)
    (x : WalkM σ₁ η₁ α) (y : WalkM σ₂ η₂ β) : Prop :=
  L.Leads L.walk w₁ w₂ post x y

variable {L} {w₁ : Walk σ₁ η₁} {w₂ : Walk σ₂ η₂} {c₁ : Context σ₁ η₁} {c₂ : Context σ₂ η₂}
variable {T₁ : Target σ₁ η₁} {op : Operation} {allowed : Operation → Prop}

namespace Leads

variable {last last' : Walk σ₁ η₁ → Walk σ₂ η₂ → Prop} {post post' : σ₁ → σ₂ → α → β → Prop}
  {next : σ₁ → σ₂ → γ → δ → Prop}
variable {x : WalkM σ₁ η₁ α} {y : WalkM σ₂ η₂ β}

theorem pure (hw : last w₁ w₂) {a : α} {b : β} (h : post w₁.target w₂.target a b) :
    L.Leads last w₁ w₂ post (pure a) (pure b) :=
  ⟨.ok ⟨hw, .refl r _ _, h⟩, .ok trivial⟩

theorem throw (e : LowerError) (h : L.raised e) :
    L.Leads last w₁ w₂ post (throw e) (throw (e.rename r.name)) :=
  ⟨.error _, .error h⟩

theorem mono (h : L.Leads last w₁ w₂ post x y) (hp : ∀ {s t a b}, post s t a b → post' s t a b) :
    L.Leads last w₁ w₂ post' x y :=
  ⟨h.1.mono fun _ _ ⟨hw, hk, ha⟩ => ⟨hw, hk, hp ha⟩, h.2⟩

theorem bind {f : α → WalkM σ₁ η₁ γ} {g : β → WalkM σ₂ η₂ δ} (h : L.Leads last w₁ w₂ post x y)
    (hf : ∀ {v₁ : Walk σ₁ η₁} {v₂ : Walk σ₂ η₂} {a : α} {b : β}, last v₁ v₂ →
      r.Keeps w₁.target w₂.target v₁.target v₂.target → post v₁.target v₂.target a b →
      L.Leads last' v₁ v₂ next (f a) (g b)) : L.Leads last' w₁ w₂ next (x >>= f) (y >>= g) := by
  obtain ⟨hfollows, hraised⟩ := h
  unfold Leads
  rw [StateT.run_bind, StateT.run_bind, mapError_bind]
  constructor
  · refine Follows.bind hfollows ?_
    rintro ⟨a, v₁⟩ ⟨b, v₂⟩ ⟨hv, hk, hp⟩
    exact (hf hv hk hp).1.mono fun _ _ ⟨hu, hk', hq⟩ => ⟨hu, hk.trans hk', hq⟩
  · generalize x.run w₁ = u at hfollows hraised
    generalize y.run w₂ = v at hfollows
    cases u with
    | error e => exact .error hraised.of_error
    | ok r =>
      cases hfollows with
      | ok h => exact (hf h.1 h.2.1 h.2.2).2

theorem get_bind {f : Walk σ₁ η₁ → WalkM σ₁ η₁ γ} {g : Walk σ₂ η₂ → WalkM σ₂ η₂ δ}
    (h : L.Leads last w₁ w₂ next (f w₁) (g w₂)) :
    L.Leads last w₁ w₂ next (get >>= f) (get >>= g) := h

theorem modify {f : Walk σ₁ η₁ → Walk σ₁ η₁} {g : Walk σ₂ η₂ → Walk σ₂ η₂}
    (hw : last (f w₁) (g w₂)) (h₁ : (f w₁).target = w₁.target)
    (h₂ : (g w₂).target = w₂.target) :
    L.Leads last w₁ w₂ (fun _ _ _ _ => True) (modify f) (modify g) :=
  ⟨.ok ⟨hw, by rw [h₁, h₂]; exact .refl r _ _, trivial⟩, .ok trivial⟩

theorem shapeError (hsite : c₁.site = c₂.site) {slot : Slot} {expected : Expected}
    (h : ∀ slot, L.raised (.operandShape c₁.site slot expected)) :
    L.Leads last w₁ w₂ post (c₁.shapeError slot expected) (c₂.shapeError slot expected) := by
  unfold Context.shapeError
  rw [← hsite]
  exact .throw (.operandShape c₁.site slot expected) (h slot)

theorem call (hsite : c₁.site = c₂.site) {f : σ₁ → Except Refusal (α × σ₁)}
    {g : σ₂ → Except Refusal (β × σ₂)}
    (hraised : Ends (fun e => L.raised (e.report c₁.site)) (fun _ => True) (f w₁.target))
    (h : L.Step w₁ w₂ post (f w₁.target) (g w₂.target)) :
    L.Together w₁ w₂ (fun s t a b => post s t a b ∧ f w₁.target = .ok (a, s)) (c₁.call f)
      (c₂.call g) := by
  obtain ⟨s, env₁, memo₁⟩ := w₁
  obtain ⟨t, env₂, memo₂⟩ := w₂
  unfold Together Leads StateT.run Context.call
  simp only [Step, hsite] at h hraised ⊢
  generalize f s = x at h hraised ⊢
  generalize g t = y at h ⊢
  cases h with
  | ok h => exact ⟨.ok ⟨h.1, h.2.1, h.2.2, rfl⟩, .ok trivial⟩
  | error e =>
    have he := hraised.of_error
    cases e <;> exact ⟨.error _, .error he⟩
  | @exempt e h y =>
    have he := hraised.of_error
    cases e <;> exact ⟨.exempt (h c₂.site) _, .error he⟩

end Leads

/-! ## Gathering operands -/

/-- What a use asks of the value. One of another shape may be met only if this is an error that may
be raised. -/
def asks (raised : LowerError → Prop) (fits : ParamKind → Resolved η → Prop) (site : Site) :
    Use → Resolved η → Prop
  | .handle, value => (∃ a, value = .handle a) ∨ ∀ slot, raised (.operandShape site slot .handle)
  | .value kind, value => fits kind value
  | .vector _, .handle _ => True
  | .vector kind, .list items => ∀ item ∈ items, fits kind item
  | .vector kind, .literal (.list items) => ∀ item ∈ items, fits kind (.literal item)
  | .vector _, .literal _ => ∀ slot, raised (.operandShape site slot .vector)
  | .typeName, value => (∃ s, value = .literal (.string s) ∧ (Text.trim s).isEmpty = false) ∨
    ∀ slot, raised (.operandShape site slot .typeName)

/-- Where any shape may be met and nothing is asked of values, all of them serve any use. -/
theorem asks_of_lax {raised : LowerError → Prop} {fits : ParamKind → Resolved η → Prop} {site : Site}
    (hraised : ∀ slot expected, raised (.operandShape site slot expected))
    (hfits : ∀ kind x, fits kind x) : (use : Use) → (x : Resolved η) → asks raised fits site use x
  | .handle, _ => .inr fun slot => hraised slot .handle
  | .value _, _ => hfits _ _
  | .vector _, .handle _ => trivial
  | .vector _, .list _ => fun _ _ => hfits _ _
  | .vector _, .literal l => by
    cases l <;> first | exact fun slot => hraised slot .vector | exact fun _ _ => hfits _ _
  | .typeName, _ => .inr fun slot => hraised slot .typeName

section

variable (L)

def Finds (site : Site) (use : Use) (v : Operand) (s : σ₁) (t : σ₂) (x : Resolved η₁)
    (y : Resolved η₂) : Prop :=
  r.resolved L.leaf s t x y ∧ asks L.raised L.fits site use x ∧
    ∀ l, x = .literal l → L.named (symbolOf (L.first v)) (symbolOf (v.rename r.name)) l

/-- What fits can be encoded, and what the target refuses is reported by an error that may be
raised. -/
structure Allows (c₁ : Context σ₁ η₁) : Prop where
  refuses : Refuses L.refused c₁.target
  reports (e : Refusal) : L.refused e → L.raised (e.report c₁.site)
  items {kind : ParamKind} {items : List (Resolved η₁)} : L.fits kind (.list items) →
    ∀ item ∈ items, L.fits (Context.elemKind kind) item
  noHandle {l : Literal} : L.fits .handle (.literal l) →
    ∀ slot, L.raised (.operandShape c₁.site slot .handle)

/-- The walks resolve operands alike and encode literals alike. -/
structure Gathers (c₁ : Context σ₁ η₁) (c₂ : Context σ₂ η₂) : Prop extends L.Allows c₁ where
  site : c₁.site = c₂.site
  named_none (l : Literal) : L.named none none l
  resolve (slot : Slot) {use : Use} {v : Operand} {w₁ : Walk σ₁ η₁} {w₂ : Walk σ₂ η₂} :
    L.operand use v → L.walk w₁ w₂ → L.Together w₁ w₂ (L.Finds c₁.site use v)
      (c₁.resolve slot (L.first v)) (c₂.resolve slot (v.rename r.name))
  literal (kind : ParamKind) {l : Literal} {symbol symbol' : Option String} {w₁ : Walk σ₁ η₁}
    {w₂ : Walk σ₂ η₂} : l.Leaves L.leaf → L.fits kind (.literal (l.given r.fill)) →
    L.named symbol symbol' (l.given r.fill) → L.walk w₁ w₂ →
    L.Together w₁ w₂ (r.arg kind) (c₁.encodeLiteral kind (l.given r.fill) symbol)
      (c₂.encodeLiteral kind l symbol')
  vector (kind : ParamKind) {elems : List η₁} {elems' : List η₂} {w₁ : Walk σ₁ η₁}
    {w₂ : Walk σ₂ η₂} : L.walk w₁ w₂ →
    List.Forall₂ (r.arg kind w₁.target w₂.target) elems elems' →
    L.Step w₁ w₂ r.pass (c₁.target.makeMoveVec kind.pureType? elems none w₁.target)
      (c₂.target.makeMoveVec kind.pureType? elems' none w₂.target)

end

section

open Correspondence

variable (G : L.Gathers c₁ c₂)
variable {value : Operand}

include G

theorem call_together {f : σ₁ → Except Refusal (α × σ₁)} {g : σ₂ → Except Refusal (β × σ₂)}
    {post : σ₁ → σ₂ → α → β → Prop} (hends : Ends L.refused (fun _ => True) (f w₁.target))
    (h : L.Step w₁ w₂ post (f w₁.target) (g w₂.target)) :
    L.Together w₁ w₂ (fun s t a b => post s t a b ∧ f w₁.target = .ok (a, s)) (c₁.call f)
      (c₂.call g) :=
  .call G.site (hends.mono_error G.reports) h

theorem encode_together : (x : Resolved η₁) → (y : Resolved η₂) → (kind : ParamKind) →
    {symbol symbol' : Option String} → {w₁ : Walk σ₁ η₁} → {w₂ : Walk σ₂ η₂} →
    L.walk w₁ w₂ → r.resolved L.leaf w₁.target w₂.target x y → L.fits kind x →
    (∀ l, x = .literal l → L.named symbol symbol' l) →
    L.Together w₁ w₂ (r.encoded kind x) (c₁.encode kind symbol x) (c₂.encode kind symbol' y)
  | .handle _, .handle _, _, _, _, _, _, hw, h, _, _ => .pure hw h
  | .literal _, .literal l, kind, _, _, _, _, hw, ⟨rfl, h⟩, hfits, hname =>
    G.literal kind h hfits (hname _ rfl) hw
  | .list items, .list items', kind, _, _, _, _, hw, h, hfits, _ =>
    .bind (items_together items items' (Context.elemKind kind) hw h (G.items hfits)) fun hw _ h =>
      (call_together G (G.refuses.makeMoveVec _ _ _ _) (G.vector _ hw h)).mono And.left
where
  items_together : (items : List (Resolved η₁)) → (items' : List (Resolved η₂)) →
      (kind : ParamKind) → {w₁ : Walk σ₁ η₁} → {w₂ : Walk σ₂ η₂} → L.walk w₁ w₂ →
      resolved.all r L.leaf w₁.target w₂.target items items' →
      (∀ item ∈ items, L.fits kind item) →
      L.Together w₁ w₂ (fun s t => List.Forall₂ (r.arg kind s t))
        (Context.encode.encodeItems c₁ kind items) (Context.encode.encodeItems c₂ kind items')
    | [], [], _, _, _, hw, _, _ => .pure hw .nil
    | item :: rest, item' :: rest', kind, _, _, hw, h, hfits =>
      .bind (encode_together item item' kind hw h.1 (hfits item List.mem_cons_self)
          fun l _ => G.named_none l) fun hw hk hitem =>
        .bind (items_together rest rest' kind hw (resolved.keeps.keepsAll hk _ _ h.2)
            fun other hother => hfits other (List.mem_cons_of_mem _ hother))
          fun hw hk hrest => .pure hw (.cons (hk.arg hitem.arg) hrest)

theorem argument_together (slot : Slot) (kind : ParamKind) (hv : L.operand (.value kind) value)
    (hw : L.walk w₁ w₂) :
    L.Together w₁ w₂ (r.arg kind) (c₁.argument slot kind (L.first value))
      (c₂.argument slot kind (value.rename r.name)) :=
  .bind (G.resolve slot hv hw) fun hw _ h =>
    (encode_together G _ _ kind hw h.1 h.2.1 h.2.2).mono (·.arg)

theorem handle_together (slot : Slot) (hv : L.operand .handle value) (hw : L.walk w₁ w₂) :
    L.Together w₁ w₂ r.pass (c₁.handle slot (L.first value))
      (c₂.handle slot (value.rename r.name)) := by
  refine .bind (G.resolve slot hv hw) ?_
  rintro v₁ v₂ x y hw _ ⟨h, hasks, -⟩
  match x, y, h with
  | .handle _, .handle _, h => exact .pure hw h
  | .literal _, .literal _, _ => exact .shapeError G.site (hasks.resolve_left nofun)
  | .list _, .list _, _ => exact .shapeError G.site (hasks.resolve_left nofun)

omit G in
/-- An element of a group. One that is to be a handle is no literal, so it passes anywhere. -/
def elem (r : Correspondence σ₁ σ₂ η₁ η₂) (kind : ParamKind) (s : σ₁) (t : σ₂) (a : η₁) (b : η₂) :
    Prop :=
  r.arg kind s t a b ∧ (kind = .handle → r.pass s t a b)

omit G in
theorem elem_keeps {s s' : σ₁} {t t' : σ₂} (hk : r.Keeps s t s' t') {kind : ParamKind} {a : η₁}
    {b : η₂} (h : elem r kind s t a b) : elem r kind s' t' a b :=
  ⟨hk.arg h.1, fun hkind => hk.pass (h.2 hkind)⟩

theorem element_together (slot : Slot) (kind : ParamKind) {symbol symbol' : Option String}
    {x : Resolved η₁} {y : Resolved η₂} (hw : L.walk w₁ w₂)
    (h : r.resolved L.leaf w₁.target w₂.target x y) (hfits : L.fits kind x)
    (hname : ∀ l, x = .literal l → L.named symbol symbol' l) :
    L.Together w₁ w₂ (elem r kind) (c₁.element slot kind symbol x)
      (c₂.element slot kind symbol' y) := by
  match x, y, h with
  | .literal _, .literal l, ⟨rfl, hl⟩ =>
    by_cases hkind : kind = .handle
    · simp only [Context.element, if_pos hkind]
      exact .shapeError G.site (G.noHandle (hkind ▸ hfits))
    · simp only [Context.element, if_neg hkind]
      exact (G.literal kind hl hfits (hname _ rfl) hw).mono fun h => ⟨h, fun he => absurd he hkind⟩
  | .handle _, .handle _, h => exact .pure hw ⟨r.arg_of_pass h, fun _ => h⟩
  | .list xs, .list ys, h =>
    exact (encode_together G (.list xs) (.list ys) kind hw h hfits hname).mono
      fun h => ⟨h.arg, fun _ => h⟩

theorem elements_together (slot : Slot) (kind : ParamKind) : (items : List (Resolved η₁)) →
    (items' : List (Resolved η₂)) → {w₁ : Walk σ₁ η₁} → {w₂ : Walk σ₂ η₂} → L.walk w₁ w₂ →
    resolved.all r L.leaf w₁.target w₂.target items items' → (∀ item ∈ items, L.fits kind item) →
    L.Together w₁ w₂ (fun s t => List.Forall₂ (elem r kind s t)) (c₁.elements slot kind items)
      (c₂.elements slot kind items')
  | [], [], _, _, hw, _, _ => .pure hw .nil
  | item :: rest, _ :: rest', _, _, hw, h, hfits =>
    .bind (element_together G slot kind hw h.1 (hfits item List.mem_cons_self)
        fun l _ => G.named_none l) fun hw hk hitem =>
      .bind (elements_together slot kind rest rest' hw (resolved.keeps.keepsAll hk _ _ h.2)
          fun other hother => hfits other (List.mem_cons_of_mem _ hother))
        fun hw hk hrest => .pure hw (.cons (elem_keeps hk hitem) hrest)

theorem numbered_together (name : String) (kind : ParamKind) : (i : Nat) →
    (values : List Operand) → (∀ v ∈ values, L.operand (.value kind) v) → {w₁ : Walk σ₁ η₁} →
    {w₂ : Walk σ₂ η₂} → L.walk w₁ w₂ →
    L.Together w₁ w₂ (fun s t => List.Forall₂ (elem r kind s t))
      (c₁.numbered name kind i (values.map L.first))
      (c₂.numbered name kind i (values.map (Operand.rename r.name)))
  | _, [], _, _, _, hw => .pure hw .nil
  | i, value :: rest, hv, _, _, hw =>
    .bind (G.resolve (.nth name i) (hv value List.mem_cons_self) hw) fun hw _ h =>
      .bind (element_together G (.nth name i) kind hw h.1 h.2.1 h.2.2) fun hw _ hitem =>
        .bind (numbered_together name kind (i + 1) rest
            (fun v hm => hv v (List.mem_cons_of_mem _ hm)) hw)
          fun hw hk hrest => .pure hw (.cons (elem_keeps hk hitem) hrest)

omit G in
theorem literals_resolved {s : σ₁} {t : σ₂} {leaf : Literal → Prop} : (items : List Literal) →
    Literal.Leaves.all leaf items →
    resolved.all r leaf s t ((items.map (Literal.given r.fill)).map .literal) (items.map .literal)
  | [], _ => trivial
  | _ :: rest, h => ⟨⟨rfl, h.1⟩, literals_resolved rest h.2⟩

theorem spread_together (name : String) (kind : ParamKind) (group : Group)
    (hv : ∀ u ∈ uses kind group, L.operand u.1 u.2) (hw : L.walk w₁ w₂) :
    L.Together w₁ w₂ (fun s t => List.Forall₂ (elem r kind s t))
      (c₁.spread name kind (group.map L.first)) (c₂.spread name kind (group.rename r.name)) := by
  cases group with
  | each values =>
    exact numbered_together G name kind 0 values
      (fun v hm => hv (.value kind, v) (List.mem_map_of_mem hm)) hw
  | packed value =>
    refine .bind (G.resolve (.of name) (hv _ List.mem_cons_self) hw) ?_
    rintro v₁ v₂ x y hw _ ⟨h, hasks, -⟩
    match x, y, h with
    | .handle _, .handle _, h => exact .pure hw (.cons ⟨r.arg_of_pass h, fun _ => h⟩ .nil)
    | .list items, .list items', h => exact elements_together G _ kind items items' hw h hasks
    | .literal _, .literal l, ⟨rfl, hl⟩ =>
      cases l with
      | list items =>
        simp only [Literal.given_list] at hasks ⊢
        exact elements_together G _ kind _ _ hw (literals_resolved items hl)
          (List.forall_mem_map.mpr hasks)
      | _ =>
        generalize r.fill = fill at hasks ⊢
        cases fill <;> exact .shapeError G.site hasks

theorem arguments_together (name : String) : (i : Nat) → (args : List Argument) →
    (∀ a ∈ args, L.operand (.value a.kind) a.value) → {w₁ : Walk σ₁ η₁} → {w₂ : Walk σ₂ η₂} →
    L.walk w₁ w₂ → L.Together w₁ w₂ (fun s t => r.args s t (args.map Argument.kind))
      (c₁.arguments name i (args.map fun a => ⟨L.first a.value, a.kind⟩))
      (c₂.arguments name i (args.map (Argument.rename r.name)))
  | _, [], _, _, _, hw => .pure hw trivial
  | i, a :: rest, hv, _, _, hw =>
    .bind (argument_together G (.nth name i) a.kind (hv a List.mem_cons_self) hw) fun hw _ h =>
      .bind (arguments_together name (i + 1) rest
          (fun b hm => hv b (List.mem_cons_of_mem _ hm)) hw)
        fun hw hk hrest => .pure hw ⟨hk.arg h, hrest⟩

theorem typeName_together (slot : Slot) (hv : L.operand .typeName value) (hw : L.walk w₁ w₂) :
    L.Together w₁ w₂ (fun _ _ => Eq) (c₁.typeName slot (L.first value))
      (c₂.typeName slot (value.rename r.name)) := by
  refine .bind (G.resolve slot hv hw) ?_
  rintro v₁ v₂ x y hw _ ⟨h, hasks, -⟩
  match x, y, h with
  | .handle _, .handle _, _ => exact .shapeError G.site (hasks.resolve_left nofun)
  | .list _, .list _, _ => exact .shapeError G.site (hasks.resolve_left nofun)
  | .literal _, .literal l, ⟨rfl, _⟩ =>
    cases l with
    | string text =>
      rw [Literal.given_string] at hasks ⊢
      dsimp only
      split
      case isTrue hempty =>
        refine .shapeError G.site (hasks.resolve_left ?_)
        rintro ⟨_, ⟨⟩, hs⟩
        rw [hs] at hempty
        cases hempty
      case isFalse => exact .pure hw rfl
    | _ =>
      generalize r.fill = fill at hasks ⊢
      cases fill <;> exact .shapeError G.site (hasks.resolve_left nofun)

theorem typeNames_together : (i : Nat) → (values : List Operand) →
    (∀ v ∈ values, L.operand .typeName v) → {w₁ : Walk σ₁ η₁} → {w₂ : Walk σ₂ η₂} → L.walk w₁ w₂ →
    L.Together w₁ w₂ (fun _ _ => Eq) (c₁.typeNames i (values.map L.first))
      (c₂.typeNames i (values.map (Operand.rename r.name)))
  | _, [], _, _, _, hw => .pure hw rfl
  | i, value :: rest, hv, _, _, hw =>
    .bind (typeName_together G (.nth "type_arg" i) (hv value List.mem_cons_self) hw) fun hw _ h =>
      .bind (typeNames_together (i + 1) rest (fun v hm => hv v (List.mem_cons_of_mem _ hm)) hw)
        fun hw _ hrest => .pure hw (h ▸ hrest ▸ rfl)

end

/-! ## Operations -/

variable (L) in
/-- What both walks have in common once the results of an operation are named. The first has named
each of them, if its target is complete. -/
def Binds (last : Walk σ₁ η₁ → Walk σ₂ η₂ → Prop) (T₁ : Target σ₁ η₁) (op : Operation) : Prop :=
  ∀ {w₁ : Walk σ₁ η₁} {w₂ : Walk σ₂ η₂} {as : List η₁} {bs : List η₂}, L.walk w₁ w₂ →
    List.Forall₂ (r.pass w₁.target w₂.target) as bs →
    (Complete T₁ → op.Balanced → as.length = op.outputs.length) →
    last { w₁ with env := bindEnv op.outputs as w₁.env }
      { w₂ with env := bindEnv (op.outputs.map r.name) bs w₂.env }

/-- Results are named one by one. -/
theorem binds_of_insert
    (h : ∀ name ∈ op.outputs, ∀ {w₁ : Walk σ₁ η₁} {w₂ : Walk σ₂ η₂} {a : η₁} {b : η₂},
      L.walk w₁ w₂ → r.pass w₁.target w₂.target a b →
      L.walk { w₁ with env := Directory.insert name (.bound a) w₁.env }
        { w₂ with env := Directory.insert (r.name name) (.bound b) w₂.env }) :
    L.Binds L.walk T₁ op := by
  intro w₁ w₂ as bs hw hpass hlen
  clear hlen
  generalize op.outputs = names at h ⊢
  induction names generalizing w₁ w₂ as bs with
  | nil => exact hw
  | cons name names ih =>
    cases hpass with
    | nil => exact hw
    | cons hab hrest =>
      exact ih (h name List.mem_cons_self hw hab) hrest fun n hn => h n (List.mem_cons_of_mem _ hn)

variable (L) in
/-- The calls of allowed operations are answered alike. -/
structure Issues (c₁ : Context σ₁ η₁) (c₂ : Context σ₂ η₂) (allowed : Operation → Prop) : Prop
    extends L.Gathers c₁ c₂ where
  splitCoins {coin : Operand} {amounts : List Operand} {out : List String} {a : η₁} {b : η₂}
    {as : List η₁} {bs : List η₂} {w₁ : Walk σ₁ η₁} {w₂ : Walk σ₂ η₂} :
    allowed (.splitCoins coin amounts out) → L.walk w₁ w₂ → r.pass w₁.target w₂.target a b →
    r.args w₁.target w₂.target (List.replicate amounts.length (.integer .u64)) as bs →
    L.Step w₁ w₂ (fun s t => List.Forall₂ (r.pass s t))
      (c₁.target.splitCoins a as out w₁.target)
      (c₂.target.splitCoins b bs (out.map r.name) w₂.target)
  mergeCoins {a : η₁} {b : η₂} {as : List η₁} {bs : List η₂} {w₁ : Walk σ₁ η₁}
    {w₂ : Walk σ₂ η₂} : L.walk w₁ w₂ → r.pass w₁.target w₂.target a b →
    List.Forall₂ (r.pass w₁.target w₂.target) as bs →
    L.Step w₁ w₂ (fun _ _ _ _ => True) (c₁.target.mergeCoins a as w₁.target)
      (c₂.target.mergeCoins b bs w₂.target)
  transferObjects {a : η₁} {b : η₂} {as : List η₁} {bs : List η₂} {w₁ : Walk σ₁ η₁}
    {w₂ : Walk σ₂ η₂} : L.walk w₁ w₂ → List.Forall₂ (r.pass w₁.target w₂.target) as bs →
    r.arg .address w₁.target w₂.target a b →
    L.Step w₁ w₂ (fun _ _ _ _ => True) (c₁.target.transferObjects as a w₁.target)
      (c₂.target.transferObjects bs b w₂.target)
  makeMoveVec (elem : Option String) (out : String) {as : List η₁} {bs : List η₂}
    {w₁ : Walk σ₁ η₁} {w₂ : Walk σ₂ η₂} : L.walk w₁ w₂ →
    List.Forall₂ (r.arg (Context.vectorElemKind elem) w₁.target w₂.target) as bs →
    L.Step w₁ w₂ r.pass (c₁.target.makeMoveVec elem as (some out) w₁.target)
      (c₂.target.makeMoveVec elem bs (some (r.name out)) w₂.target)
  moveCall {package module function : String} {typeArgs : List Operand} {args : List Argument}
    {out : List String} (types : List String) {as : List η₁} {bs : List η₂} {w₁ : Walk σ₁ η₁}
    {w₂ : Walk σ₂ η₂} : allowed (.moveCall package module function typeArgs args out) →
    L.walk w₁ w₂ → r.args w₁.target w₂.target (args.map Argument.kind) as bs →
    L.Step w₁ w₂ (fun s t => List.Forall₂ (r.pass s t))
      (c₁.target.moveCall ⟨package, module, function, types⟩ as out w₁.target)
      (c₂.target.moveCall ⟨package, module, function, types⟩ bs (out.map r.name) w₂.target)
  publish (modules dependencies : List String) (out : String) {w₁ : Walk σ₁ η₁}
    {w₂ : Walk σ₂ η₂} : L.walk w₁ w₂ →
    L.Step w₁ w₂ r.pass (c₁.target.publish modules dependencies out w₁.target)
      (c₂.target.publish modules dependencies (r.name out) w₂.target)
  upgrade {modules dependencies : List String} {package out : String} {ticket : Operand} {a : η₁}
    {b : η₂} {w₁ : Walk σ₁ η₁} {w₂ : Walk σ₂ η₂} :
    allowed (.upgrade modules dependencies package ticket out) → L.walk w₁ w₂ →
    r.pass w₁.target w₂.target a b →
    L.Step w₁ w₂ r.pass (c₁.target.upgrade modules dependencies package a out w₁.target)
      (c₂.target.upgrade modules dependencies package b (r.name out) w₂.target)

theorem forall₂_pass_of_elem {s : σ₁} {t : σ₂} {as : List η₁} {bs : List η₂}
    (h : List.Forall₂ (elem r .handle s t) as bs) : List.Forall₂ (r.pass s t) as bs :=
  h.imp fun _ _ h => h.2 rfl

theorem operation_together (I : L.Issues c₁ c₂ allowed) {last : Walk σ₁ η₁ → Walk σ₂ η₂ → Prop}
    (hop : allowed op) (hbinds : L.Binds last c₁.target op)
    (hv : ∀ u ∈ Use.all op, L.operand u.1 u.2) (hw : L.walk w₁ w₂) :
    L.Leads last w₁ w₂ (fun _ _ _ _ => True) (c₁.operation (op.mapOperands L.first))
      (c₂.operation (op.rename r.name)) := by
  have G := I.toGathers
  -- operations with results, with one, and with none
  have hall {v₁ : Walk σ₁ η₁} {v₂ : Walk σ₂ η₂} {as : List η₁} {bs : List η₂} (hw : L.walk v₁ v₂)
      (h : List.Forall₂ (r.pass v₁.target v₂.target) as bs)
      (hlen : Complete c₁.target → op.Balanced → as.length = op.outputs.length) :
      L.Leads last v₁ v₂ (fun _ _ _ _ => True) (Context.bindAll op.outputs as)
        (Context.bindAll (op.outputs.map r.name) bs) := by
    unfold Leads
    rw [run_bindAll, run_bindAll]
    exact ⟨.ok ⟨hbinds hw h hlen, .refl r _ _, trivial⟩, .ok trivial⟩
  have hone {v₁ : Walk σ₁ η₁} {v₂ : Walk σ₂ η₂} {out : String} {a : η₁} {b : η₂}
      (hout : op.outputs = [out]) (hw : L.walk v₁ v₂) (h : r.pass v₁.target v₂.target a b) :
      L.Leads last v₁ v₂ (fun _ _ _ _ => True) (Context.bind out a)
        (Context.bind (r.name out) b) := by
    have := hbinds hw (.cons h .nil) fun _ _ => by rw [hout]; rfl
    rw [hout] at this
    exact .modify this rfl rfl
  have hnone {x : WalkM σ₁ η₁ Unit} {y : WalkM σ₂ η₂ Unit} {v₁ : Walk σ₁ η₁} {v₂ : Walk σ₂ η₂}
      {post : σ₁ → σ₂ → Unit → Unit → Prop} (hout : op.outputs = [])
      (h : L.Together v₁ v₂ post x y) : L.Leads last v₁ v₂ (fun _ _ _ _ => True) x y := by
    refine ⟨h.1.mono fun _ _ ⟨hw, hk, _⟩ => ⟨?_, hk, trivial⟩, h.2⟩
    have := hbinds hw .nil fun _ _ => by simp [hout]
    rwa [hout] at this
  cases op with
  | splitCoins coin amounts out =>
    obtain ⟨hcoin, hamounts⟩ := List.forall_mem_cons.mp hv
    let args := amounts.map fun a => (⟨a, .integer .u64⟩ : Argument)
    have hfirst : ((amounts.map L.first).map fun a => (⟨a, .integer .u64⟩ : Argument)) =
        args.map fun a => ⟨L.first a.value, a.kind⟩ := by
      simp only [args, List.map_map]
      rfl
    have hsecond : ((amounts.map (Operand.rename r.name)).map fun a =>
        (⟨a, .integer .u64⟩ : Argument)) = args.map (Argument.rename r.name) := by
      simp only [args, List.map_map]
      rfl
    have hkinds : args.map Argument.kind = List.replicate amounts.length (.integer .u64) := by
      rw [List.map_map]
      exact List.map_const
    have hargs : ∀ a ∈ args, L.operand (.value a.kind) a.value :=
      List.forall_mem_map.mpr (List.forall_mem_map.mp hamounts)
    refine .bind (handle_together G _ hcoin hw) ?_
    intro v₁ v₂ a b hw _ hcoin
    rw [hfirst, hsecond]
    refine .bind (arguments_together G "amount" 0 args hargs hw) ?_
    intro v₁ v₂ as bs hw hk has
    rw [hkinds] at has
    refine .bind (call_together G (G.refuses.splitCoins _ _ _ _)
      (I.splitCoins hop hw (hk.pass hcoin) has)) fun hw _ h => ?_
    refine hall hw h.1 fun hc hbalanced => hc.splitCoins ?_ h.2
    rw [has.length_eq, List.length_replicate]
    exact hbalanced
  | mergeCoins destination sources =>
    obtain ⟨hdest, hsources⟩ := List.forall_mem_cons.mp hv
    refine .bind (handle_together G _ hdest hw) fun hw _ hdest => ?_
    refine .bind (spread_together G "sources" .handle sources hsources hw) fun hw hk h => ?_
    exact hnone rfl (call_together G (G.refuses.mergeCoins _ _ _)
      (I.mergeCoins hw (hk.pass hdest) (forall₂_pass_of_elem h)))
  | transferObjects objects recipient =>
    obtain ⟨hobjects, hrecipient⟩ := List.forall_mem_append.mp hv
    refine .bind (spread_together G "objects" .handle objects hobjects hw) fun hw _ h => ?_
    refine .bind (argument_together G _ .address (hrecipient _ List.mem_cons_self) hw)
      fun hw hk hrec => ?_
    exact hnone rfl (call_together G (G.refuses.transferObjects _ _ _) (I.transferObjects hw
      (Correspondence.forall₂_pass_keeps hk (forall₂_pass_of_elem h)) hrec))
  | makeMoveVec elem elems out =>
    refine .bind (spread_together G "elements" (Context.vectorElemKind elem) elems hv hw)
      fun hw _ h => ?_
    exact .bind (call_together G (G.refuses.makeMoveVec _ _ _ _)
      (I.makeMoveVec elem out hw (h.imp fun _ _ h => h.1))) fun hw _ h => hone rfl hw h.1
  | moveCall package module function typeArgs args out =>
    obtain ⟨htypes, hargs⟩ := List.forall_mem_append.mp hv
    refine .bind (typeNames_together G 0 typeArgs
      (fun v hm => htypes (.typeName, v) (List.mem_map_of_mem hm)) hw) ?_
    intro v₁ v₂ names names' hw _ hnames
    cases hnames
    refine .bind (arguments_together G "arg" 0 args (List.forall_mem_map.mp hargs) hw)
      fun hw _ has => ?_
    exact .bind (call_together G (G.refuses.moveCall _ _ _ _) (I.moveCall names hop hw has))
      fun hw _ h => hall hw h.1 fun hc _ => hc.moveCall h.2
  | publish modules dependencies out =>
    exact .bind (call_together G (G.refuses.publish _ _ _ _)
      (I.publish modules dependencies out hw)) fun hw _ h => hone rfl hw h.1
  | upgrade =>
    refine .bind (handle_together G _ (hv _ List.mem_cons_self) hw) fun hw _ h => ?_
    exact .bind (call_together G (G.refuses.upgrade _ _ _ _ _ _) (I.upgrade hop hw h))
      fun hw _ h => hone rfl hw h.1

/-- The same with other things asked of walks and operands. -/
def along (L : Lockstep r) (walk : Walk σ₁ η₁ → Walk σ₂ η₂ → Prop)
    (operand : Use → Operand → Prop) : Lockstep r :=
  { L with walk, operand }

/-- Operations one after the other. How walks stand may depend on what is left to do. Nothing is
remembered from one operation to the next. -/
theorem operations_together {T₁ : Target σ₁ η₁} {T₂ : Target σ₂ η₂} {sender : Option String}
    {d₁ d₂ : Nat} {allowed : Operation → Prop}
    (walk : List Operation → Walk σ₁ η₁ → Walk σ₂ η₂ → Prop)
    (operand : List Operation → Use → Operand → Prop)
    (I : ∀ site op rest, (L.along (walk (op :: rest)) (operand (op :: rest))).Issues
      ⟨T₁, site, sender, d₁⟩ ⟨T₂, site, sender, d₂⟩ allowed)
    (hbinds : ∀ op rest, allowed op →
      (L.along (walk (op :: rest)) (operand (op :: rest))).Binds (walk rest) T₁ op)
    (hoperands : ∀ op rest, allowed op → ∀ u ∈ Use.all op, operand (op :: rest) u.1 u.2)
    (hforget : ∀ ops {w₁ : Walk σ₁ η₁} {w₂ : Walk σ₂ η₂}, walk ops w₁ w₂ →
      walk ops { w₁ with memo := [] } { w₂ with memo := [] }) : (i : Nat) →
    (ops : List Operation) → (∀ op ∈ ops, allowed op) → {w₁ : Walk σ₁ η₁} →
    {w₂ : Walk σ₂ η₂} → walk ops w₁ w₂ →
    L.Leads (walk []) w₁ w₂ (fun _ _ _ _ => True)
      (operations T₁ sender d₁ i (ops.map (Operation.mapOperands L.first)))
      (operations T₂ sender d₂ i (ops.map (Operation.rename r.name)))
  | _, [], _, _, _, hw => .pure hw trivial
  | i, op :: rest, h, _, _, hw => by
    have hop := h op List.mem_cons_self
    rw [List.map_cons, List.map_cons, operations, operations, op.kind_mapOperands, op.kind_rename]
    refine .bind (.modify (hforget _ hw) rfl rfl) fun {v₁ v₂ _ _} hw _ _ => ?_
    have hstep : L.Leads (walk rest) v₁ v₂ (fun _ _ _ _ => True)
        ((Context.mk T₁ ⟨i, op.kind⟩ sender d₁).operation (op.mapOperands L.first))
        ((Context.mk T₂ ⟨i, op.kind⟩ sender d₂).operation (op.rename r.name)) :=
      operation_together (I _ op rest) hop (hbinds op rest hop) (hoperands op rest hop) hw
    refine .bind hstep fun hw _ _ => ?_
    exact operations_together walk operand I hbinds hoperands hforget (i + 1) rest
      (fun o hm => h o (List.mem_cons_of_mem _ hm)) hw

/-- Operations one after the other, by walks that stand alike throughout. -/
theorem all_together {T₂ : Target σ₂ η₂} {sender : Option String} {d₁ d₂ : Nat}
    (I : ∀ site, L.Issues ⟨T₁, site, sender, d₁⟩ ⟨T₂, site, sender, d₂⟩ allowed)
    (hbinds : ∀ op, allowed op → L.Binds L.walk T₁ op)
    (hoperands : ∀ op, allowed op → ∀ u ∈ Use.all op, L.operand u.1 u.2)
    (hforget : ∀ {w₁ : Walk σ₁ η₁} {w₂ : Walk σ₂ η₂}, L.walk w₁ w₂ →
      L.walk { w₁ with memo := [] } { w₂ with memo := [] }) (i : Nat) {ops : List Operation}
    (h : ∀ op ∈ ops, allowed op) (hw : L.walk w₁ w₂) :
    L.Together w₁ w₂ (fun _ _ _ _ => True)
      (operations T₁ sender d₁ i (ops.map (Operation.mapOperands L.first)))
      (operations T₂ sender d₂ i (ops.map (Operation.rename r.name))) :=
  operations_together (fun _ => L.walk) (fun _ => L.operand) (fun site _ _ => I site)
    (fun op _ => hbinds op) (fun op _ => hoperands op) (fun _ _ _ => hforget) i ops h hw

end Lockstep

end TxGraph.Lowering
