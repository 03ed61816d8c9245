import TxGraph.Proofs.Lowering.Agreement
import TxGraph.Proofs.Lowering.Draft
import TxGraph.Proofs.Lowering.Scope

/-!
# Symbols are shared values

A program may name a value that is used more than once. Writing the value out at each use changes
neither the calls that are issued nor the errors, but a value that is named is encoded once for an
operation where one that is written out is encoded at each use. So the program with names needs no
more inputs, and it may succeed where the other runs out of indices. The walk over the program that
is written out comes first in all relations here.
-/

namespace TxGraph

/-! ## Writing values out -/

/-- The operand with the values of variables in place of their names. -/
def Operand.inline (p : Program) : Operand → Operand
  | ref name => (p.var? name).elim (ref name) Binding.init
  | vector items => vector (all items)
  | value => value
where
  all : List Operand → List Operand
    | [] => []
    | item :: rest => item.inline p :: all rest

def Program.inline (p : Program) : Program :=
  ⟨p.vars, p.ops.map (Operation.mapOperands (Operand.inline p))⟩

/-! ## The sender -/

theorem Operand.usesSender_inline (p : Program) : (value : Operand) →
    (value.usesSender = true → (value.inline p).usesSender = true) ∧
      ((value.inline p).usesSender = true →
        value.usesSender = true ∨ ∃ v ∈ p.vars, v.init.usesSender = true)
  | absent => ⟨id, .inl⟩
  | constant _ => ⟨id, .inl⟩
  | integer _ _ => ⟨id, .inl⟩
  | object _ => ⟨id, .inl⟩
  | vector items => go items
  | ref name => by
    refine ⟨fun h => absurd h Bool.false_ne_true, fun h => .inr ?_⟩
    rw [inline] at h
    cases hvar : p.var? name with
    | none =>
      rw [hvar] at h
      cases h
    | some v =>
      rw [hvar] at h
      exact ⟨v, List.mem_of_find?_eq_some hvar, h⟩
where
  go : (items : List Operand) →
      (usesSender.anyUsesSender items = true →
        usesSender.anyUsesSender (inline.all p items) = true) ∧
      (usesSender.anyUsesSender (inline.all p items) = true →
        usesSender.anyUsesSender items = true ∨ ∃ v ∈ p.vars, v.init.usesSender = true)
    | [] => ⟨id, .inl⟩
    | item :: rest => by
      obtain ⟨hitem, hitem'⟩ := usesSender_inline p item
      obtain ⟨hrest, hrest'⟩ := go rest
      simp only [usesSender.anyUsesSender, inline.all, Bool.or_eq_true]
      constructor
      · exact Or.imp hitem hrest
      · rintro (h | h)
        · exact (hitem' h).imp_left .inl
        · exact (hrest' h).imp_left .inr

theorem Program.usesSender_inline (p : Program) : p.inline.usesSender = p.usesSender := by
  have hoperands : p.inline.operands = p.operands.map (Operand.inline p) := by
    simp [operands, inline, List.flatMap_map, Operation.operands_mapOperands, List.map_flatMap]
  rw [Bool.eq_iff_iff, usesSender, usesSender, hoperands]
  simp only [inline, Bool.or_eq_true, List.any_map, List.any_eq_true, Function.comp_apply]
  constructor
  · rintro (h | ⟨value, hmem, h⟩)
    · exact .inl h
    · rcases (value.usesSender_inline p).2 h with h | h
      · exact .inr ⟨value, hmem, h⟩
      · exact .inl h
  · rintro (h | ⟨value, hmem, h⟩)
    · exact .inl h
    · exact .inr ⟨value, hmem, (value.usesSender_inline p).1 h⟩

/-! ## Literals -/

/-- The literal that an operand is, if it names nothing and holds no object. -/
def Operand.plain? : Operand → Option Literal
  | constant k => some (Lowering.constantLiteral k)
  | integer width digits => some (.integer width digits)
  | vector items => (all items).map .list
  | _ => none
where
  all : List Operand → Option (List Literal)
    | [] => some []
    | item :: rest => item.plain?.bind fun v => (all rest).map (v :: ·)

/-! ## Matching arguments -/

/-- The arguments are the same, or inputs that hold the same. -/
inductive TxArg.Matches (inputs inputs' : Array TxInput) : TxArg → TxArg → Prop
  | gasCoin : Matches inputs inputs' .gasCoin .gasCoin
  | input {i j : UInt16} {x : TxInput} (h : inputs[i.toNat]? = some x)
    (h' : inputs'[j.toNat]? = some x) : Matches inputs inputs' (.input i) (.input j)
  | result (j : UInt16) : Matches inputs inputs' (.result j) (.result j)
  | nested (j m : UInt16) : Matches inputs inputs' (.nested j m) (.nested j m)

structure TxCommand.Matches (inputs inputs' : Array TxInput) (c c' : TxCommand) : Prop where
  outline : c'.outline = c.outline
  args : List.Forall₂ (TxArg.Matches inputs inputs') c.args c'.args

section

variable {inputs inputs' more more' : Array TxInput}
variable {a b : TxArg}

theorem TxArg.Matches.mono (h : a.Matches inputs inputs' b)
    (hmore : ∀ (i : Nat) x, inputs[i]? = some x → more[i]? = some x)
    (hmore' : ∀ (i : Nat) x, inputs'[i]? = some x → more'[i]? = some x) :
    a.Matches more more' b := by
  cases h with
  | gasCoin => exact .gasCoin
  | input h h' => exact .input (hmore _ _ h) (hmore' _ _ h')
  | result j => exact .result j
  | nested j m => exact .nested j m

theorem TxArg.Matches.traceArg_eq (h : a.Matches inputs inputs' b) :
    Transaction.traceArg inputs' b = Transaction.traceArg inputs a := by
  cases h with
  | input h h' => simp only [Transaction.traceArg, h, h']
  | _ => rfl

theorem TxCommand.Matches.traceCommand_eq {c c' : TxCommand} (h : c.Matches inputs inputs' c') :
    Transaction.traceCommand inputs' c' = Transaction.traceCommand inputs c := by
  unfold Transaction.traceCommand
  rw [← c'.kind?_outline, ← c'.target_outline, ← c'.typeArgs_outline, h.outline, c.kind?_outline,
    c.target_outline, c.typeArgs_outline,
    Transaction.Renumbers.mapM_eq h.args fun _ _ harg => harg.traceArg_eq]

end

namespace Lowering

variable {b b' : Builder}

open Lockstep
open Transaction (Builder BuilderM)
open Transaction.Builder

/-! ## Builders in step -/

/-- The second builder has done the same as the first, with no more inputs. -/
structure Shared (b b' : Builder) : Prop where
  few : b.inputs.size ≤ Limited.limit
  fewer : b'.inputs.size ≤ b.inputs.size
  objects (id : String) : .object id ∈ b.inputs ↔ .object id ∈ b'.inputs
  commands : List.Forall₂ (TxCommand.Matches b.inputs b'.inputs) b.commands.toList
    b'.commands.toList

/-- Builders correspond when they match. The kind of a parameter plays no part. -/
def sharing : Correspondence Builder Builder TxArg TxArg where
  state := Shared
  pass b b' a a' := a.Matches b.inputs b'.inputs a'
  arg _ b b' a a' := a.Matches b.inputs b'.inputs a'
  arg_of_pass h := h

structure Kept (b b' c c' : Builder) : Prop where
  first (i : Nat) (x : TxInput) : b.inputs[i]? = some x → c.inputs[i]? = some x
  second (i : Nat) (x : TxInput) : b'.inputs[i]? = some x → c'.inputs[i]? = some x

section

variable {b b' c c' d d' : Builder}

theorem Kept.refl (b b' : Builder) : Kept b b' b b' := ⟨fun _ _ => id, fun _ _ => id⟩

theorem Kept.matches (h : Kept b b' c c') {a a' : TxArg} (ha : a.Matches b.inputs b'.inputs a') :
    a.Matches c.inputs c'.inputs a' :=
  ha.mono h.first h.second

theorem Kept.keeps (h : Kept b b' c c') : sharing.Keeps b b' c c' :=
  ⟨h.matches, h.matches⟩

end

def Answers {α : Type} (b b' : Builder) (post : Builder → Builder → α → α → Prop) :
    Except Refusal (α × Builder) → Except Refusal (α × Builder) → Prop :=
  Follows OutOfIndices fun x y =>
    Shared x.2 y.2 ∧ Kept b b' x.2 y.2 ∧ post x.2 y.2 x.1 y.1

section

variable {b b' : Builder}
variable {c c' : TxCommand}

theorem getElem?_addInput_last (hroom : b.inputs.size < Limited.limit) (x : TxInput) :
    (b.addInput x).inputs[(UInt16.ofNat b.inputs.size).toNat]? = some x := by
  rw [toNat_index hroom]
  simp [addInput]

theorem Shared.of_inputs (h : Shared b b') {c c' : Builder} (hcommands : c.commands = b.commands)
    (hcommands' : c'.commands = b'.commands) (hkept : Kept b b' c c')
    (hfew : c.inputs.size ≤ Limited.limit) (hfewer : c'.inputs.size ≤ c.inputs.size)
    (hobjects : ∀ id, .object id ∈ c.inputs ↔ .object id ∈ c'.inputs) : Shared c c' := by
  refine ⟨hfew, hfewer, hobjects, ?_⟩
  rw [hcommands, hcommands']
  exact h.commands.imp fun _ _ hc => ⟨hc.outline, hc.args.imp fun _ _ => hkept.matches⟩

theorem pushInput_step (h : Shared b b') (x : TxInput) :
    Answers b b' (fun c c' a a' => a.Matches c.inputs c'.inputs a' ∧
        ∃ j, a' = .input j ∧ c'.inputs[j.toNat]? = some x)
      (asTarget (pushInput x) b) (asTarget (pushInput x) b') := by
  rw [asTarget_pushInput, asTarget_pushInput]
  split
  case isFalse => exact .exempt ⟨.inputs, rfl⟩ _
  case isTrue hroom =>
    have hroom' : b'.inputs.size < Limited.limit := Nat.lt_of_le_of_lt h.fewer hroom
    rw [if_pos hroom']
    have hkept : Kept b b' (b.addInput x) (b'.addInput x) :=
      ⟨fun _ _ => getElem?_addInput, fun _ _ => getElem?_addInput⟩
    have hlast := getElem?_addInput_last hroom x
    have hlast' := getElem?_addInput_last hroom' x
    refine .ok ⟨h.of_inputs rfl rfl hkept ?_ ?_ fun id => ?_, hkept, .input hlast hlast', _, rfl,
      hlast'⟩
    · rwa [addInput, Array.size_push, Nat.succ_le_iff]
    · simpa [addInput] using h.fewer
    · simp [addInput, h.objects id]

/-- One more encoding in the first builder does no harm. -/
theorem Shared.addPure (h : Shared b b') (hroom : b.inputs.size < Limited.limit)
    (type : Option String) (bs : Bytes) :
    Shared (b.addInput (.pure type bs)) b' ∧ Kept b b' (b.addInput (.pure type bs)) b' := by
  have hkept : Kept b b' (b.addInput (.pure type bs)) b' :=
    ⟨fun _ _ => getElem?_addInput, fun _ _ => id⟩
  refine ⟨h.of_inputs rfl rfl hkept ?_ ?_ fun id => ?_, hkept⟩
  · rwa [addInput, Array.size_push, Nat.succ_le_iff]
  · have := h.fewer
    simp only [addInput, Array.size_push]
    omega
  · simp [addInput, h.objects id]

/-- An object is an input of both or of none. -/
theorem addObject_shared (h : Shared b b') (text : String) :
    Answers b b' sharing.pass (asTarget (addObject text) b)
      (asTarget (addObject text) b') := by
  rw [asTarget_addObject, asTarget_addObject]
  cases fullAddress text with
  | error cause => exact .error _
  | ok id =>
    have hboth : b.inputs.findIdx? (· == .object id) = none ↔
        b'.inputs.findIdx? (· == .object id) = none := by
      rw [findIdx?_object_eq_none, findIdx?_object_eq_none, h.objects id]
    dsimp only
    cases hfound : b.inputs.findIdx? (· == .object id) with
    | none =>
      rw [hboth.mp hfound]
      exact (pushInput_step h (.object id)).mono fun _ _ ⟨hs, hk, hmatch, _⟩ => ⟨hs, hk, hmatch⟩
    | some n =>
      obtain ⟨m, hm⟩ := Option.ne_none_iff_exists'.mp (mt hboth.mpr (by simp [hfound]))
      rw [hm]
      have hn := findIdx?_object hfound
      have hlt := (Array.getElem?_eq_some_iff.mp hn).1
      have hm := findIdx?_object hm
      have hlt' := (Array.getElem?_eq_some_iff.mp hm).1
      refine .ok ⟨h, .refl _ _, .input (x := .object id) ?_ ?_⟩
      · rwa [toNat_index (hlt.trans_le h.few)]
      · rwa [toNat_index (hlt'.trans_le (h.fewer.trans h.few))]

theorem object_shared (h : Shared b b') (o : ObjectRef) (symbol symbol' : Option String) :
    Answers b b' sharing.pass (Builder.target.object o symbol b)
      (Builder.target.object o symbol' b') := by
  show Answers b b' sharing.pass (asTarget (objectRef o) b)
    (asTarget (objectRef o) b')
  cases o with
  | gas => exact .ok ⟨h, .refl _ _, .gasCoin⟩
  | byId id => exact addObject_shared h id
  | _ => simpa only [objectRef, ObjectRef.systemId?] using addObject_shared h _

theorem Shared.size (h : Shared b b') : b'.commands.size = b.commands.size := by
  simpa using h.commands.length_eq.symm

theorem Shared.addCommand (h : Shared b b') (hc : c.Matches b.inputs b'.inputs c') :
    Shared (b.addCommand c) (b'.addCommand c') := by
  refine ⟨h.few, h.fewer, h.objects, ?_⟩
  simpa [Builder.addCommand] using List.rel_append h.commands (.cons hc .nil)

theorem appends_shared {α : Type} (h : Shared b b') {x x' : BuilderM α} {count : Nat}
    {answer : UInt16 → α} {post : Builder → Builder → α → α → Prop} (hx : Appends x c count answer)
    (hx' : Appends x' c' count answer) (hc : c.Matches b.inputs b'.inputs c')
    (hpost : ∀ s t index, post s t (answer index) (answer index)) :
    Answers b b' post (asTarget x b) (asTarget x' b') := by
  rw [hx.asTarget, hx'.asTarget, h.size]
  split
  · split
    · exact .ok ⟨h.addCommand hc, ⟨fun _ _ => id, fun _ _ => id⟩, hpost _ _ _⟩
    · exact .exempt ⟨.commands, rfl⟩ _
  · exact .exempt ⟨.results, rfl⟩ _

theorem pushOnly_shared (h : Shared b b') (hc : c.Matches b.inputs b'.inputs c') :
    Answers b b' (fun _ _ _ _ => True) (asTarget (pushOnly c) b)
      (asTarget (pushOnly c') b') :=
  appends_shared h (appends_pushOnly c) (appends_pushOnly c') hc fun _ _ _ => trivial

theorem pushWithResult_shared (h : Shared b b') (hc : c.Matches b.inputs b'.inputs c') :
    Answers b b' sharing.pass (asTarget (pushWithResult c) b)
      (asTarget (pushWithResult c') b') :=
  appends_shared h (appends_pushWithResult c) (appends_pushWithResult c') hc
    fun _ _ => .result

theorem pushWithResults_shared (h : Shared b b') (hc : c.Matches b.inputs b'.inputs c')
    (count : Nat) :
    Answers b b' (fun s t => List.Forall₂ (sharing.pass s t))
      (asTarget (pushWithResults c count) b)
      (asTarget (pushWithResults c' count) b') := by
  refine appends_shared h (appends_pushWithResults c count)
    (appends_pushWithResults c' count) hc fun _ _ _ => ?_
  rw [results, List.forall₂_map_left_iff, List.forall₂_map_right_iff, List.forall₂_same]
  exact fun _ _ => .nested _ _

def Encodes (b : Builder) (kind : ParamKind) (value : Literal) (arg : TxArg) : Prop :=
  ∃ (v : PureValue) (i : UInt16), PureValue.encode kind value = .ok v ∧ arg = .input i ∧
    b.inputs[i.toNat]? = some (.pure v.type v.bytes)

theorem literal_shared (h : Shared b b') (kind : ParamKind) (value : Literal) :
    Answers b b' (fun c c' a a' => a.Matches c.inputs c'.inputs a' ∧ Encodes c' kind value a')
      (asTarget (literal kind value) b)
      (asTarget (literal kind value) b') := by
  rw [asTarget_literal, asTarget_literal]
  cases hvalue : PureValue.encode kind value with
  | error cause => exact .error _
  | ok v =>
    refine (pushInput_step h (.pure v.type v.bytes)).mono ?_
    rintro _ _ ⟨hs, hk, hmatch, j, harg, hj⟩
    exact ⟨hs, hk, hmatch, v, j, hvalue, harg, hj⟩

/-- What the second builder has encoded before is encoded once more by the first. -/
theorem literal_again (h : Shared b b') {kind : ParamKind} {value : Literal} {arg : TxArg}
    (harg : Encodes b' kind value arg) :
    Answers b b' (fun c c' a a' => a.Matches c.inputs c'.inputs a')
      (asTarget (literal kind value) b) (.ok (arg, b')) := by
  obtain ⟨v, j, hvalue, rfl, hj⟩ := harg
  rw [asTarget_literal, hvalue]
  dsimp only
  rw [asTarget_pushInput]
  split
  case isFalse => exact .exempt ⟨.inputs, rfl⟩ _
  case isTrue hroom =>
    obtain ⟨hs, hk⟩ := h.addPure hroom v.type v.bytes
    exact .ok ⟨hs, hk, .input (getElem?_addInput_last hroom _) hj⟩

end

/-! ## Walks in step -/

section

variable (p : Program) (sender : Option String)

/-- A name has not been met, or stands for arguments that match. -/
inductive Entry.Matches (b b' : Builder) : Option (Entry TxArg) → Option (Entry TxArg) → Prop
  | unmet : Matches b b' none none
  | bound {a a' : TxArg} (h : a.Matches b.inputs b'.inputs a') :
    Matches b b' (some (.bound a)) (some (.bound a'))

/-- The symbol, if there is one, is that of a variable whose value is the literal. -/
def Names (symbol : Option String) (value : Literal) : Prop :=
  ∀ name, symbol = some name → ∃ b, p.var? name = some b ∧ b.init.plain? = some value

/-- The second walk is where the first is. Only the second remembers encodings: each is that of
the variable that it is remembered for. -/
structure Abreast (w v : Draft) : Prop where
  state : Shared w.target v.target
  vars {name : String} {b : Binding} : p.var? name = some b →
    Directory.get? v.env name = some (.init b.init)
  others {name : String} : p.var? name = none →
    Entry.Matches w.target v.target (Directory.get? w.env name) (Directory.get? v.env name)
  memo {kind : ParamKind} {name : String} {arg : TxArg} :
    v.memo.lookup (kind, name) = some arg → ∃ b value, p.var? name = some b ∧
      b.init.plain? = some value ∧ Encodes v.target kind (value.given sender) arg

/-- The first walk runs on operands that are written out. It encodes literals under no symbol. -/
def inlining : Lockstep sharing where
  walk := Abreast p sender
  exempt := reports OutOfIndices
  first := Operand.inline p
  named symbol symbol' value := symbol = none ∧ Names p symbol' value

end

section

variable {p : Program} {sender : Option String} {w v : Draft} {site : Site}
  {depth : Nat} {α : Type} {post : Builder → Builder → α → α → Prop}
variable {b b' c c' : Builder} {value : Literal}
variable {kind : ParamKind} {arg : TxArg} {f : Builder → Except Refusal (α × Builder)}
  {items : List Operand} {x y : Resolved TxArg} {xs ys : List (Resolved TxArg)}

theorem Entry.Matches.kept (h : Kept b b' c c') {x y : Option (Entry TxArg)}
    (hx : Entry.Matches b b' x y) : Entry.Matches c c' x y := by
  cases hx with
  | unmet => exact .unmet
  | bound ha => exact .bound (h.matches ha)

theorem Encodes.kept (h : Kept b b' c c') (harg : Encodes b' kind value arg) :
    Encodes c' kind value arg := by
  obtain ⟨v, i, hv, rfl, hi⟩ := harg
  exact ⟨v, i, hv, rfl, h.second _ _ hi⟩

/-- Builders may go on from walks that are abreast. -/
theorem Abreast.goOn (hw : Abreast p sender w v) (hs : Shared b b')
    (hk : Kept w.target v.target b b') :
    Abreast p sender { w with target := b } { v with target := b' } where
  state := hs
  vars := hw.vars
  others hname := (hw.others hname).kept hk
  memo hlookup := by
    obtain ⟨x, value, hvar, hvalue, harg⟩ := hw.memo hlookup
    exact ⟨x, value, hvar, hvalue, harg.kept hk⟩

theorem Abreast.answers (hw : Abreast p sender w v) {x y : Except Refusal (α × Builder)}
    (h : Answers w.target v.target post x y) : (inlining p sender).Step w v post x y :=
  (Follows.mono_exempt h fun _ => reports_report).mono fun _ _ ⟨hs, hk, hpost⟩ =>
    ⟨hw.goOn hs hk, hk.keeps, hpost⟩

theorem inlining_call (hw : Abreast p sender w v) {g : Builder → Except Refusal (α × Builder)}
    (h : Answers w.target v.target post (f w.target) (g v.target)) :
    (inlining p sender).Together w v post ((Context.mk Builder.target site sender depth).call f)
      ((Context.mk Builder.target site sender depth).call g) :=
  (Leads.call (L := inlining p sender) (by rfl) (.always _) (hw.answers h)).mono And.left

/-- A call of the first walk that the second does without. -/
theorem inlining_call_pure (hw : Abreast p sender w v) {a : α}
    (h : Answers w.target v.target post (f w.target) (.ok (a, v.target))) :
    (inlining p sender).Together w v post ((Context.mk Builder.target site sender depth).call f)
      (pure a) :=
  inlining_call hw (g := fun b => .ok (a, b)) h

/-! ## Resolving -/

/-- The values match, and a literal is the one that the operand is. -/
def ResolvesAlike (value : Operand) (b b' : Builder) (x y : Resolved TxArg) : Prop :=
  sharing.resolved (fun _ => True) b b' x y ∧ ∀ l, x = .literal l → value.plain? = some l

def ItemsResolveAlike (items : List Operand) (b b' : Builder) (xs ys : List (Resolved TxArg)) : Prop :=
  Correspondence.resolved.all sharing (fun _ => True) b b' xs ys ∧
    ∀ ls, literals? xs = some ls → Operand.plain?.all items = some ls

theorem ItemsResolveAlike.cons {item : Operand} (hrest : ItemsResolveAlike items c c' xs ys)
    (hk : sharing.Keeps b b' c c') (h : ResolvesAlike item b b' x y) :
    ItemsResolveAlike (item :: items) c c' (x :: xs) (y :: ys) := by
  refine ⟨⟨h.1.keeps hk, hrest.1⟩, fun ls hls => ?_⟩
  cases x with
  | handle _ => cases hls
  | list _ => cases hls
  | literal l =>
    obtain ⟨rest, hlits, rfl⟩ := Option.map_eq_some_iff.mp hls
    rw [Operand.plain?.all, h.2 l rfl, Option.bind_some, hrest.2 rest hlits, Option.map_some]

theorem ItemsResolveAlike.vector (h : ItemsResolveAlike items b b' xs ys) :
    ResolvesAlike (.vector items) b b' (.vector xs) (.vector ys) := by
  refine ⟨resolved_vector h.1, fun l hl => ?_⟩
  rw [Resolved.vector] at hl
  split at hl
  · cases hl
    rw [Operand.plain?, h.2 _ ‹_›, Option.map_some]
  · cases hl

theorem leaves_constantLiteral (k : Constant) : (constantLiteral k).Leaves fun _ => True := by
  cases k <;> trivial

/-- A value that names nothing is resolved alike, whatever symbol and variables there are. -/
theorem resolveWith_closed {e e' : String → Operand → WalkM Builder TxArg (Resolved TxArg)}
    (slot : Slot) : (symbol symbol' : Option String) → (value : Operand) → value.refs = [] →
    {w v : Draft} → Abreast p sender w v →
    (inlining p sender).Together w v (ResolvesAlike value)
      ((Context.mk Builder.target site sender depth).resolveWith e slot symbol value)
      ((Context.mk Builder.target site sender depth).resolveWith e' slot symbol' value)
  | _, _, .absent, _, _, _, _ => .throw _ trivial
  | _, _, .constant k, _, _, _, hw =>
    .pure hw ⟨⟨rfl, leaves_constantLiteral k⟩, fun l h => by cases h; rfl⟩
  | _, _, .integer _ _, _, _, _, hw => .pure hw ⟨⟨rfl, trivial⟩, fun l h => by cases h; rfl⟩
  | symbol, symbol', .object o, _, _, _, hw =>
    .bind (inlining_call hw (object_shared hw.state o symbol symbol')) fun hw _ h => .pure hw ⟨h, nofun⟩
  | _, _, .vector items, hclosed, _, _, hw =>
    .bind (go items hclosed hw) fun hw _ h => .pure hw h.vector
where
  go : (items : List Operand) → Operand.refs.allRefs items = [] → {w v : Draft} →
      Abreast p sender w v → (inlining p sender).Together w v (ItemsResolveAlike items)
        (Context.resolveWith.resolveItems ⟨Builder.target, site, sender, depth⟩ e slot items)
        (Context.resolveWith.resolveItems ⟨Builder.target, site, sender, depth⟩ e' slot items)
    | [], _, _, _, hw => .pure hw ⟨trivial, fun ls h => by cases h; rfl⟩
    | item :: rest, hclosed, _, _, hw =>
      have hboth := List.append_eq_nil_iff.mp hclosed
      .bind (resolveWith_closed slot none none item hboth.1 hw) fun hw _ h =>
        .bind (go rest hboth.2 hw) fun hw hk hrest => .pure hw (hrest.cons hk h)

/-- An operand is resolved as the one with the values of variables in it. -/
theorem resolveWith_inline {e e' : String → Operand → WalkM Builder TxArg (Resolved TxArg)}
    {slot : Slot} (hclosed : ∀ b ∈ p.vars, b.init.refs = [])
    (hexpand : ∀ {name : String} {b : Binding} (symbol : Option String) {w v : Draft},
      p.var? name = some b → Abreast p sender w v →
      (inlining p sender).Together w v (ResolvesAlike b.init)
        ((Context.mk Builder.target site sender depth).resolveWith e slot symbol b.init)
        (e' name b.init)) : (symbol symbol' : Option String) → (value : Operand) →
    {w v : Draft} → Abreast p sender w v →
    (inlining p sender).Together w v (ResolvesAlike (value.inline p))
      ((Context.mk Builder.target site sender depth).resolveWith e slot symbol (value.inline p))
      ((Context.mk Builder.target site sender depth).resolveWith e' slot symbol' value)
  | symbol, symbol', .absent, _, _, hw => resolveWith_closed slot symbol symbol' .absent rfl hw
  | symbol, symbol', .constant k, _, _, hw =>
    resolveWith_closed slot symbol symbol' (.constant k) rfl hw
  | symbol, symbol', .integer width digits, _, _, hw =>
    resolveWith_closed slot symbol symbol' (.integer width digits) rfl hw
  | symbol, symbol', .object o, _, _, hw =>
    resolveWith_closed slot symbol symbol' (.object o) rfl hw
  | _, _, .vector items, _, _, hw => .bind (go items hw) fun hw _ h => .pure hw h.vector
  | symbol, _, .ref name, w, v, hw => by
    cases hvar : p.var? name with
    | none =>
      rw [Operand.inline, hvar]
      refine .get_bind ?_
      have hentry := hw.others hvar
      generalize Directory.get? w.env name = x at hentry ⊢
      generalize Directory.get? v.env name = y at hentry ⊢
      cases hentry with
      | unmet => exact .throw _ trivial
      | bound h => exact .pure hw ⟨h, nofun⟩
    | some b =>
      have hinit := hclosed b (List.mem_of_find?_eq_some hvar)
      have hstep := hexpand symbol hvar hw
      rw [Operand.inline, hvar, Option.elim_some]
      refine .get_bind (f := fun _ => _) ?_
      dsimp only
      rw [hw.vars hvar]
      -- the value of the variable is no name, so that it is expanded
      generalize b.init = value at hinit hstep ⊢
      cases value with
      | ref other => cases hinit
      | _ => exact hstep
where
  go : (items : List Operand) → {w v : Draft} → Abreast p sender w v →
      (inlining p sender).Together w v (ItemsResolveAlike (Operand.inline.all p items))
        (Context.resolveWith.resolveItems ⟨Builder.target, site, sender, depth⟩ e slot
          (Operand.inline.all p items))
        (Context.resolveWith.resolveItems ⟨Builder.target, site, sender, depth⟩ e' slot items)
    | [], _, _, hw => .pure hw ⟨trivial, fun ls h => by cases h; rfl⟩
    | item :: rest, _, _, hw =>
      .bind (resolveWith_inline hclosed hexpand none none item hw) fun hw _ h =>
        .bind (go rest hw) fun hw hk hrest => .pure hw (hrest.cons hk h)

theorem resolveFrom_inline (hclosed : ∀ b ∈ p.vars, b.init.refs = []) (slot : Slot) (n : Nat)
    (hn : n = 0 → p.vars = []) (symbol symbol' : Option String) (value : Operand)
    (hw : Abreast p sender w v) :
    (inlining p sender).Together w v (ResolvesAlike (value.inline p))
      ((Context.mk Builder.target site sender depth).resolveFrom slot n symbol (value.inline p))
      ((Context.mk Builder.target site sender depth).resolveFrom slot n symbol' value) := by
  cases n with
  | zero =>
    refine resolveWith_inline hclosed (fun {name b} symbol w v hvar _ => ?_) symbol symbol' value hw
    have := List.mem_of_find?_eq_some hvar
    rw [hn rfl] at this
    cases this
  | succ n =>
    refine resolveWith_inline hclosed (fun {name b} symbol w v hvar hw => ?_) symbol symbol' value hw
    have hinit := hclosed b (List.mem_of_find?_eq_some hvar)
    cases n <;> exact resolveWith_closed slot symbol (some name) b.init hinit hw

/-! ## Encoding -/

/-- A literal is written out, so that only the second walk may have a symbol for it. -/
theorem ResolvesAlike.named {value : Operand} (h : ResolvesAlike (value.inline p) b b' x y)
    (l : Literal) (hl : x = .literal l) :
    symbolOf (value.inline p) = none ∧ Names p (symbolOf value) l := by
  have hplain := h.2 l hl
  cases value with
  | ref name =>
    cases hvar : p.var? name with
    | none =>
      rw [Operand.inline, hvar] at hplain
      cases hplain
    | some b =>
      rw [Operand.inline, hvar, Option.elim_some] at hplain ⊢
      refine ⟨?_, fun _ hname => ?_⟩
      · generalize b.init = init at hplain
        cases init with
        | ref _ => cases hplain
        | _ => rfl
      · cases hname
        exact ⟨b, hvar, hplain⟩
  | _ => exact ⟨rfl, nofun⟩

theorem Abreast.remember (hw : Abreast p sender w v) {name : String}
    (hname : Names p (some name) value) (harg : Encodes v.target kind (value.given sender) arg) :
    Abreast p sender w { v with memo := ((kind, name), arg) :: v.memo } where
  state := hw.state
  vars := hw.vars
  others := hw.others
  memo {kind' name' arg'} hlookup := by
    rw [List.lookup_cons] at hlookup
    split at hlookup
    · rename_i hkey
      cases hlookup
      obtain ⟨rfl, rfl⟩ := Prod.mk.inj (eq_of_beq hkey)
      obtain ⟨b, hvar, hplain⟩ := hname _ rfl
      exact ⟨b, value, hvar, hplain, harg⟩
    · exact hw.memo hlookup

/-- A literal that is remembered is encoded by the first walk only. -/
theorem encodeLiteral_inline (kind : ParamKind) {symbol : Option String}
    (hname : Names p symbol value) (hw : Abreast p sender w v) :
    (inlining p sender).Together w v sharing.pass
      ((Context.mk Builder.target site sender depth).encodeLiteral kind value none)
      ((Context.mk Builder.target site sender depth).encodeLiteral kind value symbol) := by
  have hpush := literal_shared hw.state kind (value.given sender)
  refine .get_bind ?_
  cases symbol with
  | none => exact .bind (inlining_call hw hpush) fun hw _ h => .pure hw h.1
  | some name =>
    dsimp only [Option.bind_some]
    cases hlookup : v.memo.lookup (kind, name) with
    | none =>
      refine .bind (inlining_call hw hpush) fun hw _ h => ?_
      exact ⟨.ok ⟨hw.remember hname h.2, .refl _ _ _, h.1⟩, .ok trivial⟩
    | some arg =>
      obtain ⟨b, value', hvar, hplain, harg⟩ := hw.memo hlookup
      obtain ⟨b', hvar', hplain'⟩ := hname name rfl
      cases hvar.symm.trans hvar'
      cases hplain.symm.trans hplain'
      dsimp only
      rw [← pure_bind arg Pure.pure]
      exact .bind (inlining_call_pure hw (literal_again hw.state harg)) fun hw _ h => .pure hw h

theorem inlining_binds {op : Operation} (hop : ∀ name ∈ op.outputs, p.var? name = none) :
    (inlining p sender).Binds (Abreast p sender) Builder.target op := by
  refine binds_of_insert (L := inlining p sender) fun name hname w v a a' hw ha => ?_
  refine ⟨hw.state, fun {other b} hvar => ?_, fun {other} hother => ?_, hw.memo⟩
  · have hne : name ≠ other := by
      rintro rfl
      rw [hop name hname] at hvar
      cases hvar
    exact (Directory.get?_insert ..).trans ((if_neg hne).trans (hw.vars hvar))
  · show Entry.Matches _ _ (Directory.get? _ _) (Directory.get? (Directory.insert name _ _) _)
    rw [Directory.get?_insert, Directory.get?_insert]
    split
    · exact .bound ha
    · exact hw.others hother

theorem inlining_gathers (hclosed : ∀ b ∈ p.vars, b.init.refs = []) :
    (inlining p sender).Gathers ⟨Builder.target, site, sender, p.vars.length⟩
      ⟨Builder.target, site, sender, p.vars.length⟩ where
  refuses := .any _
  reports _ _ := trivial
  items _ _ _ := trivial
  noHandle _ _ := trivial
  site := rfl
  named_none _ := ⟨rfl, nofun⟩
  resolve slot use value _ _ _ hw := by
    have hname : value.rename sharing.name = value := value.rename_id
    rw [hname]
    refine (resolveFrom_inline hclosed slot _ List.eq_nil_of_length_eq_zero _ _ value hw).mono
      fun h => ⟨h.1, asks_of_lax (fun _ _ => trivial) (fun _ _ => trivial) use _, ?_⟩
    rw [hname]
    exact h.named
  literal kind _ _ _ _ _ _ _ hname hw := by
    obtain ⟨rfl, hname⟩ := hname
    exact encodeLiteral_inline kind hname hw
  vector _ _ _ _ _ hw h := hw.answers (pushWithResult_shared hw.state ⟨rfl, h⟩)

theorem inlining_issues (hclosed : ∀ b ∈ p.vars, b.init.refs = []) :
    (inlining p sender).Issues ⟨Builder.target, site, sender, p.vars.length⟩
      ⟨Builder.target, site, sender, p.vars.length⟩
      (fun op => ∀ name ∈ op.outputs, p.var? name = none) where
  toGathers := inlining_gathers hclosed
  splitCoins {_ _ _ a a' as as' w v} _ hw ha has := by
    have has := has.forall₂ id
    have hc : TxCommand.Matches w.target.inputs v.target.inputs (.splitCoins a as)
        (.splitCoins a' as') := ⟨rfl, .cons ha has⟩
    have hcall := pushWithResults_shared hw.state hc as.length
    rw [show pushWithResults (.splitCoins a' as') as.length = splitCoins a' as' by
      rw [has.length_eq]; rfl] at hcall
    exact hw.answers hcall
  mergeCoins hw ha has := hw.answers (pushOnly_shared hw.state ⟨rfl, .cons ha has⟩)
  transferObjects hw has ha :=
    hw.answers (pushOnly_shared hw.state ⟨rfl, List.rel_append has (.cons ha .nil)⟩)
  makeMoveVec _ _ _ _ _ _ hw h := hw.answers (pushWithResult_shared hw.state ⟨rfl, h⟩)
  moveCall {package module function _ _ out} types as as' w v _ hw has := by
    have hc : TxCommand.Matches w.target.inputs v.target.inputs
        (.moveCall package module function types as)
        (.moveCall package module function types as') := ⟨rfl, has.forall₂ id⟩
    have hcall := pushWithResults_shared hw.state hc out.length
    rw [show sharing.name = id from rfl, List.map_id]
    exact hw.answers hcall
  publish _ _ _ _ _ hw := hw.answers (pushWithResult_shared hw.state ⟨rfl, .nil⟩)
  upgrade _ hw h := hw.answers (pushWithResult_shared hw.state ⟨rfl, .cons h .nil⟩)

end

/-! ## Whole programs -/

section

variable {p : Program} (hsymbols : p.symbols.Nodup) (hclosed : ∀ b ∈ p.vars, b.init.refs = [])

include hsymbols

theorem var?_output {op : Operation} (hop : op ∈ p.ops) {name : String} (hname : name ∈ op.outputs) :
    p.var? name = none := by
  have hdisjoint := (List.nodup_append.mp hsymbols).2.2
  refine List.find?_eq_none.mpr fun b hb heq => ?_
  exact hdisjoint b.name (List.mem_map_of_mem hb) name (List.mem_flatMap.mpr ⟨op, hop, hname⟩)
    (eq_of_beq heq)

theorem abreast_start (sender : Option String) :
    Abreast p sender ⟨empty, initialEnv p.vars, []⟩
      ⟨empty, initialEnv p.vars, []⟩ where
  state := ⟨Nat.zero_le _, Nat.le_refl _, fun _ => .rfl, .nil⟩
  vars {name b} hvar := by
    have hb := List.mem_of_find?_eq_some hvar
    have hname : b.name = name := by simpa using List.find?_some hvar
    exact hname ▸ get?_initialEnv_of_mem (List.nodup_append.mp hsymbols).1 hb
  others {name} hnone := by
    cases hentry : Directory.get? (initialEnv (η := TxArg) p.vars) name with
    | none => exact .unmet
    | some entry =>
      obtain ⟨b, hb, hname, -⟩ := init_of_initialEnv hentry
      exact absurd (beq_iff_eq.mpr hname) (List.find?_eq_none.mp hnone b hb)
  memo := nofun

include hclosed in
theorem run_inline (sender : Option String) :
    Follows (reports OutOfIndices) Shared (run Builder.target sender p.inline empty)
      (run Builder.target sender p empty) := by
  have hops := (all_together (fun _ => inlining_issues hclosed) (fun _ hout => inlining_binds hout)
    (fun _ _ u _ => u.2.leaves_true) (fun hw => ⟨hw.state, hw.vars, hw.others, nofun⟩) 0
    (fun op hop _ => var?_output hsymbols hop) (abreast_start hsymbols sender)).1
  rw [show sharing.name = id from rfl, Operation.map_rename_id, LowerError.mapError_rename_id]
    at hops
  refine Follows.bind hops ?_
  rintro ⟨_, w⟩ ⟨_, v⟩ ⟨hw, _⟩
  exact .ok hw.state

end

theorem configure_shared (h : Shared b b') (options : ExecOptions) :
    Follows (reports OutOfIndices) Shared (b.configure options) (b'.configure options) := by
  rw [configure_eq, configure_eq]
  cases Script.senderOf options with
  | error e => exact .error e
  | ok sender =>
    -- the options do not touch inputs and commands, of which alone `Shared` speaks
    exact .ok ⟨h.few, h.fewer, h.objects, h.commands⟩

theorem Shared.callTrace_eq (h : Shared b b') : b'.build.callTrace = b.build.callTrace := by
  have htrace := Transaction.Renumbers.mapM_eq h.commands fun _ _ hc => hc.traceCommand_eq
  simp only [Transaction.callTrace, build, Array.toArray_toList]
  rw [htrace]

end Lowering

namespace Transaction

/-- Writing out the values of variables leads to the same transaction but for repeated inputs. -/
theorem ofProgram_inline_follows {p : Program} (hsymbols : p.symbols.Nodup)
    (hclosed : ∀ b ∈ p.vars, b.init.refs = []) (options : ExecOptions) :
    Follows (Lowering.reports Lowering.OutOfIndices)
      (fun t₂ t => t.callTrace = t₂.callTrace ∧ t.inputs.length ≤ t₂.inputs.length)
      (ofProgram p.inline options) (ofProgram p options) := by
  unfold ofProgram
  rw [p.usesSender_inline]
  split
  · exact .error LowerError.missingSender
  refine Follows.bind (Lowering.run_inline hsymbols hclosed options.sender) fun b b' h => ?_
  refine Follows.bind (Lowering.configure_shared h options) fun c c' hc => ?_
  exact .ok ⟨hc.callTrace_eq, by simpa [Builder.build] using hc.fewer⟩

/-- **Symbols are shared values.** Where the program with the values of variables written out has a
transaction, so has the program with names: it issues the same calls and has no more inputs. An error
of the program with names is one of the other too, unless one of them runs out of indices. -/
theorem ofProgram_of_inline (p : Program) (options : ExecOptions) (hsymbols : p.symbols.Nodup)
    (hclosed : ∀ b ∈ p.vars, b.init.refs = []) :
    (∀ t₂, ofProgram p.inline options = .ok t₂ → ∃ t, ofProgram p options = .ok t ∧
      t.callTrace = t₂.callTrace ∧ t.inputs.length ≤ t₂.inputs.length) ∧
    ∀ e, ofProgram p options = .error e → (∀ site what, e ≠ .encode site (.tooMany what)) →
      ofProgram p.inline options = .error e ∨
        ∃ site what, ofProgram p.inline options = .error (.encode site (.tooMany what)) := by
  have hfollows := ofProgram_inline_follows hsymbols hclosed options
  generalize ofProgram p.inline options = x at hfollows ⊢
  generalize ofProgram p options = y at hfollows ⊢
  cases hfollows with
  | @ok t₂ t h => exact ⟨fun _ ht => by cases ht; exact ⟨t, rfl, h⟩, nofun⟩
  | error e =>
    refine ⟨nofun, fun _ he _ => ?_⟩
    cases he
    exact .inl rfl
  | exempt hout y =>
    refine ⟨nofun, fun e _ _ => .inr ?_⟩
    obtain ⟨site, what, rfl⟩ := Lowering.reports_outOfIndices hout
    exact ⟨site, what, rfl⟩

/-- An amount and an object with names: both are used more than once in an operation, alone and
inside vectors. -/
def namedTwice : Program where
  vars := [⟨"amount", .constant (.number "5")⟩, ⟨"kiosk", .object (.byId "0xAB")⟩,
    ⟨"owner", .constant .sender⟩]
  ops := [.splitCoins (.object .gas) [.ref "amount", .ref "amount"] ["coin", "rest"],
    .moveCall "0x2" "m" "f" []
      [⟨.ref "amount", .integer .u64⟩, ⟨.vector [.ref "amount", .ref "amount"], .other⟩,
        ⟨.vector [.ref "coin", .ref "kiosk"], .handle⟩, ⟨.ref "amount", .integer .u64⟩,
        ⟨.ref "kiosk", .handle⟩] [],
    .transferObjects (.each [.ref "rest", .ref "kiosk"]) (.ref "owner")]

theorem ofProgram_of_inline_namedTwice :
    namedTwice.symbols.Nodup ∧ (∀ b ∈ namedTwice.vars, b.init.refs = []) ∧
      ∃ t t₂, ofProgram namedTwice ⟨some "0x42", none⟩ = .ok t ∧
        ofProgram namedTwice.inline ⟨some "0x42", none⟩ = .ok t₂ ∧
        t.callTrace = t₂.callTrace ∧ t.inputs.length = 5 ∧ t₂.inputs.length = 7 := by
  have hsymbols : namedTwice.symbols.Nodup := by decide
  have hclosed : ∀ b ∈ namedTwice.vars, b.init.refs = [] := by decide
  have hsizes : (ofProgram namedTwice ⟨some "0x42", none⟩).toOption.map (·.inputs.length) = some 5 ∧
      (ofProgram namedTwice.inline ⟨some "0x42", none⟩).toOption.map (·.inputs.length) =
        some 7 := by
    decide +kernel
  refine ⟨hsymbols, hclosed, ?_⟩
  cases hinline : ofProgram namedTwice.inline ⟨some "0x42", none⟩ with
  | error e => simp [hinline, Except.toOption] at hsizes
  | ok t₂ =>
    obtain ⟨t, ht, htrace, -⟩ :=
      (ofProgram_of_inline namedTwice ⟨some "0x42", none⟩ hsymbols hclosed).1 t₂ hinline
    simp only [ht, hinline, Except.toOption, Option.map_some, Option.some.injEq] at hsizes
    exact ⟨t, t₂, ht, rfl, htrace, hsizes⟩

end Transaction

end TxGraph
