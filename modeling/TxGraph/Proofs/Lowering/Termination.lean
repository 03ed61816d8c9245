import TxGraph.Proofs.Lowering.Endless
import TxGraph.Proofs.Lowering.Scope

/-!
# When lowering comes to an end

The walk bounds by the number of variables how far it follows them. A bound that is enough for an
answer is enough for that answer under this bound too; so the walk is stopped exactly if no bound is
enough, that is, if without a bound it would not return.
-/

namespace TxGraph

open Transaction (Builder)
open Transaction.Builder

variable {σ η : Type}

/-! ## Targets that keep their objects -/

/-- The id of an object. The gas coin has none. -/
def ObjectRef.text? : ObjectRef → Option String
  | byId id => some id
  | o => o.systemId?

namespace Lowering

/-- The target finds objects by their full address, and those it does not find it adds. -/
structure Finds (T : Target σ η) (gas : η) (find : σ → String → Option η) : Prop where
  gas {o : ObjectRef} (symbol : Option String) (s : σ) : o.text? = none →
    T.object o symbol s = .ok (gas, s)
  found {o : ObjectRef} {text id : String} (symbol : Option String) {s : σ} {handle : η} :
    o.text? = some text → fullAddress text = .ok id → find s id = some handle →
    T.object o symbol s = .ok (handle, s)
  added {o : ObjectRef} {text : String} {symbol : Option String} {s s' : σ} {handle : η} :
    o.text? = some text → T.object o symbol s = .ok (handle, s') →
    ∃ id, fullAddress text = .ok id ∧ find s' id = some handle ∧
      ∀ other handle', find s other = some handle' → find s' other = some handle'

theorem Finds.steady {T : Target σ η} {gas : η} {find : σ → String → Option η}
    (h : Finds T gas find) : Steady T where
  learns {o symbol s s' handle} hobject := by
    intro symbol'
    cases htext : o.text? with
    | none =>
      rw [h.gas symbol s htext] at hobject
      cases hobject
      exact h.gas symbol' s htext
    | some text =>
      obtain ⟨id, hfull, hfind, -⟩ := h.added htext hobject
      exact h.found symbol' htext hfull hfind
  keeps {o o' symbol s s' handle handle'} hobject hrecalls := by
    have hkeeps : ∀ other handle', find s other = some handle' →
        find s' other = some handle' := by
      cases htext : o.text? with
      | none =>
        rw [h.gas symbol s htext] at hobject
        cases hobject
        exact fun _ _ hfind => hfind
      | some text =>
        obtain ⟨_, _, _, hkeeps⟩ := h.added htext hobject
        exact hkeeps
    intro symbol'
    have hknown := hrecalls none
    cases htext : o'.text? with
    | none =>
      rw [h.gas none s htext] at hknown
      cases hknown
      exact h.gas symbol' s' htext
    | some text =>
      obtain ⟨id, hfull, hfind, -⟩ := h.added htext hknown
      exact h.found symbol' htext hfull (hkeeps id handle' hfind)

theorem objectRef_eq_text? (o : ObjectRef) : objectRef o =
    match o.text? with
    | none => pure .gasCoin
    | some text => addObject text := by
  cases o <;> rfl

def inputOf? (b : Builder) (id : String) : Option TxArg :=
  (b.inputs.findIdx? (· == .object id)).map fun i => .input (UInt16.ofNat i)

theorem builder_finds : Finds Builder.target .gasCoin inputOf? where
  gas {o} symbol b htext := by
    show asTarget (objectRef o) b = _
    rw [objectRef_eq_text?, htext]
    rfl
  found {o text id} symbol {b handle} htext hfull hfind := by
    obtain ⟨i, hi, rfl⟩ := Option.map_eq_some_iff.mp hfind
    show asTarget (objectRef o) b = _
    simp only [objectRef_eq_text?, htext, asTarget_addObject, hfull, hi]
  added {o text symbol b b' handle} htext hobject := by
    have hcall : asTarget (objectRef o) b = .ok (handle, b') := hobject
    simp only [objectRef_eq_text?, htext, asTarget_addObject] at hcall
    cases hfull : fullAddress text with
    | error cause =>
      rw [hfull] at hcall
      cases hcall
    | ok id =>
      refine ⟨id, rfl, ?_⟩
      simp only [hfull] at hcall
      cases hfind : b.inputs.findIdx? (· == .object id) with
      | some i =>
        rw [hfind] at hcall
        cases hcall
        exact ⟨by rw [inputOf?, hfind]; rfl, fun _ _ h => h⟩
      | none =>
        simp only [hfind, asTarget_pushInput] at hcall
        split at hcall
        · cases hcall
          have hpush (other : String) : inputOf? (b.addInput (.object id)) other =
              (inputOf? b other).or (if id = other then some (.input (UInt16.ofNat b.inputs.size))
                else none) := by
            by_cases hid : id = other <;>
              cases hother : b.inputs.findIdx? (· == .object other) <;>
              simp [inputOf?, Builder.addInput, Array.findIdx?_push, hid, hother]
          refine ⟨?_, fun other handle' h => ?_⟩
          · rw [hpush, inputOf?, hfind, if_pos rfl]
            rfl
          · rw [hpush, h]
            rfl
        · cases hcall

def objectExpr : ObjectRef → Script.Expr
  | .gas => .gas
  | .byId id => .object (Text.trim id)
  | .system => .system
  | .clock => .clock
  | .random => .random

theorem writer_object_eq (o : ObjectRef) (symbol : Option String) (w : Script.Writer) :
    Script.Writer.object o symbol w =
      match o.text? with
      | none => .ok (⟨.gas, .gas⟩, w)
      | some text => do
        return w.known (← (fullAddress text).mapError .encode) (objectExpr o) symbol := by
  cases o <;> rfl

theorem writer_finds : Finds Script.Writer.target ⟨.gas, .gas⟩
    fun w id => Directory.get? w.objects id where
  gas {o} symbol w htext := by
    show Script.Writer.object o symbol w = _
    rw [writer_object_eq, htext]
  found {o text id} symbol {w handle} htext hfull hfind := by
    show Script.Writer.object o symbol w = _
    rw [writer_object_eq, htext]
    refine bind_eq_ok.mpr ⟨id, by rw [hfull]; rfl, ?_⟩
    rw [Script.Writer.known, hfind]
    rfl
  added {o text symbol w w' handle} htext hobject := by
    have hcall : Script.Writer.object o symbol w = .ok (handle, w') := hobject
    simp only [writer_object_eq, htext] at hcall
    obtain ⟨id, hid, hcall⟩ := bind_eq_ok.mp hcall
    have hfull : fullAddress text = .ok id := by
      cases hfull : fullAddress text with
      | error cause =>
        rw [hfull] at hid
        cases hid
      | ok full =>
        rw [hfull] at hid
        cases hid
        rfl
    have hknown := Except.ok.inj hcall
    refine ⟨id, hfull, ?_⟩
    unfold Script.Writer.known at hknown
    cases hfind : Directory.get? w.objects id with
    | some known =>
      rw [hfind] at hknown
      cases hknown
      exact ⟨hfind, fun _ _ h => h⟩
    | none =>
      have hhoist : (w.hoist symbol (objectExpr o)).2.objects = w.objects := by
        cases symbol <;> rfl
      rw [hfind] at hknown
      generalize w.hoist symbol (objectExpr o) = hoisted at hknown hhoist
      cases hknown
      simp only [Directory.get?_insert, hhoist, if_pos]
      refine ⟨trivial, fun other handle' h => ?_⟩
      rw [if_neg, h]
      rintro rfl
      rw [hfind] at h
      cases h

end Lowering

/-! ## Programs -/

namespace Program

/-- A variable refers to the names in its value, unless its value is just a name. -/
def Refers (p : Program) (x y : String) : Prop :=
  ∃ value, p.valueOf? x = some value ∧ Lowering.symbolOf value = none ∧ y ∈ value.refs

/-- No variable refers to itself, directly or through others. -/
def Grounded (p : Program) : Prop :=
  ∀ x, ¬ Relation.TransGen p.Refers x x

end Program

namespace Lowering

theorem refers_of_mentions {p : Program} {x y : String}
    (h : Mentions (initialEnv (η := η) p.vars) x y) : p.Refers x y := by
  obtain ⟨value, ⟨hget, hvalue⟩, hy⟩ := h
  rw [get?_initialEnv_eq] at hget
  obtain ⟨_, hget, heq⟩ := Option.map_eq_some_iff.mp hget
  cases heq
  exact ⟨value, hget, hvalue, hy⟩

def Within (p : Program) (env : Directory (Entry η)) : Prop :=
  ∀ name value, StandsFor env name value → StandsFor (initialEnv (η := η) p.vars) name value

theorem Within.bindEnv {p : Program} {env : Directory (Entry η)} (h : Within p env)
    (names : List String) (handles : List η) : Within p (bindEnv names handles env) := by
  rintro name value ⟨hget, hvalue⟩
  rcases get?_bindEnv hget with hold | ⟨_, _, -, -, heq⟩
  · exact h name value ⟨hold, hvalue⟩
  · cases heq

theorem follows_symm {α : Type} {x y : Except LowerError α} (h : Follows IsCircular Eq x y)
    (hstop : Stopped x → Stopped y) : Follows IsCircular Eq y x := by
  cases h with
  | ok h => exact .ok h.symm
  | error e => exact .error e
  | exempt h y =>
    obtain ⟨site, name, rfl⟩ := h
    obtain ⟨site', name', rfl⟩ := hstop ⟨site, name, rfl⟩
    exact .exempt ⟨site', name', rfl⟩ _

section Bounded

variable {T : Target σ η} (hT : Steady T) {p : Program} {w : Walk σ η}

def varNames (p : Program) : Finset String :=
  (p.vars.map Binding.name).toFinset

theorem card_varNames_le (p : Program) : (varNames p).card ≤ p.vars.length := by
  simpa [varNames] using List.toFinset_card_le (p.vars.map Binding.name)

theorem mem_varNames (hw : Within p w.env) (name : String) (value : Operand)
    (h : StandsFor w.env name value) : name ∈ varNames p := by
  obtain ⟨v, hv, rfl, -⟩ := init_of_initialEnv (hw name value h).1
  exact List.mem_toFinset.mpr (List.mem_map_of_mem hv)

include hT

theorem not_grounded_of_stopped {c : Context σ η} (hc : c.target = T) {slot : Slot}
    (hw : Within p w.env) {symbol : Option String} {value : Operand}
    (h : Stopped ((c.resolveFrom slot p.vars.length symbol value).run w)) : ¬ p.Grounded := by
  subst hc
  have hrecurs := recurs_of_stopped_of_few hT (card_varNames_le p) (mem_varNames hw) h
  obtain ⟨name, hname⟩ := mentions_of_recurs hT hrecurs
  intro hground
  refine hground name (Relation.TransGen.mono ?_ name name hname)
  rintro x y ⟨value, hvalue, hy⟩
  exact refers_of_mentions ⟨value, hw x value hvalue, hy⟩

/-- A bound that is enough for an operand gives what the number of variables gives. -/
theorem resolve_follows (site : Site) (sender : Option String) (slot : Slot) (value : Operand)
    (hw : Within p w.env) (depth : Nat) :
    Follows IsCircular Eq (((Context.mk T site sender depth).resolve slot value).run w)
      (((Context.mk T site sender p.vars.length).resolve slot value).run w) := by
  have hcircular : ∀ site name, IsCircular (.circular site name) :=
    fun site name => ⟨site, name, rfl⟩
  rcases Nat.le_total depth p.vars.length with hle | hle
  · exact resolveFrom_follows slot hle (.inr hcircular) (symbolOf value) value w
  · refine follows_symm (resolveFrom_follows slot hle (.inr hcircular) (symbolOf value) value w) ?_
    -- more depth would help only if less stopped short, which it does not with so few variables
    intro hstop
    refine stopped_of_stopped hT (card_varNames_le p) (mem_varNames hw) ?_ depth
    have heq : Follows (fun _ => False) Eq
        (((Context.mk T site sender depth).resolveFrom slot p.vars.length (symbolOf value)
          value).run w)
        (((Context.mk T site sender p.vars.length).resolveFrom slot p.vars.length (symbolOf value)
          value).run w) :=
      resolveFrom_follows slot (Nat.le_refl _) (.inl rfl) (symbolOf value) value w
    rwa [heq.eq]

theorem resolve_bounded (site : Site) (sender : Option String) (slot : Slot) (value : Operand)
    (hw : Within p w.env) {depth : Nat} {goes : Prop}
    (hgoes : goes → depth = p.vars.length ∧ p.Grounded) :
    Quiet (fun e => goes → ¬ IsCircular e) w.env
      ((Context.mk T site sender depth).resolve slot value) fun _ => True := by
  intro v hv
  unfold Ensures
  cases hrun : ((Context.mk T site sender depth).resolve slot value).run v with
  | ok a =>
    have hlater := resolveFrom_repeatable (c := ⟨T, site, sender, depth⟩) hT slot depth
      (symbolOf value) value v a.1 a.2 hrun
    exact .ok ⟨hlater.1.env.trans hv, trivial⟩
  | error e =>
    refine .error ?_
    rintro h ⟨site, name, rfl⟩
    obtain ⟨rfl, hground⟩ := hgoes h
    exact not_grounded_of_stopped hT rfl (hv.symm ▸ hw) ⟨site, name, hrun⟩ hground

end Bounded

/-- The walk of a program where variables may be followed to any given depth. -/
def runWithin (depth : Nat) (T : Target σ η) (sender : Option String) (p : Program) (start : σ) :
    Except LowerError σ := do
  let walk : Walk σ η := ⟨start, initialEnv p.vars, []⟩
  let (_, walk) ← (operations T sender depth 0 p.ops).run walk
  return walk.target

section Runs

variable {T : Target σ η} (hT : Steady T) (sender : Option String) (p : Program) (start : σ)

include hT

/-- The second walk may follow as many variables as the program has. If this is what the first may
do and the program is grounded, then neither is stopped. -/
theorem operations_bounded (depth : Nat) (goes : Prop)
    (hgoes : goes → depth = p.vars.length ∧ p.Grounded) :
    Follows IsCircular Eq
      ((operations T sender depth 0 p.ops).run (⟨start, initialEnv p.vars, []⟩ : Walk σ η))
      ((operations T sender p.vars.length 0 p.ops).run ⟨start, initialEnv p.vars, []⟩) ∧
    Ensures (fun e => goes → ¬ IsCircular e) ⟨start, initialEnv p.vars, []⟩
      (operations T sender depth 0 p.ops) fun _ _ => True := by
  have huse : ∀ e, OfUse e → goes → ¬ IsCircular e := by
    rintro e h - ⟨site, name, rfl⟩
    exact h
  have hmet (site : Site) : Manner.Met ⟨fun e => goes → ¬ IsCircular e, IsCircular, _, _⟩
      (⟨T, site, sender, depth⟩ : Context σ η) := Manner.met_of_lax huse
  refine Manner.operations_follow hmet p.vars.length (fun _ => Within p) ?_ ?_ 0 p.ops fun _ _ h => h
  · intro site op rest env hw u hu
    refine Manner.resolves_of_lax huse (fun slot => ?_) fun slot w henv => ?_
    · exact resolve_bounded hT site sender slot u.2 (w := ⟨start, env, []⟩) hw hgoes
    · exact resolve_follows hT site sender slot u.2 (henv.symm ▸ hw) depth
  · exact fun _ _ _ handles hw _ => hw.bindEnv _ handles

theorem runWithin_follows (depth : Nat) :
    Follows IsCircular Eq (runWithin depth T sender p start) (run T sender p start) := by
  have h := operations_bounded hT sender p start depth False False.elim
  refine .bind h.1 ?_
  rintro a b rfl
  exact .ok rfl

theorem not_stopped_run (hp : p.Grounded) : ¬ Stopped (run T sender p start) := by
  have h := operations_bounded hT sender p start p.vars.length True fun _ => ⟨rfl, hp⟩
  rw [run, stopped_bind_iff]
  rintro (⟨site, name, hrun⟩ | ⟨a, -, hstop⟩)
  · have hraised := h.2
    rw [Ensures, hrun] at hraised
    exact hraised.of_error trivial ⟨site, name, rfl⟩
  · exact not_stopped_ok _ hstop

end Runs

end Lowering

def Transaction.ofProgramWithin (depth : Nat) (p : Program) (options : ExecOptions) :
    Except LowerError Transaction := do
  if options.sender.isNone && p.usesSender then
    throw .missingSender
  let b ← Lowering.runWithin depth Builder.target options.sender p Builder.empty
  return (← b.configure options).build

def Script.ofProgramWithin (depth : Nat) (p : Program) (options : ExecOptions) :
    Except LowerError (Script × CallTrace) := do
  let w ← Lowering.runWithin depth Writer.target options.sender p (Writer.start p)
  let sender ← senderOf options
  return (⟨sender, options.gasBudget, w.lines.toList⟩, w.trace.toList)

namespace Lowering

theorem not_stopped_of_resolved {α : Type} {x : Except LowerError α} {post : α → Prop}
    (h : Ends IsResolved post x) : ¬ Stopped x := by
  rintro ⟨site, name, rfl⟩
  exact h.of_error

theorem transaction_follows (depth : Nat) (p : Program) (o : ExecOptions) :
    Follows IsCircular Eq (Transaction.ofProgramWithin depth p o) (Transaction.ofProgram p o) := by
  unfold Transaction.ofProgramWithin Transaction.ofProgram
  split
  · exact .error _
  · refine .bind (runWithin_follows builder_finds.steady o.sender p _ depth) ?_
    rintro b _ rfl
    exact .refl _

theorem script_follows (depth : Nat) (p : Program) (o : ExecOptions) :
    Follows IsCircular Eq (Script.ofProgramWithin depth p o) (Script.ofProgram p o) := by
  refine .bind (runWithin_follows writer_finds.steady o.sender p _ depth) ?_
  rintro w _ rfl
  exact .refl _

theorem not_stopped_transaction {p : Program} (hp : p.Grounded) (o : ExecOptions) :
    ¬ Stopped (Transaction.ofProgram p o) := by
  unfold Transaction.ofProgram
  split
  · rintro ⟨site, name, h⟩
    cases h
  · show ¬ Stopped (run Builder.target o.sender p Builder.empty >>= _)
    rw [stopped_bind_iff]
    rintro (h | ⟨b, -, h⟩)
    · exact not_stopped_run builder_finds.steady o.sender p _ hp h
    · rcases stopped_bind_iff.mp h with h | ⟨_, -, h⟩
      · exact not_stopped_of_resolved (configure_ends (fun _ => trivial) b o) h
      · exact not_stopped_ok _ h

theorem not_stopped_script {p : Program} (hp : p.Grounded) (o : ExecOptions) :
    ¬ Stopped (Script.ofProgram p o) := by
  rw [Script.ofProgram, stopped_bind_iff]
  rintro (h | ⟨w, -, h⟩)
  · exact not_stopped_run writer_finds.steady o.sender p _ hp h
  · rcases stopped_bind_iff.mp h with h | ⟨_, -, h⟩
    · exact not_stopped_of_resolved (senderOf_resolved o) h
    · exact not_stopped_ok _ h

/-- Where variables may be followed further and further, the outcomes come to the answer: each that
is not stopped is the answer, and the answer is only stopped if all of them are. -/
structure Approaches {α : Type} (within : Nat → Except LowerError α)
    (answer : Except LowerError α) : Prop where
  eq_of_returns (depth : Nat) : ¬ Stopped (within depth) → within depth = answer
  stopped_iff : Stopped answer ↔ ∀ depth, Stopped (within depth)

theorem approaches_of_follows {α : Type} {within : Nat → Except LowerError α}
    {answer : Except LowerError α} (h : ∀ depth, Follows IsCircular Eq (within depth) answer)
    (depth : Nat) (hdepth : within depth = answer) : Approaches within answer := by
  have heq (depth : Nat) (hgoes : ¬ Stopped (within depth)) : within depth = answer :=
    eq_of_follows (h depth) hgoes
  refine ⟨heq, fun hstop depth => ?_, fun hall => hdepth ▸ hall depth⟩
  by_contra hgoes
  exact hgoes (heq depth hgoes ▸ hstop)

/-- In a walk of the program, resolving is stopped exactly at the operands from which it would go on
for ever. -/
def StopsAtEndless (T : Target σ η) (sender : Option String) (p : Program) : Prop :=
  ∀ (site : Site) (slot : Slot) (value : Operand) (w : Walk σ η), Within p w.env →
    (Stopped (((Context.mk T site sender p.vars.length).resolve slot value).run w) ↔
      (Context.mk T site sender p.vars.length).Endless slot ⟨symbolOf value, value, w⟩)

theorem stopsAtEndless {T : Target σ η} (hT : Steady T) (sender : Option String) (p : Program) :
    StopsAtEndless T sender p :=
  fun _ _ _ _ hw => stopped_iff_endless hT (card_varNames_le p) (mem_varNames hw)

/-- **Lowering returns unless a variable leads back to itself.** For both targets, lowering is
stopped if and only if no depth is enough to follow the variables, and otherwise gives what every
depth that is enough gives. It is stopped at the operands from which others would be entered for
ever. If no variable refers to itself, directly or through others, it is not stopped. -/
theorem lowering_stopped_iff_endless (p : Program) (o : ExecOptions) :
    Approaches (Transaction.ofProgramWithin · p o) (Transaction.ofProgram p o) ∧
    Approaches (Script.ofProgramWithin · p o) (Script.ofProgram p o) ∧
    StopsAtEndless Builder.target o.sender p ∧
    StopsAtEndless Script.Writer.target o.sender p ∧
    (p.Grounded →
      ¬ Stopped (Transaction.ofProgram p o) ∧ ¬ Stopped (Script.ofProgram p o)) := by
  refine ⟨?_, ?_, ?_, ?_, ?_⟩
  · exact approaches_of_follows (transaction_follows · p o) p.vars.length rfl
  · exact approaches_of_follows (script_follows · p o) p.vars.length rfl
  · exact stopsAtEndless builder_finds.steady o.sender p
  · exact stopsAtEndless writer_finds.steady o.sender p
  · exact fun hp => ⟨not_stopped_transaction hp o, not_stopped_script hp o⟩

/-- A vector that is its own only item. -/
def ownItem : Program where
  vars := [⟨"a", .vector [.ref "a"]⟩]
  ops := [.mergeCoins (.ref "a") (.each [])]

/-- A vector of a coin that has a name. -/
def namedItem : Program where
  vars := [⟨"coin", .object .gas⟩, ⟨"coins", .vector [.ref "coin"]⟩]
  ops := [.mergeCoins (.ref "coin") (.packed (.ref "coins"))]

theorem namedItem_grounded : namedItem.Grounded := by
  have hrefers {x y : String} (h : namedItem.Refers x y) : x = "coins" ∧ y = "coin" := by
    obtain ⟨_, hget, -, hy⟩ := h
    obtain ⟨v, hv, rfl⟩ := Option.map_eq_some_iff.mp hget
    have hmem := List.mem_of_find?_eq_some hv
    have hname := List.find?_some hv
    simp only [namedItem, List.reverse_cons, List.reverse_nil, List.nil_append, List.cons_append,
      List.mem_cons, List.not_mem_nil, or_false] at hmem
    rcases hmem with rfl | rfl
    · simp_all [Operand.refs, Operand.refs.allRefs]
    · simp [Operand.refs] at hy
  intro x h
  obtain ⟨y, hfirst, -⟩ := Relation.TransGen.head'_iff.mp h
  obtain ⟨z, -, hlast⟩ := Relation.TransGen.tail'_iff.mp h
  have hx := (hrefers hfirst).1.symm.trans (hrefers hlast).2
  simp at hx

theorem lowering_stopped_iff_endless_ownItem :
    (∀ depth, Stopped (Transaction.ofProgramWithin depth ownItem ⟨none, none⟩)) ∧
    (∀ depth, Stopped (Script.ofProgramWithin depth ownItem ⟨none, none⟩)) ∧
    (Context.mk Builder.target ⟨0, .mergeCoins⟩ none 1).Endless (.of "destination")
      ⟨some "a", .ref "a", Builder.empty, initialEnv ownItem.vars, []⟩ ∧
    ¬ Stopped (Transaction.ofProgram namedItem ⟨none, none⟩) ∧
    ¬ Stopped (Script.ofProgram namedItem ⟨none, none⟩) := by
  obtain ⟨htransaction, hscript, hends, -, -⟩ := lowering_stopped_iff_endless ownItem ⟨none, none⟩
  obtain ⟨-, -, -, -, hgrounded⟩ := lowering_stopped_iff_endless namedItem ⟨none, none⟩
  refine ⟨?_, ?_, ?_, hgrounded namedItem_grounded⟩
  · exact htransaction.stopped_iff.mp ⟨⟨0, .mergeCoins⟩, "a", rfl⟩
  · exact hscript.stopped_iff.mp ⟨⟨0, .mergeCoins⟩, "a", rfl⟩
  · refine (hends ⟨0, .mergeCoins⟩ (.of "destination") (.ref "a") _ fun _ _ h => h).mp ?_
    exact ⟨⟨0, .mergeCoins⟩, "a", rfl⟩

end Lowering

end TxGraph
