import TxGraph.Proofs.Lowering.Single
import TxGraph.Proofs.Program.Scope
import TxGraph.Proofs.Transaction.Builder

/-!
# Lowering scoped programs

While the operands of an operation are resolved the environment stays as it is, and a name that is
bound in it is found. An operation then binds its outputs, provided that the target gives a handle
for each. So no name is missing from the lowering of a scoped program.
-/

namespace TxGraph

namespace Lowering

variable {σ η α β : Type}

/-! ## Environments -/

/-- The environment has a handle for each of the names, or a value that refers to nothing, which is
within a depth. -/
def Covers (depth : Nat) (env : Directory (Entry η)) (names : List String) : Prop :=
  ∀ name ∈ names, ∃ entry, Directory.get? env name = some entry ∧
    ∀ value, entry = .init value → value.refs = [] ∧ 0 < depth

variable {depth : Nat}
variable {env : Directory (Entry η)}

theorem Covers.mono {names more : List String} (h : Covers depth env names) (hsub : more ⊆ names) :
    Covers depth env more :=
  fun name hname => h name (hsub hname)

theorem Covers.insert {names : List String} (h : Covers depth env names) (name : String)
    (handle : η) : Covers depth (Directory.insert name (.bound handle) env) (name :: names) := by
  intro other hother
  rw [Directory.get?_insert]
  by_cases heq : name = other
  · exact ⟨.bound handle, if_pos heq, nofun⟩
  · rw [if_neg heq]
    exact h other ((List.mem_cons.mp hother).resolve_left (Ne.symm heq))

theorem Covers.bindEnv : {names : List String} → {handles : List η} →
    handles.length = names.length → {env : Directory (Entry η)} → {bound : List String} →
    Covers depth env bound → Covers depth (bindEnv names handles env) (bound ++ names)
  | [], [], _, _, bound, h => (List.append_nil bound).symm ▸ h
  | name :: _, handle :: _, hlen, _, _, h =>
    (Covers.bindEnv (Nat.succ.inj hlen) (h.insert name handle)).mono (by simp)

theorem covers_initialEnv {vars : List Binding} (h : ∀ v ∈ vars, v.init.refs = []) :
    Covers vars.length (initialEnv (η := η) vars) (vars.map Binding.name) := by
  intro name hname
  cases hfound : Directory.get? (initialEnv (η := η) vars) name with
  | none =>
    obtain ⟨v, hv, rfl⟩ := List.mem_map.mp hname
    rw [initialEnv, Directory.get?_ofEntries] at hfound
    have := List.lookup_eq_none_iff.mp hfound (v.name, .init v.init)
      (by simpa using ⟨v, hv, rfl, rfl⟩)
    simp at this
  | some entry =>
    obtain ⟨v, hv, -, rfl⟩ := init_of_initialEnv hfound
    exact ⟨_, rfl, fun value hvalue => by cases hvalue; exact ⟨h v hv, List.length_pos_of_mem hv⟩⟩

/-! ## Errors -/

/-- Any error but those of a name: that nothing binds it, or that its value leads back to it. -/
def IsResolved : LowerError → Prop
  | .unresolvedSymbol _ _ => False
  | .circular _ _ => False
  | _ => True

/-! ## Lowering -/

theorem isResolved_of_use (e : LowerError) (h : OfUse e) : IsResolved e := by
  cases e <;> trivial

theorem resolveFrom_quiet (c : Context σ η) (slot : Slot) (depth : Nat) (symbol : Option String)
    (value : Operand) (h : Covers depth env value.refs) :
    Quiet IsResolved env (c.resolveFrom slot depth symbol value) fun _ => True := by
  induction depth generalizing symbol value with
  | zero =>
    refine resolveWith_quiet c isResolved_of_use slot symbol value fun name hname => ?_
    obtain ⟨entry, hentry, hclosed⟩ := h name hname
    refine ref_quiet c (.inr ⟨entry, hentry, fun value heq => ?_⟩) (fun _ _ => trivial)
      (fun value hvalue => ?_) slot
    · exact absurd (hclosed value heq).2 (Nat.lt_irrefl 0)
    · exact absurd (hclosed value (Option.some.inj (hentry.symm.trans hvalue))).2 (Nat.lt_irrefl 0)
  | succ depth ih =>
    refine resolveWith_quiet c isResolved_of_use slot symbol value fun name hname => ?_
    obtain ⟨entry, hentry, hclosed⟩ := h name hname
    refine ref_quiet c (.inr ⟨entry, hentry, fun value heq => ?_⟩) (fun _ _ => trivial)
      (fun value hvalue => ih (some name) value ?_) slot
    · have hrefs := (hclosed value heq).1
      cases value <;> first | rfl | cases hrefs
    · rw [(hclosed value (Option.some.inj (hentry.symm.trans hvalue))).1]
      exact fun _ hmem => nomatch hmem

/-- Lowering a scoped program misses no name. -/
theorem run_resolved {T : Target σ η} (hT : Complete T) (sender : Option String) {p : Program}
    (hclosed : ∀ v ∈ p.vars, v.init.refs = []) (hbalanced : ∀ op ∈ p.ops, op.Balanced)
    (hscoped : Operation.Scoped (p.vars.map Binding.name) p.ops) (start : σ) :
    Ends IsResolved (fun _ => True) (run T sender p start) := by
  have hmet (site : Site) : Manner.Met { raised := IsResolved }
      (⟨T, site, sender, p.vars.length⟩ : Context σ η) := Manner.met_of_lax isResolved_of_use
  have hops := Manner.operations_follow hmet p.vars.length (fun ops env =>
      (∀ op ∈ ops, op.Balanced) ∧
        ∃ bound, Covers p.vars.length env bound ∧ Operation.Scoped bound ops) ?_ ?_ 0 p.ops
    (w := ⟨start, initialEnv p.vars, []⟩) ⟨hbalanced, _, covers_initialEnv hclosed, hscoped⟩
  · exact Ends.bind hops.2 fun _ _ => .ok trivial
  · rintro site op rest env ⟨-, bound, hcovers, hscoped⟩ u hu
    refine Manner.resolves_of_lax isResolved_of_use (fun slot => ?_) fun _ _ _ => .refl _
    exact resolveFrom_quiet _ slot _ _ u.2
      (hcovers.mono ((Operation.scoped_cons.mp hscoped).1 u.2 (Use.mem_operands hu)))
  · rintro op rest env handles ⟨hbalanced, bound, hcovers, hscoped⟩ hlen
    obtain ⟨hop, hrest⟩ := List.forall_mem_cons.mp hbalanced
    exact ⟨hrest, _, hcovers.bindEnv (hlen hT hop), (Operation.scoped_cons.mp hscoped).2⟩

/-! ## The two targets -/

theorem builder_complete : Complete Transaction.Builder.target where
  splitCoins hlen h := by
    obtain ⟨-, -, rfl, -⟩ := (Transaction.Builder.appends_pushWithResults _ _).eq_ok h
    simpa [Transaction.Builder.results] using hlen
  moveCall h := by
    obtain ⟨-, -, rfl, -⟩ := (Transaction.Builder.appends_pushWithResults _ _).eq_ok h
    simp [Transaction.Builder.results]

theorem writer_complete : Complete Script.Writer.target where
  splitCoins {coin amounts handles out s s'} _ h := by
    obtain ⟨index, -, h⟩ := bind_eq_ok.mp h
    obtain ⟨_, -, h⟩ := bind_eq_ok.mp h
    cases h
    simp [Script.Writer.results]
  moveCall {callee args handles out s s'} h := by
    obtain ⟨index, -, h⟩ := bind_eq_ok.mp h
    obtain ⟨address, -, h⟩ := bind_eq_ok.mp h
    obtain ⟨_, -, h⟩ := bind_eq_ok.mp h
    cases h
    simp [Script.Writer.results]

end Lowering

/-! ## Compiled programs -/

theorem Compile.Runs.balanced {g : Graph} {s s' : Compile.Scope} {cs : List (String × Command)}
    {ops : List Operation} (h : Compile.Runs g s cs ops s') : ∀ op ∈ ops, op.Balanced := by
  induction h with
  | nil s => simp
  | @cons s s₁ s₂ id c op cs ops h rest ih =>
    refine List.forall_mem_cons.mpr ⟨?_, ih⟩
    cases c <;> cases h <;>
      simp [Operation.Balanced, Compile.Scope.inputs, Compile.Scope.length_outputs]

theorem Lowering.configure_ends {err : LowerError → Prop} (herr : ∀ text, err (.invalidSender text))
    (b : Transaction.Builder) (o : ExecOptions) : Ends err (fun _ => True) (b.configure o) := by
  rw [Transaction.Builder.configure_eq]
  refine ((Transaction.Builder.senderOf_ends o).mono_error ?_).map fun _ _ => trivial
  rintro _ ⟨text, rfl⟩
  exact herr text

theorem Lowering.senderOf_resolved (o : ExecOptions) :
    Ends IsResolved (fun _ => True) (Script.senderOf o) := by
  refine ((Transaction.Builder.senderOf_ends o).mono_error ?_).mono fun _ _ => trivial
  rintro _ ⟨text, rfl⟩
  trivial

/-- Neither target misses a name of a compiled program. -/
theorem Lowering.ofProgram_resolved {g : Graph} {reserved : List String} {p : Program}
    (h : g.compile reserved = .ok p) (o : ExecOptions) :
    Ends IsResolved (fun _ => True) (Transaction.ofProgram p o) ∧
      Ends IsResolved (fun _ => True) (Script.ofProgram p o) := by
  have hp := Program.wellScoped_of_compile h
  obtain ⟨_, _, _, _, _, _, hruns⟩ := Graph.compile_runs h
  refine ⟨?_, ?_⟩
  · unfold Transaction.ofProgram
    split
    · exact .error (e := LowerError.missingSender) trivial
    refine .bind (run_resolved builder_complete o.sender hp.closed hruns.balanced hp.inScope _)
      fun b _ => ?_
    exact .bind (configure_ends (fun _ => trivial) b o) fun _ _ => .ok trivial
  · refine .bind (run_resolved writer_complete o.sender hp.closed hruns.balanced hp.inScope _)
      fun w _ => ?_
    exact .bind (senderOf_resolved o) fun _ _ => .ok trivial

/-- **Compiled programs are well scoped.** Their names are distinct identifiers, none of them
reserved, and each is bound before it is used; so nothing dangles and no lowering misses a name. -/
theorem compile_wellScoped {g : Graph} {reserved : List String} {p : Program}
    (h : g.compile reserved = .ok p) :
    p.WellScoped reserved ∧ p.danglingRefs = [] ∧ ∀ o site symbol,
      Transaction.ofProgram p o ≠ .error (.unresolvedSymbol site symbol) ∧
      Script.ofProgram p o ≠ .error (.unresolvedSymbol site symbol) := by
  have hp := Program.wellScoped_of_compile h
  refine ⟨hp, hp.danglingRefs_eq_nil, fun o site symbol => ?_⟩
  obtain ⟨htransaction, hscript⟩ := Lowering.ofProgram_resolved h o
  constructor
  · intro he
    rw [he] at htransaction
    cases htransaction with
    | error hresolved => exact hresolved
  · intro he
    rw [he] at hscript
    cases hscript with
    | error hresolved => exact hresolved

/-- Two coins split off the gas coin for the sender. The amounts come from two variables with one
id, of which the first has a name that is reserved; only the second is seen. -/
def splitForSelf : Graph where
  nodes := [.start "s", .finish "e", .var ⟨"n", "class", .integer .u64, some (.str "5")⟩,
    .var ⟨"n", "amount", .integer .u64, some (.str "7")⟩, .var ⟨"me", "sender", .address, none⟩,
    .var ⟨"g", "gas", .anyObject, none⟩, .command "c" (.splitCoins 2),
    .command "t" (.transferObjects 2 true)]
  edges := [.flow "s" "c", .flow "c" "t", .flow "t" "e", .io "g" "out" "c" "in_coin" none,
    .io "n" "out" "c" "in_amount_0" none, .io "n" "out" "c" "in_amount_1" none,
    .io "c" "out_coin_0" "t" "in_object_0" none, .io "c" "out_coin_1" "t" "in_object_1" none,
    .io "me" "out" "t" "in_recipient" none]

def splitForSelfProgram : Program where
  vars := [⟨"class_2", .integer .u64 "5"⟩, ⟨"amount", .integer .u64 "7"⟩]
  ops := [.splitCoins (.object .gas) [.ref "amount", .ref "amount"] ["coin_2", "coin_3"],
    .transferObjects (.each [.ref "coin_2", .ref "coin_3"]) (.constant .sender)]

theorem compile_wellScoped_splitForSelf :
    splitForSelf.compile ["coin"] = .ok splitForSelfProgram ∧
    splitForSelfProgram.WellScoped ["coin"] ∧ splitForSelfProgram.danglingRefs = [] ∧
    ∀ o site symbol,
      Transaction.ofProgram splitForSelfProgram o ≠ .error (.unresolvedSymbol site symbol) ∧
      Script.ofProgram splitForSelfProgram o ≠ .error (.unresolvedSymbol site symbol) := by
  have h : splitForSelf.compile ["coin"] = .ok splitForSelfProgram := by decide +kernel
  exact ⟨h, compile_wellScoped h⟩

end TxGraph
