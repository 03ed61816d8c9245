import TxGraph.Proofs.Lowering.Lockstep

/-!
# Two runs of the walk in step

The walk does not look into the handles of a target, so two targets that answer each call alike
stay alike over a whole program. Nor does it look into names, so the second may walk the program
under other names. It puts in the sender where it encodes a literal, so the first may walk the
program with the sender put in beforehand. The main statement is `run_follows`.
-/

namespace TxGraph.Lowering

variable {σ₁ σ₂ η₁ η₂ : Type}

/-! ## Walks that correspond -/

structure Supplies (T₁ : Target σ₁ η₁) (T₂ : Target σ₂ η₂) (r : Correspondence σ₁ σ₂ η₁ η₂)
    (sender : Option String) (leaf : Literal → Prop) (exempt : Refusal → Prop) : Prop where
  fill : r.fill = none ∨ r.fill = sender := by exact .inl rfl
  object {s : σ₁} {t : σ₂} (o : ObjectRef) (symbol : Option String) : r.state s t →
    r.Step exempt s t r.pass (T₁.object o symbol s) (T₂.object o (symbol.map r.name) t)
  pure {s : σ₁} {t : σ₂} (kind : ParamKind) (value : Literal) (symbol : Option String) :
    r.state s t → value.Leaves leaf →
    r.Step exempt s t (r.arg kind) (T₁.pure kind (value.given sender) symbol s)
      (T₂.pure kind (value.given sender) (symbol.map r.name) t)
  vector {s : σ₁} {t : σ₂} {elems : List η₁} {elems' : List η₂} (kind : ParamKind) :
    r.state s t → List.Forall₂ (r.arg kind s t) elems elems' →
    r.Step exempt s t r.pass (T₁.makeMoveVec kind.pureType? elems none s)
      (T₂.makeMoveVec kind.pureType? elems' none t)

def Correspondence.alike (r : Correspondence σ₁ σ₂ η₁ η₂) (leaf : Literal → Prop)
    (exempt : Refusal → Prop) : Lockstep r where
  walk := r.walk leaf
  exempt := reports exempt
  leaf := leaf
  named symbol symbol' _ := symbol' = symbol.map r.name

open Correspondence Lockstep

variable {T₁ : Target σ₁ η₁} {T₂ : Target σ₂ η₂} {r : Correspondence σ₁ σ₂ η₁ η₂}
  {sender : Option String} {leaf : Literal → Prop} {exempt : Refusal → Prop} {site : Site}
  {depth : Nat} {w₁ : Walk σ₁ η₁} {w₂ : Walk σ₂ η₂}
variable {s : σ₁} {t : σ₂}

theorem alike_step {α β : Type} {post : σ₁ → σ₂ → α → β → Prop} {x : Except Refusal (α × σ₁)}
    {y : Except Refusal (β × σ₂)} (hw : r.walk leaf w₁ w₂)
    (h : r.Step exempt w₁.target w₂.target post x y) : (r.alike leaf exempt).Step w₁ w₂ post x y :=
  (Follows.mono_exempt h fun _ => reports_report).mono fun _ _ ⟨hs, hk, hp⟩ =>
    ⟨⟨hs, fun name => (hw.env name).keeps hk, fun k n => (hw.memo k n).keeps hk⟩, hk, hp⟩

theorem alike_call {α β : Type} {post : σ₁ → σ₂ → α → β → Prop} {f : σ₁ → Except Refusal (α × σ₁)}
    {g : σ₂ → Except Refusal (β × σ₂)} (hw : r.walk leaf w₁ w₂)
    (h : r.Step exempt w₁.target w₂.target post (f w₁.target) (g w₂.target)) :
    (r.alike leaf exempt).Together w₁ w₂ post ((Context.mk T₁ site sender depth).call f)
      ((Context.mk T₂ site sender depth).call g) :=
  (Leads.call (L := r.alike leaf exempt) (by rfl) (.always _) (alike_step hw h)).mono And.left

/-! ## Resolving -/

theorem resolveWith_ref {σ η : Type} (c : Context σ η)
    (expand : String → Operand → WalkM σ η (Resolved η))
    (slot : Slot) (symbol : Option String) (name : String) :
    c.resolveWith expand slot symbol (.ref name) = (do
      match Directory.get? (← get).env name with
      | some (.bound handle) => return .handle handle
      | some (.init value) =>
        if (symbolOf value).isSome then throw (.unresolvedSymbol c.site name)
        else expand name value
      | none => throw (.unresolvedSymbol c.site name)) := by
  rw [Context.resolveWith]
  congr
  funext w
  cases Directory.get? w.env name with
  | none => rfl
  | some entry =>
    cases entry with
    | bound h => rfl
    | init value => cases value <;> rfl

theorem symbolOf_given (fill : Option String) (value : Operand) :
    symbolOf (value.given fill) = symbolOf value := by
  cases fill with
  | none => rfl
  | some s =>
    cases value with
    | constant k => cases k <;> rfl
    | _ => rfl

theorem symbolOf_rename (f : String → String) (value : Operand) :
    symbolOf (value.rename f) = (symbolOf value).map f := by
  cases value <;> rfl

theorem constantLiteral_given (fill : Option String) (k : Constant) :
    ∃ k', (Operand.constant k).given fill = .constant k' ∧
      constantLiteral k' = (constantLiteral k).given fill := by
  cases fill with
  | none => exact ⟨k, rfl, rfl⟩
  | some s => cases k <;> exact ⟨_, rfl, rfl⟩

theorem literals?_resolved {s : σ₁} {t : σ₂} :
    {xs : List (Resolved η₁)} → {ys : List (Resolved η₂)} → resolved.all r leaf s t xs ys →
    literals? xs = (literals? ys).map (List.map (Literal.given r.fill)) ∧
      ∀ ls, literals? ys = some ls → Literal.Leaves.all leaf ls
  | [], [], _ => ⟨rfl, fun ls h => by cases h; trivial⟩
  | .literal l :: xs, .literal m :: ys, ⟨⟨hl, hleaf⟩, h⟩ => by
    obtain ⟨he, hls⟩ := literals?_resolved h
    refine ⟨?_, fun ls hm => ?_⟩
    · simp only [literals?, he, hl, Option.map_map]
      rfl
    · obtain ⟨rest, hr, rfl⟩ := Option.map_eq_some_iff.mp hm
      exact ⟨hleaf, hls rest hr⟩
  | .handle _ :: _, .handle _ :: _, _ => ⟨rfl, fun ls h => by cases h⟩
  | .list _ :: _, .list _ :: _, _ => ⟨rfl, fun ls h => by cases h⟩

theorem resolved_vector {xs : List (Resolved η₁)} {ys : List (Resolved η₂)}
    (h : resolved.all r leaf s t xs ys) : r.resolved leaf s t (.vector xs) (.vector ys) := by
  obtain ⟨he, hls⟩ := literals?_resolved h
  unfold Resolved.vector
  rw [he]
  cases hy : literals? ys with
  | none => exact h
  | some ls => exact ⟨(Literal.given_list r.fill ls).symm, hls ls hy⟩

section Gathering

variable (S : Supplies T₁ T₂ r sender leaf exempt)

include S

theorem resolveWith_together {e₁ : String → Operand → WalkM σ₁ η₁ (Resolved η₁)}
    {e₂ : String → Operand → WalkM σ₂ η₂ (Resolved η₂)}
    (he : ∀ name (value : Operand) {w₁ : Walk σ₁ η₁} {w₂ : Walk σ₂ η₂}, r.walk leaf w₁ w₂ →
      value.Leaves leaf → (r.alike leaf exempt).Together w₁ w₂ (r.resolved leaf)
        (e₁ name (value.given r.fill)) (e₂ (r.name name) (value.rename r.name))) (slot : Slot) :
    (symbol : Option String) → (value : Operand) → {w₁ : Walk σ₁ η₁} → {w₂ : Walk σ₂ η₂} →
    r.walk leaf w₁ w₂ → value.Leaves leaf → (r.alike leaf exempt).Together w₁ w₂ (r.resolved leaf)
      ((Context.mk T₁ site sender depth).resolveWith e₁ slot symbol (value.given r.fill))
      ((Context.mk T₂ site sender depth).resolveWith e₂ slot (symbol.map r.name)
        (value.rename r.name))
  | _, .absent, _, _, _, _ => by
    rw [Operand.given_absent]
    exact .throw (.undefinedOperand site slot) trivial
  | _, .ref name, w₁, w₂, hw, _ => by
    rw [Operand.given_ref, Operand.rename, resolveWith_ref, resolveWith_ref]
    refine .get_bind ?_
    have henv := hw.env name
    generalize Directory.get? w₁.env name = x at henv ⊢
    generalize Directory.get? w₂.env (r.name name) = y at henv ⊢
    match x, y, henv with
    | none, none, _ => exact .throw (.unresolvedSymbol site name) trivial
    | some (.bound a), some (.bound b), hab => exact .pure hw hab
    | some (.init _), some (.init _), ⟨value, rfl, rfl, hv⟩ =>
      simp only [symbolOf_given, symbolOf_rename, Option.isSome_map]
      split
      · exact .throw (.unresolvedSymbol site name) trivial
      · exact he name value hw hv
  | _, .constant k, _, _, hw, hv => by
    obtain ⟨k', hk, hliteral⟩ := constantLiteral_given r.fill k
    rw [hk]
    exact .pure hw ⟨hliteral, constant_leaves hv⟩
  | _, .integer _ _, _, _, hw, hv => by
    rw [Operand.given_integer]
    exact .pure hw ⟨by cases r.fill <;> rfl, hv⟩
  | symbol, .object o, _, _, hw, _ => by
    rw [Operand.given_object]
    exact .bind (alike_call hw (S.object o symbol hw.state)) fun hv _ h => .pure hv h
  | _, .vector items, _, _, hw, hv => by
    rw [Operand.given_vector]
    exact .bind (items_together items hw hv) fun hv _ h => .pure hv (resolved_vector h)
where
  constant_leaves {k : Constant} (h : leaf (constantLiteral k)) :
      (constantLiteral k).Leaves leaf := by
    cases k <;> exact h
  items_together : (items : List Operand) → {w₁ : Walk σ₁ η₁} → {w₂ : Walk σ₂ η₂} →
      r.walk leaf w₁ w₂ → Operand.Leaves.all leaf items →
      (r.alike leaf exempt).Together w₁ w₂ (resolved.all r leaf)
        (Context.resolveWith.resolveItems ⟨T₁, site, sender, depth⟩ e₁ slot
          (items.map (Operand.given r.fill)))
        (Context.resolveWith.resolveItems ⟨T₂, site, sender, depth⟩ e₂ slot
          (Operand.rename.renameAll r.name items))
    | [], _, _, hw, _ => .pure hw trivial
    | item :: rest, _, _, hw, hv =>
      .bind (resolveWith_together he slot none item hw hv.1) fun hw _ h =>
        .bind (items_together rest hw hv.2) fun hw hk hrest =>
          .pure hw ⟨resolved.keeps hk _ _ h, hrest⟩

theorem resolveFrom_together (slot : Slot) (n : Nat) (symbol : Option String) (value : Operand)
    (hw : r.walk leaf w₁ w₂) (hv : value.Leaves leaf) :
    (r.alike leaf exempt).Together w₁ w₂ (r.resolved leaf)
      ((Context.mk T₁ site sender depth).resolveFrom slot n symbol (value.given r.fill))
      ((Context.mk T₂ site sender depth).resolveFrom slot n (symbol.map r.name)
        (value.rename r.name)) := by
  induction n generalizing symbol value w₁ w₂ with
  | zero =>
    refine resolveWith_together S ?_ slot symbol value hw hv
    exact fun name _ _ _ _ _ => .throw (.circular site name) trivial
  | succ n ih =>
    refine resolveWith_together S ?_ slot symbol value hw hv
    intro name value w₁ w₂ hw hv
    exact ih (some name) value hw hv

/-! ## Encoding -/

omit S in
theorem walk_remember (hw : r.walk leaf w₁ w₂) {kind : ParamKind}
    {a : η₁} {b : η₂} (hab : r.arg kind w₁.target w₂.target a b) (symbol : String) :
    r.walk leaf { w₁ with memo := ((kind, symbol), a) :: w₁.memo }
      { w₂ with memo := ((kind, r.name symbol), b) :: w₂.memo } := by
  refine ⟨hw.state, hw.env, fun k n => ?_⟩
  have hkeys : ((k, r.name n) == (kind, r.name symbol)) = ((k, n) == (kind, symbol)) := by
    rw [Bool.eq_iff_iff]
    simp [r.name_injective.eq_iff]
  simp only [List.lookup_cons, hkeys]
  cases hkey : (k, n) == (kind, symbol) with
  | false => exact hw.memo k n
  | true =>
    obtain ⟨rfl, rfl⟩ := Prod.mk.inj (eq_of_beq hkey)
    exact hab

theorem encodeLiteral_together (kind : ParamKind) (value : Literal) (symbol : Option String)
    (hw : r.walk leaf w₁ w₂) (hv : value.Leaves leaf) :
    (r.alike leaf exempt).Together w₁ w₂ (r.arg kind)
      ((Context.mk T₁ site sender depth).encodeLiteral kind (value.given r.fill) symbol)
      ((Context.mk T₂ site sender depth).encodeLiteral kind value (symbol.map r.name)) := by
  have hvalue : (sender.elim (value.given r.fill) fun s => (value.given r.fill).withSender s) =
      value.given sender := Literal.given_given S.fill value
  refine .get_bind ?_
  simp only [hvalue]
  cases symbol with
  | none => exact .bind (alike_call hw (S.pure kind value none hw.state hv)) fun hw _ h => .pure hw h
  | some n =>
    have hmemo := hw.memo kind n
    simp only [Option.map_some, Option.bind_some]
    generalize w₁.memo.lookup (kind, n) = x at hmemo ⊢
    generalize w₂.memo.lookup (kind, r.name n) = y at hmemo ⊢
    match x, y, hmemo with
    | some a, some b, hab => exact .pure hw hab
    | none, none, _ =>
      exact .bind (alike_call hw (S.pure kind value (some n) hw.state hv)) fun hw _ h =>
        .bind (.modify (walk_remember hw h n) rfl rfl) fun hw hk _ => .pure hw (hk.arg h)

theorem alike_gathers :
    (r.alike leaf exempt).Gathers ⟨T₁, site, sender, depth⟩ ⟨T₂, site, sender, depth⟩ where
  refuses := .any T₁
  reports _ _ := trivial
  items _ _ _ := trivial
  noHandle _ _ := trivial
  site := rfl
  named_none _ := rfl
  resolve slot use v _ _ hv hw := by
    show Together _ _ _ _ (Context.resolve _ slot (v.given r.fill)) _
    rw [Context.resolve, Context.resolve, symbolOf_given, symbolOf_rename]
    refine (resolveFrom_together S slot depth (symbolOf v) v hw hv).mono fun h => ⟨h, ?_, ?_⟩
    · exact asks_of_lax (fun _ _ => trivial) (fun _ _ => trivial) use _
    · intro l _
      show symbolOf _ = (symbolOf (v.given r.fill)).map r.name
      rw [symbolOf_given, symbolOf_rename]
  literal kind l symbol _ _ _ hl _ hname hw :=
    hname ▸ encodeLiteral_together S kind l symbol hw hl
  vector kind _ _ _ _ hw h := alike_step hw (S.vector kind hw.state h)

end Gathering

/-! ## Operations -/

structure Promise.Holds (promise : Promise) (op : Operation) : Prop where
  operands : ∀ v ∈ op.operands, v.Leaves promise.leaf
  balanced : promise.balanced → op.Balanced
  packages : ∀ t ∈ op.packages, promise.package t

theorem alike_binds {T : Target σ₁ η₁} {op : Operation} :
    (r.alike leaf exempt).Binds (r.walk leaf) T op := by
  refine binds_of_insert (L := r.alike leaf exempt) fun name _ w₁ w₂ a b hw hab => ?_
  refine ⟨hw.state, fun other => ?_, hw.memo⟩
  simp only [Directory.get?_insert, r.name_injective.eq_iff]
  split
  · exact hab
  · exact hw.env other

variable {promise : Promise} (S : Simulates T₁ T₂ r sender promise exempt)

include S

theorem Simulates.supplies : Supplies T₁ T₂ r sender promise.leaf exempt where
  fill := S.fill
  object := S.object
  pure := S.pure
  vector kind hs h := S.makeMoveVec kind _ none hs h (.inr ⟨rfl, rfl⟩)

theorem Simulates.issues : (r.alike promise.leaf exempt).Issues ⟨T₁, site, sender, depth⟩
    ⟨T₂, site, sender, depth⟩ promise.Holds where
  toGathers := alike_gathers S.supplies
  splitCoins hop hw hcoin has := alike_step hw (S.splitCoins _ hw.state hcoin hop.balanced has)
  mergeCoins hw ha has := alike_step hw (S.mergeCoins hw.state ha has)
  transferObjects hw has ha := alike_step hw (S.transferObjects hw.state has ha)
  makeMoveVec elem out _ _ _ _ hw h :=
    alike_step hw (S.makeMoveVec _ elem (some out) hw.state h (.inl rfl))
  moveCall _ _ _ _ _ hop hw h :=
    alike_step hw (S.moveCall _ _ _ hw.state (hop.packages _ List.mem_cons_self) h)
  publish modules dependencies out _ _ hw :=
    alike_step hw (S.publish modules dependencies out hw.state)
  upgrade hop hw h :=
    alike_step hw (S.upgrade _ _ _ _ hw.state (hop.packages _ List.mem_cons_self) h)

/-! ## Programs -/

omit S in
theorem initialEnv_entry {vars : List Binding} (h : ∀ v ∈ vars, v.init.Leaves leaf) (name : String) :
    r.entry leaf s t
      (Directory.get? (initialEnv (vars.map fun v => { v with init := v.init.given r.fill })) name)
      (Directory.get? (initialEnv (vars.map (Binding.rename r.name))) (r.name name)) := by
  simp only [initialEnv, Directory.get?_ofEntries, ← List.map_reverse]
  have h' : ∀ v ∈ vars.reverse, v.init.Leaves leaf := fun v hv => h v (List.mem_reverse.mp hv)
  generalize vars.reverse = vs at h'
  induction vs with
  | nil => trivial
  | cons v rest ih =>
    have hkeys : (r.name name == r.name v.name) = (name == v.name) := by
      rw [Bool.eq_iff_iff]
      simp [r.name_injective.eq_iff]
    simp only [List.map_cons, List.lookup_cons, Binding.rename, hkeys]
    split
    · exact ⟨v.init, rfl, rfl, h' v (by simp)⟩
    · exact ih fun u hu => h' u (by simp [hu])

/-- From corresponding states, the walk of a program under other names on the second target follows
that of the program on the first, with the sender put in. -/
theorem run_follows (p : Program) (hs : r.state s t)
    (hvars : ∀ v ∈ p.vars, v.init.Leaves promise.leaf) (hops : ∀ op ∈ p.ops, promise.Holds op) :
    Follows (reports exempt) r.state
      ((run T₁ sender (p.given r.fill) s).mapError (LowerError.rename r.name))
      (run T₂ sender (p.rename r.name) t) := by
  have hw : r.walk promise.leaf ⟨s, initialEnv (p.given r.fill).vars, []⟩
      ⟨t, initialEnv (p.rename r.name).vars, []⟩ :=
    ⟨hs, p.vars_given r.fill ▸ initialEnv_entry hvars, fun _ _ => trivial⟩
  have hlength : (p.rename r.name).vars.length = (p.given r.fill).vars.length := by
    simp [Program.rename, Program.vars_given]
  rw [run, run, mapError_bind, hlength]
  let L := r.alike promise.leaf exempt
  let d := (p.given r.fill).vars.length
  have hissues (site : Site) : L.Issues ⟨T₁, site, sender, d⟩ ⟨T₂, site, sender, d⟩ promise.Holds :=
    S.issues
  have h := all_together hissues (fun _ _ => alike_binds)
    (fun op hop u hu => hop.operands _ (Use.mem_operands hu))
    (fun hw => ⟨hw.state, hw.env, fun _ _ => trivial⟩) 0 hops hw
  rw [show L.first = Operand.given r.fill from rfl, ← p.ops_given] at h
  refine Follows.bind h.1 ?_
  rintro ⟨_, v₁⟩ ⟨_, v₂⟩ ⟨hv, _, _⟩
  exact .ok hv.state

end TxGraph.Lowering
