import TxGraph.Proofs.Program.OfGraph

/-!
# Names in scope

A program is scoped when each operation refers to variables and to outputs of earlier operations
only. Compiling gives scoped programs: what is available at an output port refers to names that
were handed out before.
-/

namespace TxGraph

/-! ## References -/

namespace Operand

theorem allRefs_eq_flatMap (items : List Operand) : refs.allRefs items = items.flatMap refs := by
  induction items with
  | nil => rfl
  | cons item rest ih => simp [refs.allRefs, ih]

@[simp]
theorem refs_vector (items : List Operand) : (vector items).refs = items.flatMap refs :=
  allRefs_eq_flatMap items

/-- Values without a declared type refer to nothing. -/
theorem refs_infer : (j : Json) → (infer j).refs = []
  | .bool _ => rfl
  | .int _ => rfl
  | .float _ => rfl
  | .str s => by
    simp only [infer]
    split <;> rfl
  | .arr items => refs_inferAll items
  | .null => rfl
  | .obj _ => rfl
where
  refs_inferAll : (items : List Json) → refs.allRefs (infer.inferAll items) = []
    | [] => rfl
    | item :: rest => by simp [infer.inferAll, refs.allRefs, refs_infer item, refs_inferAll rest]

theorem boolOf_eq (j : Json) : boolOf j = .absent ∨ ∃ b, boolOf j = .constant (.bool b) := by
  cases j with
  | bool b => exact .inr ⟨b, rfl⟩
  | str s =>
    rw [boolOf]
    split
    · exact .inr ⟨true, rfl⟩
    · exact .inr ⟨false, rfl⟩
    · exact .inl rfl
  | _ => exact .inl rfl

theorem refs_boolOf (j : Json) : (boolOf j).refs = [] := by
  rcases boolOf_eq j with h | ⟨b, h⟩ <;> rw [h] <;> rfl

theorem objectOf_eq (j : Json) : objectOf j = .absent ∨ ∃ id, objectOf j = .object (.byId id) := by
  cases j with
  | str s =>
    rw [objectOf]
    split
    · exact .inl rfl
    · exact .inr ⟨_, rfl⟩
  | _ => exact .inl rfl

theorem refs_objectOf (j : Json) : (objectOf j).refs = [] := by
  rcases objectOf_eq j with h | ⟨id, h⟩ <;> rw [h] <;> rfl

theorem ofValue_bool (j : Json) : ofValue .bool j = boolOf j := by
  cases j <;> rfl

theorem ofValue_object {tag : Option String} (h : tag ≠ some DataType.idTag) (j : Json) :
    ofValue (.object tag) j = objectOf j := by
  cases j with
  | null => rfl
  | _ => simp only [ofValue, h, if_false]

theorem refs_ofValue : (type : DataType) → (j : Json) → (ofValue type j).refs = []
  | .scalar .bool, j => (congrArg refs (ofValue_bool j)).trans (refs_boolOf j)
  | .scalar .string, j => by cases j <;> rfl
  | .scalar .address, j => by cases j <;> rfl
  | .scalar .number, j => by cases j <;> rfl
  | .integer _, j => by cases j <;> rfl
  | .object tag, j => by
    by_cases htag : tag = some DataType.idTag
    · cases j <;> simp [ofValue, htag, refs]
    · rw [ofValue_object htag, refs_objectOf]
  | .vector elem, j => by cases j <;> simp [ofValue, refs_ofValue elem, refs]
  | .tuple _, j => by cases j <;> rfl
  | .typeParam _, j => by cases j <;> rfl
  | .unknown, j => by cases j <;> first | rfl | exact refs_infer _

end Operand

namespace Variable

variable {o : ObjectRef} {v : Variable}
variable {value : Operand}

theorem refs_initial (v : Variable) : v.initial.refs = [] := by
  unfold initial
  split
  · exact Operand.refs_ofValue _ _
  · rfl

/-- The objects that take the place of a variable. -/
def specialObjects : List ObjectRef :=
  [.gas, .system, .clock, .random]

theorem objectByTag?_special {tag : String} (h : objectByTag? tag = some o) :
    o ∈ specialObjects := by
  unfold objectByTag? at h
  repeat' split at h
  all_goals cases h
  all_goals decide

theorem objectByName?_special {name : String} (h : objectByName? name = some o) :
    o ∈ specialObjects := by
  unfold objectByName? at h
  split at h
  all_goals cases h
  all_goals decide

theorem objectById_special {id : String} (h : objectById id = .ok (some o)) :
    o ∈ specialObjects := by
  obtain ⟨key, -, h⟩ := bind_eq_ok.mp h
  have hmem := List.mem_of_find?_eq_some (Except.ok.inj h)
  exact List.mem_cons_of_mem _ hmem

theorem specialObject_special {tag : Option String} (h : v.specialObject tag = .ok (some o)) :
    o ∈ specialObjects := by
  have hnamed : (tag.bind objectByTag?).or (objectByName? v.name) = some o →
      o ∈ specialObjects := by
    intro hfound
    rcases Option.or_eq_some_iff.mp hfound with htag | ⟨-, hname⟩
    · obtain ⟨t, -, ht⟩ := Option.bind_eq_some_iff.mp htag
      exact objectByTag?_special ht
    · exact objectByName?_special hname
  unfold specialObject at h
  split at h
  · dsimp only at h
    split at h
    · cases h
      decide
    split at h
    · exact objectById_special h
    · exact hnamed (Except.ok.inj h)
  · exact hnamed (Except.ok.inj h)

/-- What takes the place of a variable is the sender or a special object. -/
theorem inlined_eq (h : v.inlined = .ok (some value)) :
    value = .constant .sender ∨ ∃ o ∈ specialObjects, value = .object o := by
  unfold inlined at h
  split at h
  case h_1 tag =>
    split at h
    · cases h
    obtain ⟨found, hfound, h⟩ := bind_eq_ok.mp h
    obtain ⟨o, rfl, rfl⟩ := Option.map_eq_some_iff.mp (Except.ok.inj h)
    exact .inr ⟨o, specialObject_special hfound, rfl⟩
  case h_2 =>
    have hsender := Except.ok.inj h
    split at hsender
    · cases hsender
      exact .inl rfl
    · cases hsender
  case h_3 => cases h

theorem refs_inlined (h : v.inlined = .ok (some value)) : value.refs = [] := by
  rcases inlined_eq h with rfl | ⟨o, -, rfl⟩ <;> rfl

end Variable

/-! ## Scoped operations -/

namespace Operation

/-- Each operation refers to bound names and to outputs of those before it. -/
def Scoped (bound : List String) (ops : List Operation) : Prop :=
  ∀ k op, ops[k]? = some op → ∀ value ∈ op.operands, ∀ name ∈ value.refs,
    name ∈ bound ∨ name ∈ (ops.take k).flatMap outputs

theorem scoped_cons {bound : List String} {op : Operation} {ops : List Operation} :
    Scoped bound (op :: ops) ↔ (∀ value ∈ op.operands, ∀ name ∈ value.refs, name ∈ bound) ∧
      Scoped (bound ++ op.outputs) ops := by
  refine ⟨fun h => ⟨fun value hv name hn => ?_, fun k o hk value hv name hn => ?_⟩,
    fun ⟨hop, hops⟩ k o hk value hv name hn => ?_⟩
  · simpa using h 0 op rfl value hv name hn
  · have := h (k + 1) o hk value hv name hn
    simpa [or_assoc] using this
  · cases k with
    | zero =>
      cases hk
      exact .inl (hop value hv name hn)
    | succ k =>
      have := hops k o hk value hv name hn
      simpa [or_assoc] using this

end Operation

/-! ## Compiled programs -/

namespace Compile

variable {vs : List Variable} {bs : List Binding} {ps : List ((String × String) × Operand)}
  {bound : List String} {s : Scope}

theorem Binds.refs_init (h : Binds vs bs ps) : ∀ b ∈ bs, b.init.refs = [] := by
  induction h with
  | nil => simp
  | inlined _ _ ih => exact ih
  | @named v _ _ _ _ _ _ ih => simpa [v.refs_initial] using ih

theorem Binds.refs_subset (h : Binds vs bs ps) : ∀ p ∈ ps, p.2.refs ⊆ bs.map Binding.name := by
  induction h with
  | nil => simp
  | inlined hv _ ih => simpa [Variable.refs_inlined hv] using ih
  | named _ _ ih =>
    intro p hp
    rcases List.mem_cons.mp hp with rfl | hp
    · simp [Operand.refs]
    · exact List.subset_cons_of_subset _ (ih p hp)

theorem refs_input_subset (hs : ∀ p ∈ s.produced, p.2.refs ⊆ bound) (g : Graph)
    (node port : String) : (s.input g node port).refs ⊆ bound := by
  unfold Scope.input
  split
  · simp [Operand.refs]
  case h_2 e _ =>
    cases hfound : s.produced.lookup (e.source, e.sourceHandle) with
    | none => simp [Operand.refs]
    | some value =>
      obtain ⟨before, after, hsplit, -⟩ := List.lookup_eq_some_iff.mp hfound
      exact hs (_, value) (hsplit ▸ List.mem_append_right before List.mem_cons_self)

theorem refs_offers_subset (node : String) (ports names : List String) :
    ∀ p ∈ offers node ports names, p.2.refs ⊆ names := by
  intro p hp
  obtain ⟨x, hx, rfl⟩ := List.mem_map.mp hp
  simpa [Operand.refs] using (List.of_mem_zip hx).2

theorem Runs.scoped {g : Graph} {s' : Scope} {cs : List (String × Command)} {ops : List Operation}
    (h : Runs g s cs ops s') (hs : ∀ p ∈ s.produced, p.2.refs ⊆ bound) :
    Operation.Scoped bound ops := by
  induction h generalizing bound with
  | nil s => simp [Operation.Scoped]
  | @cons s s₁ s₂ id c op cs ops h rest ih =>
    have hop := Emits.of_eq h
    refine Operation.scoped_cons.mpr ⟨fun value hv => ?_, ih fun p hp => ?_⟩
    · rw [hop.operands] at hv
      obtain ⟨port, -, rfl⟩ := List.mem_map.mp hv
      exact refs_input_subset hs g id port
    · rw [hop.produced, List.mem_append, List.mem_reverse] at hp
      rcases hp with hp | hp
      · exact List.subset_append_of_subset_right _ (refs_offers_subset _ _ _ p hp)
      · exact List.subset_append_of_subset_left _ (hs p hp)

end Compile

namespace Program

variable {reserved : List String} {p : Program}

/-- The names of the program are identifiers of their own and are bound before they are used. -/
structure WellScoped (p : Program) (reserved : List String) : Prop where
  distinct : p.symbols.Nodup
  free : ∀ name ∈ p.symbols, name ∉ NamePool.reserved ∧ name ∉ reserved
  isIdentifier : ∀ name ∈ p.symbols, NamePool.isIdentifier name = true
  closed : ∀ v ∈ p.vars, v.init.refs = []
  inScope : Operation.Scoped (p.vars.map Binding.name) p.ops

theorem wellScoped_of_compile {g : Graph} (h : g.compile reserved = .ok p) :
    p.WellScoped reserved := by
  obtain ⟨ps, s, s', hbinds, hproduced, hvars, hruns⟩ := Graph.compile_runs h
  have hhands : (NamePool.seeded reserved).Hands p.symbols s'.names := hvars.append hruns.hands
  refine ⟨hhands.nodup, fun name hname => ?_, hhands.isIdentifier, hbinds.refs_init,
    hruns.scoped fun entry hentry => ?_⟩
  · have := hhands.free name hname
    rw [NamePool.isTaken_seeded] at this
    simpa using this
  · rw [hproduced, List.mem_reverse] at hentry
    exact hbinds.refs_subset entry hentry

theorem WellScoped.danglingRefs_eq_nil (h : p.WellScoped reserved) : p.danglingRefs = [] := by
  have hbound : ∀ name ∈ p.operands.flatMap Operand.refs, name ∈ p.symbols := by
    intro name hname
    obtain ⟨value, hvalue, hname⟩ := List.mem_flatMap.mp hname
    obtain ⟨op, hop, hvalue⟩ := List.mem_flatMap.mp hvalue
    obtain ⟨k, hk⟩ := List.mem_iff_getElem?.mp hop
    refine List.mem_append.mpr ((h.inScope k op hk value hvalue name hname).imp_right fun hout => ?_)
    obtain ⟨earlier, hearlier, hout⟩ := List.mem_flatMap.mp hout
    exact List.mem_flatMap.mpr ⟨earlier, List.mem_of_mem_take hearlier, hout⟩
  have hnone : (p.operands.flatMap Operand.refs).filter (fun name => !p.symbols.contains name) = [] :=
    List.filter_eq_nil_iff.mpr (by simpa using hbound)
  rw [danglingRefs, hnone]
  rfl

end Program

end TxGraph
