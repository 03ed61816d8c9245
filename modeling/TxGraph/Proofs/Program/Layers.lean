import TxGraph.Proofs.Program.Scope

/-!
# Values in layers

The value of a variable has its objects all at one depth, or has none: its type decides which. So a
vector never mixes objects with literals.
-/

namespace TxGraph

namespace Operand

def Plain : Operand → Prop
  | ref _ => False
  | object _ => False
  | vector items => all items
  | _ => True
where
  all : List Operand → Prop
    | [] => True
    | item :: rest => item.Plain ∧ all rest

/-- Objects occur below the given number of vectors, and nothing else does. -/
def Layered : (depth : Nat) → Operand → Prop
  | _, absent => True
  | 0, object _ => True
  | depth + 1, vector items => ∀ item ∈ items, Layered depth item
  | _, _ => False

/-- The operand is a reference or has its objects at one depth. -/
inductive Even : Operand → Prop
  | ref (name : String) : Even (.ref name)
  | plain {value : Operand} (h : value.Plain) : Even value
  | layered {value : Operand} {depth : Nat} (h : value.Layered depth) : Even value

theorem plain_all {items : List Operand} (h : ∀ item ∈ items, item.Plain) : Plain.all items := by
  induction items with
  | nil => trivial
  | cons item rest ih =>
    obtain ⟨hitem, hrest⟩ := List.forall_mem_cons.mp h
    exact ⟨hitem, ih hrest⟩

theorem plain_infer : (j : Json) → (infer j).Plain
  | .bool _ => trivial
  | .int _ => trivial
  | .float _ => trivial
  | .str s => by
    simp only [infer]
    split <;> trivial
  | .arr items => go items
  | .null => trivial
  | .obj _ => trivial
where
  go : (items : List Json) → Plain.all (infer.inferAll items)
    | [] => trivial
    | item :: rest => ⟨plain_infer item, go rest⟩

theorem plain_boolOf (j : Json) : (boolOf j).Plain := by
  rcases boolOf_eq j with h | ⟨b, h⟩ <;> rw [h] <;> trivial

theorem layered_objectOf (j : Json) : (objectOf j).Layered 0 := by
  rcases objectOf_eq j with h | ⟨id, h⟩ <;> rw [h] <;> trivial

/-- The type decides at which depth the objects of a value are. -/
theorem ofValue_layers : (type : DataType) →
    (∀ j, (ofValue type j).Plain) ∨ ∃ depth, ∀ j, (ofValue type j).Layered depth
  | .scalar .bool => .inl fun j => ofValue_bool j ▸ plain_boolOf j
  | .scalar .string => .inl fun j => by cases j <;> trivial
  | .scalar .address => .inl fun j => by cases j <;> trivial
  | .scalar .number => .inl fun j => by cases j <;> trivial
  | .integer _ => .inl fun j => by cases j <;> trivial
  | .object tag => by
    by_cases htag : tag = some DataType.idTag
    · refine .inl fun j => ?_
      cases j <;> simp [ofValue, htag, Plain]
    · exact .inr ⟨0, fun j => ofValue_object htag j ▸ layered_objectOf j⟩
  | .vector elem => by
    rcases ofValue_layers elem with h | ⟨depth, h⟩
    · refine .inl fun j => ?_
      cases j with
      | arr items => exact plain_all (by simpa using fun j _ => h j)
      | _ => trivial
    · refine .inr ⟨depth + 1, fun j => ?_⟩
      cases j with
      | arr items => simpa [ofValue, Layered] using fun j _ => h j
      | _ => trivial
  | .tuple _ => .inl fun j => by cases j <;> trivial
  | .typeParam _ => .inl fun j => by cases j <;> trivial
  | .unknown => .inl fun j => by cases j <;> first | trivial | exact plain_infer _

end Operand

theorem Variable.even_initial (v : Variable) : v.initial.Even := by
  unfold initial
  split
  case h_1 j _ =>
    rcases Operand.ofValue_layers v.type with h | ⟨depth, h⟩
    · exact .plain (h j)
    · exact .layered (h j)
  case h_2 => exact .plain trivial

theorem Variable.even_inlined {v : Variable} {value : Operand} (h : v.inlined = .ok (some value)) :
    value.Even := by
  rcases inlined_eq h with rfl | ⟨o, -, rfl⟩
  · exact .plain trivial
  · have hobject : (Operand.object o).Layered 0 := trivial
    exact .layered hobject

/-! ## Compiled programs -/

namespace Compile

variable {g : Graph} {s s' : Scope} {cs : List (String × Command)} {ops : List Operation}
variable {P : Operand → Prop} {vs : List Variable} {bs : List Binding}
  {ps : List ((String × String) × Operand)}

/-- Whatever holds of what is available, of references and of nothing at all holds of every
operand. -/
theorem Runs.forall_operands (h : Runs g s cs ops s') (habsent : P .absent)
    (href : ∀ name, P (.ref name)) (hs : ∀ e ∈ s.produced, P e.2) :
    ∀ op ∈ ops, ∀ value ∈ op.operands, P value := by
  induction h with
  | nil s => nofun
  | @cons s s₁ s₂ id c op cs ops h rest ih =>
    have hop := Emits.of_eq h
    refine List.forall_mem_cons.mpr ⟨fun value hv => ?_, ih fun e he => ?_⟩
    · rw [hop.operands] at hv
      obtain ⟨port, -, rfl⟩ := List.mem_map.mp hv
      unfold Scope.input
      split
      · exact habsent
      case h_2 e _ =>
        cases hfound : s.produced.lookup (e.source, e.sourceHandle) with
        | none => exact habsent
        | some value =>
          obtain ⟨before, after, hsplit, -⟩ := List.lookup_eq_some_iff.mp hfound
          exact hs (_, value) (hsplit ▸ List.mem_append_right before List.mem_cons_self)
    · rw [hop.produced, List.mem_append, List.mem_reverse] at he
      rcases he with he | he
      · obtain ⟨x, -, rfl⟩ := List.mem_map.mp he
        exact href _
      · exact hs e he

/-- Whatever holds of the operations of each command holds of all operations. -/
theorem Runs.forall_ops (h : Runs g s cs ops s') {P : Operation → Prop}
    (hc : ∀ id c t, (id, c) ∈ cs → P (operation g id c t).1) : ∀ op ∈ ops, P op := by
  induction h with
  | nil s => nofun
  | @cons s s₁ s₂ id c op cs ops h rest ih =>
    refine List.forall_mem_cons.mpr ⟨?_, ih fun id c t hmem => hc id c t (List.mem_cons_of_mem _ hmem)⟩
    have hfirst := hc id c s List.mem_cons_self
    rwa [h] at hfirst

theorem Binds.even_init (h : Binds vs bs ps) : ∀ b ∈ bs, b.init.Even := by
  induction h with
  | nil => simp
  | inlined _ _ ih => exact ih
  | @named v _ _ _ _ _ _ ih => exact List.forall_mem_cons.mpr ⟨v.even_initial, ih⟩

/-- Whatever holds of references and of values that take the place of variables is available. -/
theorem Binds.forall_values (h : Binds vs bs ps) (href : ∀ name, P (.ref name))
    (hinlined : ∀ v value, Variable.inlined v = .ok (some value) → P value) : ∀ e ∈ ps, P e.2 := by
  induction h with
  | nil => simp
  | inlined hv _ ih => exact List.forall_mem_cons.mpr ⟨hinlined _ _ hv, ih⟩
  | named _ _ ih => exact List.forall_mem_cons.mpr ⟨href _, ih⟩

end Compile

end TxGraph
