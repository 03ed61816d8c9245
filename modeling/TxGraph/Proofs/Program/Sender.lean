import TxGraph.Proofs.Program.Operands

/-!
# The sender in programs

A program may leave open who sends its transaction. The placeholder for that address stands in
operands and in the values of variables, at any depth; replacing it by an address leaves none.
-/

namespace TxGraph

namespace Operand

/-- The first operand is the second or stands in it, at any depth. -/
inductive Occurs (part : Operand) : Operand → Prop
  | whole : Occurs part part
  | item {items : List Operand} {item : Operand} (hitem : item ∈ items) (h : Occurs part item) :
    Occurs part (.vector items)

def withSender (address : String) : Operand → Operand
  | constant .sender => constant (.address address)
  | vector items => vector (withSenderAll address items)
  | value => value
where
  withSenderAll (address : String) : List Operand → List Operand
    | [] => []
    | item :: rest => item.withSender address :: withSenderAll address rest

theorem withSenderAll_eq_map (address : String) (items : List Operand) :
    withSender.withSenderAll address items = items.map (withSender address) := by
  induction items with
  | nil => rfl
  | cons item rest ih => rw [withSender.withSenderAll, ih, List.map_cons]

/-- The operand with the sender put in, if there is one. -/
def given (sender : Option String) (value : Operand) : Operand :=
  sender.elim value fun s => value.withSender s

variable (sender : Option String)

@[simp]
theorem given_absent : absent.given sender = absent := by cases sender <;> rfl

@[simp]
theorem given_ref (name : String) : (ref name).given sender = ref name := by cases sender <;> rfl

@[simp]
theorem given_integer (width : Width) (digits : String) :
    (integer width digits).given sender = integer width digits := by
  cases sender <;> rfl

@[simp]
theorem given_object (o : ObjectRef) : (object o).given sender = object o := by
  cases sender <;> rfl

@[simp]
theorem given_vector (items : List Operand) :
    (vector items).given sender = vector (items.map (given sender)) := by
  cases sender with
  | none => exact congrArg vector (List.map_id' items).symm
  | some s => exact congrArg vector (withSenderAll_eq_map s items)

theorem usesSender_iff : (value : Operand) →
    (value.usesSender = true ↔ Occurs (.constant .sender) value)
  | absent => by constructor <;> intro h <;> cases h
  | ref _ => by constructor <;> intro h <;> cases h
  | integer _ _ => by constructor <;> intro h <;> cases h
  | object _ => by constructor <;> intro h <;> cases h
  | constant k => by
    constructor
    · intro h
      cases k <;> first | exact .whole | cases h
    · rintro ⟨⟩
      rfl
  | vector items => by
    rw [usesSender, go items]
    constructor
    · rintro ⟨item, hitem, h⟩
      exact .item hitem h
    · rintro (_ | ⟨hitem, h⟩)
      exact ⟨_, hitem, h⟩
where
  go : (items : List Operand) → (usesSender.anyUsesSender items = true ↔
      ∃ item ∈ items, Occurs (.constant .sender) item)
    | [] => by simp [usesSender.anyUsesSender]
    | item :: rest => by
      simp [usesSender.anyUsesSender, usesSender_iff item, go rest]

@[simp]
theorem usesSender_withSender (address : String) : (value : Operand) →
    (value.withSender address).usesSender = false
  | absent => rfl
  | ref _ => rfl
  | integer _ _ => rfl
  | object _ => rfl
  | constant k => by cases k <;> rfl
  | vector items => go items
where
  go : (items : List Operand) →
      usesSender.anyUsesSender (withSender.withSenderAll address items) = false
    | [] => rfl
    | item :: rest => by
      rw [withSender.withSenderAll, usesSender.anyUsesSender, usesSender_withSender, go rest]
      rfl

end Operand

namespace Program

def withSender (address : String) (p : Program) : Program where
  vars := p.vars.map fun v => { v with init := v.init.withSender address }
  ops := p.ops.map (Operation.mapOperands (Operand.withSender address))

def given (sender : Option String) (p : Program) : Program :=
  sender.elim p fun s => p.withSender s

theorem vars_given (sender : Option String) (p : Program) :
    (p.given sender).vars = p.vars.map fun v => { v with init := v.init.given sender } := by
  cases sender with
  | none => exact (List.map_id' p.vars).symm
  | some s => rfl

theorem ops_given (sender : Option String) (p : Program) :
    (p.given sender).ops = p.ops.map (Operation.mapOperands (Operand.given sender)) := by
  cases sender with
  | none => exact (Operation.map_mapOperands_id p.ops).symm
  | some s => rfl

def MentionsSender (p : Program) : Prop :=
  (∃ v ∈ p.vars, (Operand.constant .sender).Occurs v.init) ∨
    ∃ op ∈ p.ops, ∃ value ∈ op.operands, (Operand.constant .sender).Occurs value

theorem usesSender_iff (p : Program) : p.usesSender = true ↔ p.MentionsSender := by
  simp only [usesSender, MentionsSender, Bool.or_eq_true, List.any_eq_true, operands,
    List.mem_flatMap, Operand.usesSender_iff]
  refine or_congr_right ⟨?_, ?_⟩
  · rintro ⟨value, ⟨op, hop, hvalue⟩, h⟩
    exact ⟨op, hop, value, hvalue, h⟩
  · rintro ⟨op, hop, value, hvalue, h⟩
    exact ⟨value, ⟨op, hop, hvalue⟩, h⟩

theorem not_mentionsSender_withSender (address : String) (p : Program) :
    ¬ (p.withSender address).MentionsSender := by
  rw [← usesSender_iff]
  simp [usesSender, withSender, operands, Operation.operands_mapOperands]

theorem outputs_withSender (address : String) (p : Program) :
    (p.withSender address).ops.flatMap Operation.outputs = p.ops.flatMap Operation.outputs := by
  simp [withSender, List.flatMap_map, Operation.outputs_mapOperands]

end Program

end TxGraph
