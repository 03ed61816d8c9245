import TxGraph.Lowering.Target

/-!
# Renaming programs

A program with its names replaced: those that it binds and those that it refers to. Texts that are
not names of the program stay, among them the packages, modules and functions that it calls.
-/

namespace TxGraph

namespace Operand

def rename (f : String → String) : Operand → Operand
  | ref name => ref (f name)
  | vector items => vector (renameAll items)
  | value => value
where
  renameAll : List Operand → List Operand
    | [] => []
    | item :: rest => item.rename f :: renameAll rest

variable {f : String → String}

theorem rename_of_refs : (value : Operand) → value.refs = [] → value.rename f = value
  | absent, _ => rfl
  | ref _, h => nomatch h
  | constant _, _ => rfl
  | integer _ _, _ => rfl
  | object _, _ => rfl
  | vector items, h => congrArg vector (go items h)
where
  go : (items : List Operand) → refs.allRefs items = [] → rename.renameAll f items = items
    | [], _ => rfl
    | item :: rest, h => by
      have ⟨hitem, hrest⟩ := List.append_eq_nil_iff.mp h
      rw [rename.renameAll, rename_of_refs item hitem, go rest hrest]

@[simp]
theorem rename_id : (value : Operand) → value.rename id = value
  | absent => rfl
  | ref _ => rfl
  | constant _ => rfl
  | integer _ _ => rfl
  | object _ => rfl
  | vector items => congrArg vector (go items)
where
  go : (items : List Operand) → rename.renameAll id items = items
    | [] => rfl
    | item :: rest => by rw [rename.renameAll, rename_id item, go rest]

@[simp]
theorem usesSender_rename : (value : Operand) → (value.rename f).usesSender = value.usesSender
  | absent => rfl
  | ref _ => rfl
  | constant _ => rfl
  | integer _ _ => rfl
  | object _ => rfl
  | vector items => go items
where
  go : (items : List Operand) →
      usesSender.anyUsesSender (rename.renameAll f items) = usesSender.anyUsesSender items
    | [] => rfl
    | item :: rest => by
      simp only [rename.renameAll, usesSender.anyUsesSender, usesSender_rename item, go rest]

end Operand

def Group.rename (f : String → String) : Group → Group
  | each values => each (values.map (Operand.rename f))
  | packed value => packed (value.rename f)

def Argument.rename (f : String → String) (a : Argument) : Argument :=
  { a with value := a.value.rename f }

def Operation.rename (f : String → String) : Operation → Operation
  | splitCoins coin amounts out =>
    splitCoins (coin.rename f) (amounts.map (Operand.rename f)) (out.map f)
  | mergeCoins destination sources => mergeCoins (destination.rename f) (sources.rename f)
  | transferObjects objects recipient => transferObjects (objects.rename f) (recipient.rename f)
  | makeMoveVec elem elems out => makeMoveVec elem (elems.rename f) (f out)
  | moveCall package module function typeArgs args out =>
    moveCall package module function (typeArgs.map (Operand.rename f))
      (args.map (Argument.rename f)) (out.map f)
  | publish modules dependencies out => publish modules dependencies (f out)
  | upgrade modules dependencies package ticket out =>
    upgrade modules dependencies package (ticket.rename f) (f out)

def Binding.rename (f : String → String) (v : Binding) : Binding :=
  ⟨f v.name, v.init.rename f⟩

def Program.rename (f : String → String) (p : Program) : Program :=
  ⟨p.vars.map (Binding.rename f), p.ops.map (Operation.rename f)⟩

def LowerError.rename (f : String → String) : LowerError → LowerError
  | unresolvedSymbol site symbol => unresolvedSymbol site (f symbol)
  | circular site symbol => circular site (f symbol)
  | e => e

variable {f : String → String}

@[simp]
theorem Group.operands_rename (group : Group) :
    (group.rename f).operands = group.operands.map (Operand.rename f) := by
  cases group <;> rfl

@[simp]
theorem Group.rename_id (group : Group) : group.rename id = group := by
  cases group <;> simp [rename, funext Operand.rename_id]

@[simp]
theorem Argument.rename_id (a : Argument) : a.rename id = a := by
  simp [rename]

namespace Operation

@[simp]
theorem operands_rename (op : Operation) :
    (op.rename f).operands = op.operands.map (Operand.rename f) := by
  cases op <;> simp [rename, operands, Argument.rename, Function.comp_def]

@[simp]
theorem kind_rename (op : Operation) : (op.rename f).kind = op.kind := by
  cases op <;> rfl

@[simp]
theorem rename_id (op : Operation) : op.rename id = op := by
  cases op <;> simp [rename, funext Operand.rename_id, funext Argument.rename_id]

theorem map_rename_id (ops : List Operation) : ops.map (rename id) = ops := by
  rw [funext rename_id, List.map_id']

end Operation

@[simp]
theorem Binding.rename_id (v : Binding) : v.rename id = v := by
  simp [rename]

namespace Program

@[simp]
theorem rename_id (p : Program) : p.rename id = p := by
  simp [rename, funext Binding.rename_id, funext Operation.rename_id]

@[simp]
theorem usesSender_rename (p : Program) : (p.rename f).usesSender = p.usesSender := by
  simp [usesSender, operands, rename, Binding.rename, List.any_flatMap, Function.comp_def]

end Program

namespace LowerError

theorem rename_id (e : LowerError) : e.rename id = e := by
  cases e <;> rfl

theorem mapError_rename_id {α : Type} (x : Except LowerError α) : x.mapError (rename id) = x := by
  cases x with
  | ok _ => rfl
  | error e => exact congrArg Except.error e.rename_id

end LowerError

end TxGraph
