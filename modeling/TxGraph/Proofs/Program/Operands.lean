import TxGraph.Program.Basic

/-!
# Operands and their replacement
-/

namespace TxGraph

/-- Operands by induction: a vector after its items. -/
@[elab_as_elim]
theorem Operand.induction_on {motive : Operand → Prop} (value : Operand) (absent : motive .absent)
    (ref : ∀ name, motive (.ref name)) (constant : ∀ k, motive (.constant k))
    (integer : ∀ width digits, motive (.integer width digits))
    (object : ∀ o, motive (.object o))
    (vector : ∀ items, (∀ item ∈ items, motive item) → motive (.vector items)) : motive value :=
  match value with
  | .absent => absent
  | .ref name => ref name
  | .constant k => constant k
  | .integer width digits => integer width digits
  | .object o => object o
  | .vector items => vector items fun item _ =>
    item.induction_on absent ref constant integer object vector

def Group.map (f : Operand → Operand) : Group → Group
  | each values => each (values.map f)
  | packed value => packed (f value)

theorem Group.operands_map (f : Operand → Operand) (g : Group) :
    (g.map f).operands = g.operands.map f := by
  cases g <;> rfl

namespace Operation

def mapOperands (f : Operand → Operand) : Operation → Operation
  | splitCoins coin amounts out => splitCoins (f coin) (amounts.map f) out
  | mergeCoins destination sources => mergeCoins (f destination) (sources.map f)
  | transferObjects objects recipient => transferObjects (objects.map f) (f recipient)
  | makeMoveVec elem elems out => makeMoveVec elem (elems.map f) out
  | moveCall package module function typeArgs args out =>
    moveCall package module function (typeArgs.map f) (args.map fun a => ⟨f a.value, a.kind⟩) out
  | publish modules dependencies out => publish modules dependencies out
  | upgrade modules dependencies package ticket out =>
    upgrade modules dependencies package (f ticket) out

variable (f : Operand → Operand) (op : Operation)

theorem mapOperands_id : op.mapOperands id = op := by
  have hgroup (g : Group) : g.map id = g := by cases g <;> simp [Group.map]
  cases op <;> simp [mapOperands, hgroup]

theorem map_mapOperands_id (ops : List Operation) : ops.map (mapOperands id) = ops :=
  (List.map_congr_left fun op _ => op.mapOperands_id).trans (List.map_id' ops)

theorem kind_mapOperands : (op.mapOperands f).kind = op.kind := by
  cases op <;> rfl

theorem outputs_mapOperands : (op.mapOperands f).outputs = op.outputs := by
  cases op <;> rfl

theorem operands_mapOperands : (op.mapOperands f).operands = op.operands.map f := by
  cases op <;> simp [mapOperands, operands, Group.operands_map]

end Operation

end TxGraph
