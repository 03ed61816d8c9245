import TxGraph.Graph.Flow
import TxGraph.Program.Names
import TxGraph.Program.OfVariable

/-!
# From graph to program

The active commands of a graph become operations in execution order; the variables that feed them
become the variables of the program, in the order of their declaration. What is not connected is
undefined rather than an error.
-/

namespace TxGraph

inductive CompileError
  | noStart
  | noFinish
  /-- The id of an object cannot be normalized. -/
  | uncut (cause : Address.Uncut)
  deriving DecidableEq, Repr

def CompileError.message : CompileError → String
  | noStart => "The graph has no Start node"
  | noFinish => "The graph has no End node"
  | uncut cause => cause.message

namespace Compile

/-- The names handed out, and the values available at output ports, the latest first. -/
structure Scope where
  names : NamePool
  produced : List ((String × String) × Operand)

namespace Scope

def produce (s : Scope) (node port : String) (value : Operand) : Scope :=
  { s with produced := ((node, port), value) :: s.produced }

/-- The value at the other end of the edge into a port. -/
def input (s : Scope) (g : Graph) (node port : String) : Operand :=
  match g.incoming? node port with
  | none => .absent
  | some e => (s.produced.lookup (e.source, e.sourceHandle)).getD .absent

/-- The values of a numbered group of ports. -/
def inputs (s : Scope) (g : Graph) (node group : String) (count : Nat) : List Operand :=
  (List.range count).map fun i => s.input g node (Command.indexed group i)

/-- The values of inputs of variable number. -/
def group (s : Scope) (g : Graph) (node : String) (expanded : Bool) (group vector : String)
    (count : Nat) : Group :=
  if expanded then .each (s.inputs g node group count) else .packed (s.input g node vector)

/-- Names the value of an output port. -/
def output (s : Scope) (node port hint : String) : String × Scope :=
  let (name, names) := s.names.alloc hint
  (name, { s with names }.produce node port (.ref name))

/-- Names the values of a numbered group of output ports, from the `i`th on. -/
def outputs (s : Scope) (node group hint : String) (i : Nat) : (count : Nat) → List String × Scope
  | 0 => ([], s)
  | count + 1 =>
    let (name, s) := s.output node (Command.indexed group i) hint
    let (names, s) := s.outputs node group hint (i + 1) count
    (name :: names, s)

end Scope

/-! ## Variables -/

/-- The ids that feed a command of the order. -/
def usedSources (g : Graph) (order : List String) : List String :=
  (g.edges.filter fun e => e.isIo && order.contains e.target).map Edge.source

/-- The variables that feed a command of the order. -/
def usedVariables (g : Graph) (order : List String) : List Variable :=
  let used := usedSources g order
  g.nodes.filterMap fun n =>
    match n with
    | .var v => if used.contains v.id then some v else none
    | _ => none

/-- A name for a variable; that of a vector is a plural. -/
def nameOf (v : Variable) (names : NamePool) : String × NamePool :=
  if v.type.isVector then names.allocPlural v.name else names.alloc v.name

def bindVariable (v : Variable) (s : Scope) : Except Address.Uncut (List Binding × Scope) := do
  match ← v.inlined with
  | some value => return ([], s.produce v.id Port.variableOut value)
  | none =>
    let (name, names) := nameOf v s.names
    return ([⟨name, v.initial⟩], { s with names }.produce v.id Port.variableOut (.ref name))

def bindVariables : List Variable → Scope → Except Address.Uncut (List Binding × Scope)
  | [], s => .ok ([], s)
  | v :: rest, s => do
    let (vars, s) ← bindVariable v s
    let (more, s) ← bindVariables rest s
    return (vars ++ more, s)

/-! ## Commands -/

/-- The arguments of a call, each with the kind of its parameter. -/
def arguments (s : Scope) (g : Graph) (node : String) (params : List DataType) : List Argument :=
  params.zipIdx.map fun (type, i) =>
    ⟨s.input g node (Command.indexed Command.argIn i), ParamKind.ofType type⟩

/-- The operation of a command. Its operands are looked up before its outputs are named. -/
def operation (g : Graph) (id : String) (c : Command) (s : Scope) : Operation × Scope :=
  match c with
  | .splitCoins amounts =>
    let count := max amounts 1
    let (out, after) := s.outputs id Command.coinOut "coin" 0 count
    (.splitCoins (s.input g id Command.coinIn) (s.inputs g id Command.amountIn count) out, after)
  | .mergeCoins sources _ =>
    (.mergeCoins (s.input g id Command.destinationIn)
      (s.group g id c.isExpanded Command.sourceIn Command.sourcesIn (max sources 1)), s)
  | .transferObjects objects _ =>
    (.transferObjects
      (s.group g id c.isExpanded Command.objectIn Command.objectsIn (max objects 1))
      (s.input g id Command.recipientIn), s)
  | .makeMoveVec elem elems _ =>
    let (out, names) := s.names.allocPlural "item"
    (.makeMoveVec elem.moveSpelling?
      (s.group g id c.isExpanded Command.elemIn Command.elemsIn elems) out,
      { s with names }.produce id Command.vectorOut (.ref out))
  | .moveCall call =>
    let (out, after) :=
      s.outputs id Command.returnOut (call.function ++ "_result") 0 call.returns.length
    (.moveCall call.package call.module call.function
      (s.inputs g id Command.typeArgIn call.typeParams.length)
      (arguments s g id call.params) out, after)
  | .publish modules dependencies =>
    let (out, after) := s.output id Command.upgradeCapOut "upgradeCap"
    (.publish modules dependencies out, after)
  | .upgrade modules dependencies package =>
    let (out, after) := s.output id Command.receiptOut "receipt"
    (.upgrade modules dependencies package (s.input g id Command.ticketIn) out, after)

/-- The operations of the commands in the order. -/
def operations (g : Graph) : List String → Scope → List Operation
  | [], _ => []
  | id :: rest, s =>
    match (g.node? id).bind Node.command? with
    | none => operations g rest s
    | some c =>
      let (op, s) := operation g id c s
      op :: operations g rest s

/-- The program of an execution order. -/
def program (g : Graph) (order reserved : List String) : Except Address.Uncut Program := do
  let (vars, s) ← bindVariables (usedVariables g order) ⟨.seeded reserved, []⟩
  return ⟨vars, operations g order s⟩

end Compile

/-- The program of a graph. None of the reserved names is given to a value. -/
def Graph.compile (g : Graph) (reserved : List String) : Except CompileError Program :=
  if g.start?.isNone then .error .noStart
  else if g.finish?.isNone then .error .noFinish
  else
    match Compile.program g g.flow.order reserved with
    | .ok p => .ok p
    | .error cause => .error (.uncut cause)

end TxGraph
