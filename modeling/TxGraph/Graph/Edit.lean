import TxGraph.DataType.Flow
import TxGraph.Graph.Basic
import TxGraph.Snapshot

/-!
# Editing graphs

An edit changes a graph in place and may fail. A connection is checked against the ports it joins.
When a node changes, the edges that no longer fit its ports are dropped.
-/

namespace TxGraph

inductive ConnectError
  | noNode (id : String)
  | noPort (node port : String)
  | roles (source target : Role)
  | directions
  | types (source target : DataType)
  | selfLoop
  deriving DecidableEq, Repr

def ConnectError.message : ConnectError → String
  | noNode id => "Node '" ++ id ++ "' does not exist"
  | noPort node port => "Node '" ++ node ++ "' has no port '" ++ port ++ "'"
  | roles source target =>
    "Cannot connect a " ++ source.name ++ " port to a " ++ target.name ++ " port"
  | directions => "Edges must run from an output port to an input port"
  | types source target => "Type " ++ source.display ++ " cannot flow into " ++ target.display
  | selfLoop => "A node cannot be connected to itself"

/-- The id of the object that a variable stands for. -/
def Variable.objectId? (v : Variable) : Option String :=
  if v.type.isObject then v.value.bind Json.string? else none

namespace Port

/-- Whether an edge of a role may run between two ports. -/
def checkRoles (role : Role) (source target : Port) : Except ConnectError Unit :=
  if source.role ≠ role ∨ target.role ≠ role then .error (.roles source.role target.role)
  else if source.direction ≠ .output ∨ target.direction ≠ .input then .error .directions
  else .ok ()

/-- Whether a value may flow between two ports, and the width to which it is narrowed. -/
def checkIo (source target : Port) : Except ConnectError (Option Width) := do
  checkRoles .io source target
  let (given, wanted) := (source.typeOrUnknown, target.typeOrUnknown)
  if given.flowsInto wanted then return given.castInto? wanted else .error (.types given wanted)

end Port

namespace Graph

variable (g : Graph)

def addNode (n : Node) : Graph :=
  { g with nodes := g.nodes ++ [n] }

def addEdge (e : Edge) : Graph :=
  { g with edges := g.edges ++ [e] }

/-- The graph without the first node of an id and without every edge that touches it. -/
def removeNode (id : String) : Graph × Option Node :=
  match g.node? id with
  | none => (g, none)
  | some n =>
    ({ nodes := g.nodes.eraseP fun n => n.id == id
       edges := g.edges.filter fun e => !e.touches id }, some n)

def removeEdge (id : String) : Graph × Option Edge :=
  match g.edges.find? fun e => e.id == id with
  | none => (g, none)
  | some e => ({ g with edges := g.edges.eraseP fun e => e.id == id }, some e)

def resolvePort (node port : String) : Except ConnectError Port :=
  match g.node? node with
  | none => .error (.noNode node)
  | some n =>
    match n.port? port with
    | none => .error (.noPort node port)
    | some p => .ok p

/-- The io edge between two ports, if they fit. -/
def proposeIo (source sourceHandle target targetHandle : String) : Except ConnectError Edge := do
  if source = target then throw .selfLoop
  let sourcePort ← g.resolvePort source sourceHandle
  let targetPort ← g.resolvePort target targetHandle
  let cast ← Port.checkIo sourcePort targetPort
  return .io source sourceHandle target targetHandle cast

/-- The flow edge between two nodes, if one has a way out and the other a way in. -/
def proposeFlow (source target : String) : Except ConnectError Edge := do
  if source = target then throw .selfLoop
  let sourcePort ← g.resolvePort source Port.after
  let targetPort ← g.resolvePort target Port.before
  Port.checkRoles .flow sourcePort targetPort
  return .flow source target

/-- The edge with its narrowing brought up to date, if it still fits its ports. -/
def refit (e : Edge) : Except ConnectError Edge := do
  let sourcePort ← g.resolvePort e.source e.sourceHandle
  let targetPort ← g.resolvePort e.target e.targetHandle
  match e.kind with
  | .io _ => return { e with kind := .io (← Port.checkIo sourcePort targetPort) }
  | .flow =>
    Port.checkRoles .flow sourcePort targetPort
    return e

/-- The edges that fit, refitted. -/
def fittingEdges : List Edge :=
  g.edges.filterMap fun e => (g.refit e).toOption

/-- The ids of the edges that do not fit. -/
def staleEdges : List String :=
  (g.edges.filter fun e => (g.refit e).toOption.isNone).map Edge.id

/-- Drops the edges that do not fit, and gives their ids. -/
def prune : Graph × List String :=
  ({ g with edges := g.fittingEdges }, g.staleEdges)

/-- Replaces the first node of an id. -/
def replaceFirst (id : String) (new : Node) : List Node → List Node
  | [] => []
  | n :: rest => if n.id == id then new :: rest else n :: replaceFirst id new rest

/-- The graph with another node in the place of the first node of an id. -/
def withNode (id : String) (new : Node) : Graph :=
  { g with nodes := replaceFirst id new g.nodes }

end Graph

/-- Edits of a graph. One that fails keeps what it has changed until then. -/
abbrev EditM (ε : Type) := ExceptT ε (StateM Graph)

namespace EditM

variable {ε α : Type}

/-- The graph after an edit, and the answer of the edit. -/
def on (g : Graph) (x : EditM ε α) : Except ε (Graph × α) :=
  let (answer, g) := x.run.run g
  answer.map (g, ·)

/-- Adds an edge in the place of others. -/
def connect (propose : Graph → Except ConnectError Edge) (replaced : Edge → Bool) :
    EditM ConnectError String := do
  let edge ← propose (← get)
  modify fun g => { g with edges := g.edges.filter fun e => !replaced e }
  modify fun g => g.addEdge edge
  return edge.id

/-- Connects two io ports. An input has one edge, so the new edge replaces the old. -/
def connectIo (source sourceHandle target targetHandle : String) : EditM ConnectError String :=
  connect (·.proposeIo source sourceHandle target targetHandle) (·.feeds target targetHandle)

/-- Connects two nodes in the flow. Each has one way in and one way out, so the new edge replaces
the old ones on both sides. -/
def connectFlow (source target : String) : EditM ConnectError String :=
  connect (·.proposeFlow source target)
    fun e => e.isFlow && (e.source == source || e.target == target)

/-- Drops the edges that do not fit, and answers their ids. -/
def prune : EditM ε (List String) :=
  modifyGet fun g => g.prune.swap

/-- Changes a command, and drops the edges that no longer fit. Answers their ids. -/
def patchCommand (id : String) (patch : Command → Command) :
    EditM ConnectError (List String) := do
  match (← get).node? id with
  | none => throw (.noNode id)
  | some (.command _ c) =>
    modify fun g => g.withNode id (.command id (patch c))
    prune
  | some _ => throw (.noPort id "command")

/-- Changes the type of a variable, and drops the edges that no longer fit. Answers their ids. -/
def setVariableType (id : String) (type : DataType) : EditM ConnectError (List String) := do
  match (← get).node? id with
  | none => throw (.noNode id)
  | some (.var v) =>
    modify fun g => g.withNode id (.var { v with type })
    prune
  | some _ => throw (.noPort id Port.variableOut)

/-- Gives a variable that stands for an object the type that a look-up answers for that object, and
drops the edges that no longer fit. -/
def refineObjectType (id : String) (typeOf : String → Except ε String) :
    EditM ε (Option String) := do
  match (← get).node? id with
  | some (.var v) =>
    match v.objectId? with
    | none => return none
    | some object =>
      let tag ← typeOf object
      modify fun g => g.withNode id (.var { v with type := .objectOf tag })
      discard prune
      return some tag
  | _ => return none

end EditM

namespace Graph

variable (g : Graph)

def connectIo (source sourceHandle target targetHandle : String) :
    Except ConnectError (Graph × String) :=
  (EditM.connectIo source sourceHandle target targetHandle).on g

def connectFlow (source target : String) : Except ConnectError (Graph × String) :=
  (EditM.connectFlow source target).on g

def patchCommand (id : String) (patch : Command → Command) :
    Except ConnectError (Graph × List String) :=
  (EditM.patchCommand id patch).on g

def setVariableType (id : String) (type : DataType) : Except ConnectError (Graph × List String) :=
  (EditM.setVariableType id type).on g

def refineObjectType (id : String) (objects : ObjectSnapshot) :
    Except LookupError (Graph × Option String) :=
  (EditM.refineObjectType id objects.typeOf).on g

end Graph

end TxGraph
