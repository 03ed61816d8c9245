import TxGraph.Command.Basic

/-!
# Graphs

The editor's graph: start and end markers, variables and commands, joined by flow edges and io
edges. Ids need not be unique; a look-up finds the first.
-/

namespace TxGraph

/-- A source of one value: a literal, or the id of an object. -/
structure Variable where
  id : String
  name : String
  type : DataType
  value : Option Json
  deriving DecidableEq, Repr

inductive Node
  | start (id : String)
  | finish (id : String)
  | var (v : Variable)
  | command (id : String) (command : Command)
  deriving DecidableEq, Repr

namespace Node

def id : Node → String
  | start id => id
  | finish id => id
  | var v => v.id
  | command id _ => id

def isStart : Node → Bool
  | start _ => true
  | _ => false

def isFinish : Node → Bool
  | finish _ => true
  | _ => false

def isCommand : Node → Bool
  | command _ _ => true
  | _ => false

def command? : Node → Option Command
  | command _ c => some c
  | _ => none

def ports : Node → List Port
  | start _ => [.flowOut]
  | finish _ => [.flowIn]
  | var v => [.ioOut Port.variableOut v.type]
  | command _ c => c.ports

def port? (n : Node) (port : String) : Option Port :=
  n.ports.find? fun p => p.id == port

end Node

/-- What kind of ports an edge joins. A number that flows along an io edge may be narrowed. -/
inductive EdgeKind
  | flow
  | io (cast : Option Width)
  deriving DecidableEq, Repr

structure Edge where
  kind : EdgeKind
  id : String
  source : String
  sourceHandle : String
  target : String
  targetHandle : String
  deriving DecidableEq, Repr

namespace Edge

/-- The id of an edge between two ports. -/
def idOf (source sourceHandle target targetHandle : String) : String :=
  source ++ ":" ++ sourceHandle ++ "->" ++ target ++ ":" ++ targetHandle

def io (source sourceHandle target targetHandle : String) (cast : Option Width) : Edge :=
  ⟨.io cast, idOf source sourceHandle target targetHandle, source, sourceHandle, target,
    targetHandle⟩

def flow (source target : String) : Edge :=
  ⟨.flow, idOf source Port.after target Port.before, source, Port.after, target, Port.before⟩

def isFlow (e : Edge) : Bool :=
  match e.kind with
  | .flow => true
  | .io _ => false

def isIo (e : Edge) : Bool :=
  !e.isFlow

def cast? (e : Edge) : Option Width :=
  match e.kind with
  | .flow => none
  | .io cast => cast

def touches (e : Edge) (node : String) : Bool :=
  e.source == node || e.target == node

/-- Whether the edge feeds an input port with a value. -/
def feeds (e : Edge) (node port : String) : Bool :=
  e.isIo && e.target == node && e.targetHandle == port

end Edge

structure Graph where
  nodes : List Node
  edges : List Edge
  deriving DecidableEq, Repr, Inhabited

namespace Graph

def empty : Graph := ⟨[], []⟩

def node? (g : Graph) (id : String) : Option Node :=
  g.nodes.find? fun n => n.id == id

def start? (g : Graph) : Option Node :=
  g.nodes.find? Node.isStart

def finish? (g : Graph) : Option Node :=
  g.nodes.find? Node.isFinish

/-- The first io edge into an input port. -/
def incoming? (g : Graph) (node port : String) : Option Edge :=
  g.edges.find? fun e => e.feeds node port

end Graph

end TxGraph
