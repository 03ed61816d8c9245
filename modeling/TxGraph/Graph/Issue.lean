import TxGraph.Graph.Edit

/-!
# Issues of a graph

What keeps a graph from being well formed, as an editor reports it: repeated ids, missing or
repeated markers, edges that do not fit the ports they join, and ports that hold too many edges.
-/

namespace TxGraph

inductive IssueTarget
  | graph
  | node (id : String)
  | edge (id : String)
  deriving DecidableEq, Repr

/-- The two markers of a graph. -/
inductive Marker
  | start
  | finish
  deriving DecidableEq, Repr

def Marker.name : Marker → String
  | start => "Start"
  | finish => "End"

inductive IssueCause
  | duplicateNode
  | missingMarker (marker : Marker)
  | repeatedMarker (marker : Marker) (count : Nat)
  | duplicateEdge
  | noSource (node : String)
  | noTarget (node : String)
  | noPort (node port : String)
  | flowOnIoPort
  | flowAgainstDirection
  | wrongCast
  | misfit (cause : ConnectError)
  | crowdedInput (port : String) (count : Nat)
  | crowdedFlow (port : String) (count : Nat)
  deriving DecidableEq, Repr

namespace IssueCause

def crowded (what port : String) (count : Nat) : String :=
  what ++ " '" ++ port ++ "' has " ++ toString count ++ " edges, at most one is allowed"

def message : IssueCause → String
  | duplicateNode => "duplicate node id"
  | missingMarker marker => "missing " ++ marker.name ++ " node"
  | repeatedMarker marker count => toString count ++ " " ++ marker.name ++ " nodes, expected one"
  | duplicateEdge => "duplicate edge id"
  | noSource node => "source node '" ++ node ++ "' does not exist"
  | noTarget node => "target node '" ++ node ++ "' does not exist"
  | noPort node port => "node '" ++ node ++ "' has no port '" ++ port ++ "'"
  | flowOnIoPort => "flow edge attached to an io port"
  | flowAgainstDirection => "flow edge runs against port direction"
  | wrongCast => "numeric cast annotation does not match the port types"
  | misfit cause => cause.message
  | crowdedInput port count => crowded "input port" port count
  | crowdedFlow port count => crowded "flow handle" port count

end IssueCause

structure Issue where
  target : IssueTarget
  cause : IssueCause
  deriving DecidableEq, Repr

namespace Issue

def message (i : Issue) : String :=
  i.cause.message

def display (i : Issue) : String :=
  match i.target with
  | .graph => "graph: " ++ i.message
  | .node id => "node '" ++ id ++ "': " ++ i.message
  | .edge id => "edge '" ++ id ++ "': " ++ i.message

end Issue

namespace Graph

/-! ## Ids and markers -/

/-- The entries of a list that occur earlier in it. -/
def repeated (seen : List String) : List String → List String
  | [] => []
  | id :: rest => if id ∈ seen then id :: repeated seen rest else repeated (id :: seen) rest

def nodeIssues (g : Graph) : List Issue :=
  (repeated [] (g.nodes.map Node.id)).map fun id => ⟨.node id, .duplicateNode⟩

def markerIssues (marker : Marker) : (count : Nat) → List Issue
  | 0 => [⟨.graph, .missingMarker marker⟩]
  | 1 => []
  | count => [⟨.graph, .repeatedMarker marker count⟩]

/-! ## Edges -/

/-- The ports of an edge, or what it lacks. -/
def edgePorts (g : Graph) (e : Edge) : Except IssueCause (Port × Port) := do
  let some source := g.node? e.source | throw (.noSource e.source)
  let some target := g.node? e.target | throw (.noTarget e.target)
  let some sourcePort := source.port? e.sourceHandle | throw (.noPort source.id e.sourceHandle)
  let some targetPort := target.port? e.targetHandle | throw (.noPort target.id e.targetHandle)
  return (sourcePort, targetPort)

/-- What is wrong with an edge between two ports. -/
def portIssue? (e : Edge) (source target : Port) : Option IssueCause :=
  match e.kind with
  | .flow =>
    if source.role ≠ .flow ∨ target.role ≠ .flow then some .flowOnIoPort
    else if source.direction ≠ .output ∨ target.direction ≠ .input then
      some .flowAgainstDirection
    else none
  | .io cast =>
    match Port.checkIo source target with
    | .ok expected => if expected = cast then none else some .wrongCast
    | .error cause => some (.misfit cause)

def edgeIssue? (g : Graph) (e : Edge) : Option IssueCause :=
  match g.edgePorts e with
  | .error cause => some cause
  | .ok (source, target) => portIssue? e source target

/-- The issues of each edge, one after the other. `seen` holds the ids of the edges before. -/
def edgeIssues (g : Graph) (seen : List String) : List Edge → List Issue
  | [] => []
  | e :: rest =>
    let duplicate := if e.id ∈ seen then [⟨.edge e.id, .duplicateEdge⟩] else []
    let own := ((g.edgeIssue? e).map fun cause => ⟨.edge e.id, cause⟩).toList
    duplicate ++ own ++ edgeIssues g (e.id :: seen) rest

/-! ## Crowded ports -/

/-- The edges whose two ports exist. -/
def attachedEdges (g : Graph) : List Edge :=
  g.edges.filter fun e => (g.edgePorts e).toOption.isSome

/-- A port, by node and id, that holds several edges. -/
structure Crowd where
  node : String
  port : String
  count : Nat
  isFlow : Bool
  deriving DecidableEq, Repr

/-- Crowds are reported by node, then by port, then by count; a flow port before an input. -/
def Crowd.before (a b : Crowd) : Bool :=
  if a.node ≠ b.node then a.node < b.node
  else if a.port ≠ b.port then a.port < b.port
  else if a.count ≠ b.count then a.count < b.count
  else a.isFlow || !b.isFlow

/-- The ports that are listed several times. -/
def crowds (isFlow : Bool) (ports : List (String × String)) : List Crowd :=
  (ports.eraseDups.map fun p => ⟨p.1, p.2, ports.count p, isFlow⟩).filter fun c => 1 < c.count

def crowdIssue (c : Crowd) : Issue :=
  ⟨.node c.node, if c.isFlow then .crowdedFlow c.port c.count else .crowdedInput c.port c.count⟩

def crowdIssues (g : Graph) : List Issue :=
  let edges := g.attachedEdges
  let inputs := (edges.filter Edge.isIo).map fun e => (e.target, e.targetHandle)
  let handles := (edges.filter Edge.isFlow).flatMap fun e =>
    [(e.source, e.sourceHandle), (e.target, e.targetHandle)]
  ((crowds false inputs ++ crowds true handles).mergeSort Crowd.before).map crowdIssue

/-- All issues, in the order in which they are reported. -/
def issues (g : Graph) : List Issue :=
  g.nodeIssues ++ markerIssues .start (g.nodes.countP Node.isStart) ++
    markerIssues .finish (g.nodes.countP Node.isFinish) ++ edgeIssues g [] g.edges ++ g.crowdIssues

end Graph

end TxGraph
