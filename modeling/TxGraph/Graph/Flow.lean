import TxGraph.Graph.Basic

/-!
# Execution order

A node is active when it lies on a flow path from start to end. Active nodes run in topological
order; of several that are ready the one declared earlier goes first, and the start before all.
Nodes on a cycle never become ready and are left out.
-/

namespace TxGraph

structure Flow where
  /-- The active commands in execution order. -/
  order : List String
  /-- The ids of active nodes in the order of their declaration. -/
  active : List String
  deriving DecidableEq, Repr

namespace Flow

/-- Steps in the flow, from node to node. -/
abbrev Links := List (String × String)

def Links.flip (links : Links) : Links :=
  links.map fun (source, target) => (target, source)

def Links.after (links : Links) (id : String) : List String :=
  (links.filter fun l => l.1 == id).map Prod.snd

/-- What is reached from the stack, added to what was seen. Each step takes one id off the stack. -/
def search (links : Links) : (fuel : Nat) → (stack seen : List String) → List String
  | 0, _, seen => seen
  | _ + 1, [], seen => seen
  | fuel + 1, id :: stack, seen =>
    if id ∈ seen then search links fuel stack seen
    else search links fuel (links.after id ++ stack) (id :: seen)

/-- The ids reached from a root. Every link is put on the stack at most once. -/
def reachable (links : Links) (root : String) : List String :=
  search links (links.length + 1) [root] []

/-- Where a run along links stands. An id is ready once all ids from which a link leads to it are
taken. -/
structure Countdown where
  /-- For each id the number of links that it still waits for. -/
  waits : List (String × Int)
  /-- The ids that wait for nothing and are not yet taken, the next one first. -/
  ready : List String
  deriving DecidableEq, Repr

namespace Countdown

/-- An id waits for one link less. -/
def drop (waits : List (String × Int)) (id : String) : List (String × Int) :=
  waits.map fun w => if w.1 = id then (w.1, w.2 - 1) else w

/-- Every target waits for one link less. Given beside the counts are the targets that now wait for
nothing, in the order in which they are released. -/
def release : (targets : List String) → (waits : List (String × Int)) →
    List (String × Int) × List String
  | [], waits => (waits, [])
  | target :: rest, waits =>
    let (after, released) := release rest (drop waits target)
    (after, if (drop waits target).lookup target = some 0 then target :: released else released)

/-- Puts an id into a queue before the first one that does not come earlier among all ids. -/
def enqueue (ids : List String) (id : String) : (queue : List String) → List String
  | [] => [id]
  | first :: rest =>
    if ids.idxOf id ≤ ids.idxOf first then id :: first :: rest else first :: enqueue ids id rest

/-- The ready ids by their places among all. -/
def sorted (ids ready : List String) : List String :=
  ready.foldr (enqueue ids) []

/-- Nothing is taken yet. The ids may be found in any order. Links from others are not waited for. -/
def start (ids found : List String) (links : Links) : Countdown :=
  let waits := found.map fun id => (id, ((links.countP fun l => l.1 ∈ ids && l.2 == id : Nat) : Int))
  ⟨waits, sorted ids ((waits.filter fun w => w.2 = 0).map Prod.fst)⟩

/-- Takes an id off the queue. What is left of it is sorted again if others are released. -/
def take (ids : List String) (links : Links) (c : Countdown) (id : String) (ready : List String) :
    Countdown :=
  let (waits, released) := release (links.after id) c.waits
  ⟨waits, if released.isEmpty then ready else sorted ids (ready ++ released)⟩

/-- Takes the first ready id. -/
def next? (ids : List String) (links : Links) (c : Countdown) : Option (String × Countdown) :=
  match c.ready with
  | [] => none
  | id :: ready => some (id, c.take ids links id ready)

def run (ids : List String) (links : Links) : (fuel : Nat) → Countdown → List String
  | 0, _ => []
  | fuel + 1, c =>
    match c.next? ids links with
    | none => []
    | some (id, c) => id :: run ids links fuel c

end Countdown

/-- The ids in the order in which they are taken, without those that are never ready. None is taken
twice. -/
def sequence (ids : List String) (links : Links) : List String :=
  (Countdown.start ids ids links).run ids links ids.length

/-- The list without repetitions; of equal entries the last stays. -/
def keepLast (ids : List String) : List String :=
  ids.reverse.eraseDups.reverse

end Flow

namespace Graph

def links (g : Graph) : Flow.Links :=
  (g.edges.filter Edge.isFlow).map fun e => (e.source, e.target)

/-- The active ids between two nodes, in the order in which ready ones are taken. -/
def activeIds (g : Graph) (start finish : String) : List String :=
  let fromStart := Flow.reachable g.links start
  let toFinish := Flow.reachable g.links.flip finish
  let active := (Flow.keepLast (g.nodes.map Node.id)).filter fun id =>
    id ∈ fromStart && id ∈ toFinish
  active.filter (· == start) ++ active.filter (· != start)

/-- The executable part of the graph; nothing, when a marker is missing. -/
def flow (g : Graph) : Flow :=
  match g.start?, g.finish? with
  | some start, some finish =>
    let active := g.activeIds start.id finish.id
    let order := Flow.sequence active g.links
    { order := order.filter fun id => (g.node? id).any Node.isCommand, active }
  | _, _ => ⟨[], []⟩

end Graph

end TxGraph
