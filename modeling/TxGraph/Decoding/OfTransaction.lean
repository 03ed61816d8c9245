import TxGraph.DataType.Move
import TxGraph.Decoding.Diagnostic
import TxGraph.Decoding.Producers
import TxGraph.Decoding.Slot
import TxGraph.Graph.Edit
import TxGraph.Lowering.Target

/-!
# Graphs of transactions

Decoding reads a transaction as a graph: a variable for each input, a node for each command, io
edges by the producers of the arguments, and flow edges in the order of the commands. It reports
what the graph does not show and gives as much of a graph as there is.
-/

namespace TxGraph

/-- A graph, what was to be said about it, and the settings of the transaction. -/
structure Decoded where
  graph : Graph
  diagnostics : List Diagnostic
  options : ExecOptions
  deriving DecidableEq, Repr

def Decoded.hasErrors (d : Decoded) : Bool :=
  d.diagnostics.any fun g => g.severity == .error

namespace Decoding

/-- Where signatures come from, one package at a time. -/
abbrev SignatureSource := String → Except LookupError PackageSignatures

def startId : String := "start"

def finishId : String := "end"

def gasId : String := "gas"

def inputId (index : Nat) : String :=
  "input_" ++ toString index

def commandId (index : Nat) : String :=
  "cmd_" ++ toString index

/-! ## Inputs -/

def rawValue (bytes : Bytes) : Json :=
  .str ("0x" ++ Hex.encode bytes)

/-- The type and the value of a pure input. What is not known to be of a type stays raw. -/
def pureInput (type : Option String) (bytes : Bytes) : DataType × Json × Option Finding :=
  match type with
  | none => (.unknown, rawValue bytes, some .untypedInput)
  | some spelling =>
    match PureValue.decode spelling bytes with
    | .ok value => (.ofMove spelling, value, none)
    | .error cause => (.unknown, rawValue bytes, some (.undecodedInput spelling cause))

def inputVariable (index : Nat) (input : TxInput) :
    Except Address.Uncut (Variable × Option Finding) :=
  match input with
  | .object id => do
    let address ← Address.normalize id
    return (⟨inputId index, inputId index, .anyObject, some (.str address)⟩, none)
  | .pure type bytes =>
    let (type, value, finding) := pureInput type bytes
    .ok (⟨inputId index, inputId index, type, some value⟩, finding)

/-! ## State -/

structure State where
  nodes : Array Node
  edges : Array Edge
  producers : ProducerTable
  diagnostics : Array Diagnostic
  /-- The packages that were asked for, by normalized id. -/
  packages : Directory (Option PackageSignatures)
  /-- Inputs that became part of a literal. -/
  packed : List String

abbrev DecodeM := StateT State (Except Address.Uncut)

/-- What stays the same while commands are decoded. -/
structure Context where
  source : SignatureSource
  inputs : Array (TxInput × Variable)
  /-- The arguments of all commands. -/
  args : List TxArg

def diagnose (node : Option String) (finding : Finding) : DecodeM Unit :=
  modify fun s => { s with diagnostics := s.diagnostics.push ⟨finding, node⟩ }

def addNode (n : Node) : DecodeM Unit :=
  modify fun s => { s with nodes := s.nodes.push n }

def addEdge (e : Edge) : DecodeM Unit :=
  modify fun s => { s with edges := s.edges.push e }

/-- Changes the table of producers. -/
def enter (f : ProducerTable → ProducerTable) : DecodeM Unit :=
  modify fun s => { s with producers := f s.producers }

/-- The graph before anything is decoded. The gas coin is a variable from the start. -/
def initial : State where
  nodes := #[.start startId, .finish finishId, .var ⟨gasId, "gas", .anyObject, none⟩]
  edges := #[]
  producers := ProducerTable.empty.insert .gasCoin ⟨gasId, Port.variableOut, .anyObject⟩
  diagnostics := #[]
  packages := []
  packed := []

/-- Adds the variable of an input. Indices have 16 bits and start over. -/
def decodeInput (index : Nat) (input : TxInput) : DecodeM Variable := do
  let (v, finding) ← inputVariable index input
  if let some finding := finding then
    diagnose (some v.id) finding
  addNode (.var v)
  enter fun t => t.insert (.input (UInt16.ofNat index)) ⟨v.id, Port.variableOut, v.type⟩
  return v

/-- Adds the variables of inputs, of which the first has number `index`. -/
def decodeInputs (index : Nat) (done : Array (TxInput × Variable)) :
    List TxInput → DecodeM (Array (TxInput × Variable))
  | [] => return done
  | input :: rest => do
    let v ← decodeInput index input
    decodeInputs (index + 1) (done.push (input, v)) rest

/-! ## Wiring -/

/-- Wires an argument to one of the free ports of a node and gives the ports that are left. -/
def wire (node : String) (free : List Port) (slot : ArgSlot) : DecodeM (List Port) := do
  match (← get).producers.get? slot.arg with
  | none =>
    diagnose node (.danglingArg slot.arg)
    return free
  | some producer =>
    match slot.pick producer.type free with
    | none =>
      diagnose node (.noFreePort slot.arg)
      return free
    | some port =>
      let type := port.typeOrUnknown
      if producer.type.isVector && !type.isVector && !type.isWildcard then
        diagnose node (.unopenedVector producer.type port.id)
      else if port.id != slot.port then
        diagnose node (.rerouted slot.arg port.id slot.port)
      addEdge (.io producer.node producer.port node port.id (producer.type.castInto? type))
      return free.filter fun p => p.id != port.id

def wireAll (node : String) (free : List Port) : List ArgSlot → DecodeM Unit
  | [] => return
  | slot :: rest => do
    let free ← wire node free slot
    wireAll node free rest

/-- Adds a variable that feeds a port of a node. -/
def feed (v : Variable) (node port : String) : DecodeM Unit := do
  addNode (.var v)
  addEdge (.io v.id Port.variableOut node port none)

/-- Type arguments become texts that feed the type ports of a call. -/
def wireTypeArgs (node : String) (index : Nat) : List String → DecodeM Unit
  | [] => return
  | arg :: rest => do
    feed ⟨node ++ "_targ_" ++ toString index, "type_arg_" ++ toString index, .string,
      some (.str arg)⟩ node (Command.indexed Command.typeArgIn index)
    wireTypeArgs node (index + 1) rest

/-- Enters the outputs of a command, of which the first has number `nth`. -/
def register (node : String) (command : UInt16) (nth : Nat) : List Port → DecodeM Unit
  | [] => return
  | port :: rest => do
    enter fun t =>
      t.insertResult command (UInt16.ofNat nth) ⟨node, port.id, port.typeOrUnknown⟩
    register node command (nth + 1) rest

/-! ## Packing -/

/-- The variable and the value of an element that can be part of a literal. -/
def Context.element? (c : Context) (elem : DataType) (arg : TxArg) : Option (String × Json) :=
  match arg with
  | .input index =>
    match c.inputs[index.toNat]? with
    | some (.pure .., v) => if v.type = elem then v.value.map (v.id, ·) else none
    | _ => none
  | _ => none

/-- Makes one literal of the elements of a vector of vectors, if all of them are pure inputs of
the element type. -/
def pack (c : Context) (node : String) (elem : DataType) (elems : List TxArg) : DecodeM Bool := do
  match elems.mapM (c.element? elem) with
  | none => return false
  | some sources =>
    let name := node ++ "_elems"
    diagnose node (.packed sources.length name)
    feed ⟨name, name, .vector elem, some (.arr (sources.map Prod.snd))⟩ node Command.elemsIn
    modify fun s => { s with packed := s.packed ++ sources.map Prod.fst }
    return true

/-- The slots of the elements of a vector. One of vectors has a single port. -/
def vectorSlots (c : Context) (node : String) (elem : DataType) (elems : List TxArg) :
    DecodeM (List ArgSlot) := do
  if !elem.isVector then
    return ArgSlot.numbered Command.elemIn elems
  else if ← pack c node elem elems then
    return []
  else
    if elems.length > 1 then
      diagnose node (.unpacked elems.length elem)
    return (elems.take 1).map (ArgSlot.single Command.elemsIn)

/-! ## Calls -/

/-- The signatures of a package. Each package is asked for once. -/
def packageSignatures (c : Context) (node package : String) :
    DecodeM (Option PackageSignatures) := do
  let key ← Address.normalize package
  match Directory.get? (← get).packages key with
  | some found => return found
  | none =>
    let found ← match c.source package with
      | .ok signatures => pure (some signatures)
      | .error (.uncut cause) => throw cause
      | .error cause => do
        diagnose node (.lookup cause)
        pure none
    modify fun s => { s with packages := Directory.insert key found s.packages }
    return found

/-- The number of results of a command that an argument needs. -/
def reach (command : UInt16) : TxArg → Nat
  | .result index => if index = command then 1 else 0
  | .nested index nth => if index = command then min (nth.toNat + 1) Word.max16 else 0
  | _ => 0

/-- The number of results of a command that the transaction uses. -/
def Context.arity (c : Context) (command : UInt16) : Nat :=
  c.args.foldl (fun n arg => max n (reach command arg)) 0

/-- A list with as many unknown types at its end as make it at least `n` long. -/
def padTypes (n : Nat) (types : List DataType) : List DataType :=
  types ++ List.replicate (n - types.length) .unknown

/-- The names of type parameters with as many more as make them at least `n`. -/
def padTypeParams (n : Nat) (names : List String) : List String :=
  names ++ (List.range (n - names.length)).map fun i => "T" ++ toString (names.length + i)

/-- A call with ports for all that is passed to it and used of it. -/
def widen (call : MoveCall) (typeArgs args results : Nat) : MoveCall :=
  { call with
    typeParams := padTypeParams typeArgs call.typeParams
    params := padTypes args call.params
    returns := padTypes results call.returns }

/-- The call of a command, by its signature where there is one. -/
def decodeCall (c : Context) (node : String) (index : UInt16) (package module function : String)
    (typeArgs args : Nat) : DecodeM MoveCall := do
  let call := MoveCall.of package module function
  let signatures ← packageSignatures c node package
  let call ← match signatures.bind fun s => s.function? module function with
    | some signature => do
      let call := call.withSignature signature
      if call.params.length ≠ args then
        diagnose node (.argumentCount call.target call.params.length args)
      pure call
    | none => do
      diagnose node (.noSignature call.target)
      pure call
  return widen call typeArgs args (c.arity index)

/-! ## Commands -/

/-- The command of a node and the slots of its arguments; none for what a graph cannot show. -/
def decodeShape (c : Context) (node : String) (index : Nat) (command : TxCommand) :
    DecodeM (Option (Command × List ArgSlot)) := do
  let slots := ArgSlot.ofCommand command
  match command with
  | .splitCoins _ amounts => return some (.splitCoins (max amounts.length 1), slots)
  | .mergeCoins _ sources => return some (.mergeCoins (max sources.length 1) true, slots)
  | .transferObjects objects _ =>
    return some (.transferObjects (max objects.length 1) true, slots)
  | .makeMoveVec elem elems =>
    let elem := elem.elim .anyObject DataType.ofMove
    let slots ← vectorSlots c node elem elems
    return some (.makeMoveVec elem elems.length (!elem.isVector), slots)
  | .moveCall package module function typeArgs args =>
    let call ← decodeCall c node (UInt16.ofNat index) package module function typeArgs.length
      args.length
    wireTypeArgs node 0 typeArgs
    return some (.moveCall call, slots)
  | .publish modules dependencies => return some (.publish modules dependencies, slots)
  | .upgrade modules dependencies package _ =>
    return some (.upgrade modules dependencies package, slots)
  | .unsupported =>
    diagnose none (.unsupportedCommand index)
    return none

/-- Adds the node of a command and gives its id. Arguments are wired before the results of the
command are entered, so they refer to earlier commands only. -/
def decodeCommand (c : Context) (index : Nat) (command : TxCommand) :
    DecodeM (Option String) := do
  let node := commandId index
  match ← decodeShape c node index command with
  | none => return none
  | some (shape, slots) =>
    addNode (.command node shape)
    wireAll node shape.inputPorts slots
    register node (UInt16.ofNat index) 0 shape.outputPorts
    return some node

/-- Adds commands, of which the first has number `index`, in a flow that comes from the node
`previous` and ends in the end node. -/
def decodeCommands (c : Context) (index : Nat) (previous : String) :
    List TxCommand → DecodeM Unit
  | [] => addEdge (.flow previous finishId)
  | command :: rest => do
    match ← decodeCommand c index command with
    | none => decodeCommands c (index + 1) previous rest
    | some node =>
      addEdge (.flow previous node)
      decodeCommands c (index + 1) node rest

/-- Drops the inputs that no edge uses. -/
def dropUnused (g : Graph) (inputs : List String) : Graph :=
  inputs.foldl (fun g id => if g.edges.any (·.touches id) then g else (g.removeNode id).1) g

def decodeAll (source : SignatureSource) (t : Transaction) : DecodeM Unit := do
  let inputs ← decodeInputs 0 #[] t.inputs
  decodeCommands ⟨source, inputs, t.commands.flatMap TxCommand.args⟩ 0 startId t.commands

end Decoding

/-- The graph of a transaction. -/
def Decoded.ofTransaction (source : Decoding.SignatureSource) (t : Transaction) :
    Except Address.Uncut Decoded := do
  let (_, s) ← (Decoding.decodeAll source t).run Decoding.initial
  return {
    graph := Decoding.dropUnused ⟨s.nodes.toList, s.edges.toList⟩ s.packed
    diagnostics := s.diagnostics.toList
    options := ⟨t.sender, t.gasBudget⟩ }

end TxGraph
