import TxGraph.Proofs.Decoding.Ledger
import TxGraph.Proofs.Transaction.Tidy

/-!
# How a transaction is drawn

The graph of a transaction, written down at once: a node for each input and each command, an edge for
each argument, and a path through all commands. A command may bring variables of its own, for its
type arguments or for the elements of a vector that became one literal.
-/

namespace TxGraph.Decoding

variable {vs : List Variable} {x : Value × Producer} {plan : Plan}

/-! ## Variables -/

def inputVar (index : Nat) : TxInput → Variable
  | .object id => ⟨inputId index, inputId index, .anyObject, some (.str id)⟩
  | .pure type bytes =>
    ⟨inputId index, inputId index, (pureInput type bytes).1, some (pureInput type bytes).2.1⟩

def gasVar : Variable := ⟨gasId, "gas", .anyObject, none⟩

def typeArgVar (node : String) (index : Nat) (arg : String) : Variable :=
  ⟨node ++ "_targ_" ++ toString index, "type_arg_" ++ toString index, .string, some (.str arg)⟩

def elemsVar (node : String) (elem : DataType) (values : List Json) : Variable :=
  ⟨node ++ "_elems", node ++ "_elems", .vector elem, some (.arr values)⟩

/-! ## Commands -/

/-- A command with the variables of its own, each with the port that it feeds, and the slots of its
arguments. -/
structure Drawing where
  feeds : List (Variable × String)
  command : Command
  slots : List ArgSlot

def contextOf (source : SignatureSource) (t : Transaction) : Context where
  source := source
  inputs := (t.inputs.mapIdx fun i x => (x, inputVar i x)).toArray
  args := t.commands.flatMap TxCommand.args

def contextWith (source : SignatureSource) (t : Transaction) (vs : List Variable) : Context where
  source := source
  inputs := (t.inputs.zip vs).toArray
  args := t.commands.flatMap TxCommand.args

theorem contextWith_inputVar (source : SignatureSource) (t : Transaction) :
    contextWith source t (t.inputs.mapIdx inputVar) = contextOf source t := by
  have hzip : t.inputs.zip (t.inputs.mapIdx inputVar) =
      t.inputs.mapIdx fun i x => (x, inputVar i x) := by
    refine List.ext_getElem? fun n => ?_
    simp [List.zip, List.getElem?_zipWith, List.getElem?_mapIdx]
    cases t.inputs[n]? <;> rfl
  rw [contextWith, hzip, contextOf]

/-- A vector of vectors has one port, which takes one literal or else the first element. -/
def drawVector (c : Context) (node : String) (elem : DataType) (elems : List TxArg) : Drawing :=
  if elem.isVector then
    match elems.mapM (c.element? elem) with
    | some sources =>
      ⟨[(elemsVar node elem (sources.map Prod.snd), Command.elemsIn)],
        .makeMoveVec elem elems.length false, []⟩
    | none =>
      ⟨[], .makeMoveVec elem elems.length false,
        (elems.take 1).map (ArgSlot.single Command.elemsIn)⟩
  else ⟨[], .makeMoveVec elem elems.length true, ArgSlot.numbered Command.elemIn elems⟩

theorem command_drawVector (c : Context) (node : String) (elem : DataType) (elems : List TxArg) :
    (drawVector c node elem elems).command = .makeMoveVec elem elems.length (!elem.isVector) := by
  unfold drawVector
  split
  case isTrue hvector => split <;> simp [hvector]
  case isFalse hvector => simp [hvector]

/-- The call of a command as the graph shows it: by its signature, as far as the source has one, with
ports for all that is passed to it and used of it. -/
def shownCall (c : Context) (k : Nat) (package module function : String) (typeArgs : List String)
    (args : List TxArg) : MoveCall :=
  widen (callOf c.source package module function) typeArgs.length args.length
    (c.arity (UInt16.ofNat k))

/-- A call has a text for each type argument. -/
def drawCall (k : Nat) (typeArgs : List String) (args : List TxArg) (call : MoveCall) : Drawing where
  feeds := typeArgs.mapIdx fun i arg =>
    (typeArgVar (commandId k) i arg, Command.indexed Command.typeArgIn i)
  command := .moveCall call
  slots := ArgSlot.numbered Command.argIn args

def draw? (c : Context) (k : Nat) (command : TxCommand) : Option Drawing :=
  let slots := ArgSlot.ofCommand command
  match command with
  | .splitCoins _ amounts => some ⟨[], .splitCoins (max amounts.length 1), slots⟩
  | .mergeCoins _ sources => some ⟨[], .mergeCoins (max sources.length 1) true, slots⟩
  | .transferObjects objects _ => some ⟨[], .transferObjects (max objects.length 1) true, slots⟩
  | .makeMoveVec elem elems =>
    some (drawVector c (commandId k) (elem.elim .anyObject DataType.ofMove) elems)
  | .moveCall package module function typeArgs args =>
    some (drawCall k typeArgs args (shownCall c k package module function typeArgs args))
  | .publish modules dependencies => some ⟨[], .publish modules dependencies, slots⟩
  | .upgrade modules dependencies package _ =>
    some ⟨[], .upgrade modules dependencies package, slots⟩
  | .unsupported => none

def Outlines (c : Context) (k : Nat) : TxCommand → Drawing → Prop
  | .moveCall _ _ _ typeArgs args, d => ∃ call, d = drawCall k typeArgs args call
  | command, d => draw? c k command = some d

def Respells (package other : String) : Prop :=
  other = package ∨ ∃ key, Address.normalize package = .ok key ∧ Address.normalize other = .ok key

/-- The call of a function by the signatures of its package, as far as they are known. -/
def callBy (found : Option PackageSignatures) (package module function : String) : MoveCall :=
  ((found.bind fun s => s.function? module function).map
    (MoveCall.of package module function).withSignature).getD (MoveCall.of package module function)

/-- A call is shown by what the source has for its package, be it in another spelling. -/
def Answered (c : Context) (k : Nat) : TxCommand → Command → Prop
  | .moveCall package module function typeArgs args, .moveCall call =>
    ∃ other, Respells package other ∧
      call = widen (callBy (c.source other).toOption package module function) typeArgs.length
        args.length (c.arity (UInt16.ofNat k))
  | _, _ => True

structure Depicts (c : Context) (k : Nat) (command : TxCommand) (d : Drawing) : Prop where
  outlines : Outlines c k command d
  answered : Answered c k command d.command

theorem callOf_eq (source : SignatureSource) (package module function : String) :
    callOf source package module function =
      callBy (source package).toOption package module function := by
  unfold callOf callOf? callBy
  cases source package <;> rfl

/-- A call has room for all that is passed to it and used of it. -/
def Roomy (c : Context) (k : Nat) : TxCommand → Command → Prop
  | .moveCall _ _ _ typeArgs args, .moveCall call => typeArgs.length ≤ call.typeParams.length ∧
    args.length ≤ call.params.length ∧ c.arity (UInt16.ofNat k) ≤ call.returns.length
  | _, _ => True

theorem length_padTypes (n : Nat) (types : List DataType) :
    (padTypes n types).length = max n types.length := by
  simp only [padTypes, List.length_append, List.length_replicate]
  omega

theorem length_padTypeParams (n : Nat) (names : List String) :
    (padTypeParams n names).length = max n names.length := by
  simp only [padTypeParams, List.length_append, List.length_map, List.length_range]
  omega

theorem Depicts.roomy {c : Context} {k : Nat} {command : TxCommand} {d : Drawing}
    (h : Depicts c k command d) : Roomy c k command d.command := by
  obtain ⟨houtlines, hanswered⟩ := h
  cases command with
  | moveCall =>
    obtain ⟨call, rfl⟩ := houtlines
    obtain ⟨other, -, rfl⟩ := hanswered
    exact ⟨length_padTypeParams _ _ ▸ Nat.le_max_left _ _, length_padTypes _ _ ▸ Nat.le_max_left _ _,
      length_padTypes _ _ ▸ Nat.le_max_left _ _⟩
  | _ => trivial

theorem outlines_of_draw? {c : Context} {k : Nat} {command : TxCommand} {d : Drawing}
    (h : draw? c k command = some d) : Outlines c k command d := by
  cases command with
  | moveCall =>
    cases h
    exact ⟨_, rfl⟩
  | _ => exact h

def Drops (c : Context) : TxCommand → Prop
  | .makeMoveVec (some elem) elems => (DataType.ofMove elem).isVector = true ∧
    elems.mapM (c.element? (DataType.ofMove elem)) = none ∧ 1 < elems.length
  | _ => False

/-! ## Graphs -/

/-- The edge of a slot, where `lookup` gives the output port that an argument stands for. -/
def edgeBy? (lookup : TxArg → Option Producer) (node : String) (ports : List Port)
    (slot : ArgSlot) : Option Edge := do
  let producer ← lookup slot.arg
  let port ← ports.find? fun q => q.id == slot.port
  return .io producer.node producer.port node port.id (producer.type.castInto? port.typeOrUnknown)

namespace Drawing

def vars (d : Drawing) : List Node :=
  d.feeds.map fun f => .var f.1

def feedEdges (d : Drawing) (node : String) : List Edge :=
  d.feeds.map fun f => .io f.1.id Port.variableOut node f.2 none

def nodes (k : Nat) (d : Drawing) : List Node :=
  d.vars ++ [.command (commandId k) d.command]

def edgesBy (lookup : TxArg → Option Producer) (k : Nat) (d : Drawing) : List Edge :=
  d.feedEdges (commandId k) ++
    d.slots.filterMap (edgeBy? lookup (commandId k) d.command.inputPorts)

end Drawing

def markers : List Node := [.start startId, .finish finishId, .var gasVar]

/-! ## Plans -/

/-- The drawings of commands. A command that cannot be shown has none. -/
abbrev Plan := List (Option Drawing)

inductive Plans (c : Context) : Nat → List TxCommand → Plan → Prop
  | nil (k : Nat) : Plans c k [] []
  | skip {k : Nat} {commands : List TxCommand} {plan : Plan} (tail : Plans c (k + 1) commands plan) :
    Plans c k (.unsupported :: commands) (none :: plan)
  | cons {k : Nat} {command : TxCommand} {d : Drawing} {commands : List TxCommand} {plan : Plan}
    (head : Depicts c k command d) (tail : Plans c (k + 1) commands plan) :
    Plans c k (command :: commands) (some d :: plan)

def producerOf (node : String) (port : Port) : Producer :=
  ⟨node, port.id, port.typeOrUnknown⟩

def varProducer (v : Variable) : Producer :=
  ⟨v.id, Port.variableOut, v.type⟩

def inputLedger (vs : List Variable) : List (Value × Producer) :=
  (.gas, varProducer gasVar) :: vs.mapIdx fun n v => (.input n, varProducer v)

def Drawing.outputs (k : Nat) (d : Drawing) : List (Value × Producer) :=
  d.command.outputPorts.mapIdx fun m port => (.output k m, producerOf (commandId k) port)

namespace Plan

def nodes (k : Nat) : Plan → List Node
  | [] => []
  | none :: rest => nodes (k + 1) rest
  | some d :: rest => d.nodes k ++ nodes (k + 1) rest

/-- The edges of a plan, of which the first command has number `k`, in a flow that comes from the
node `previous`. The ledger has what is entered before. -/
def edges (ledger : List (Value × Producer)) (k : Nat) (previous : String) : Plan → List Edge
  | [] => [.flow previous finishId]
  | none :: rest => edges ledger (k + 1) previous rest
  | some d :: rest => d.edgesBy (latest? ledger) k ++ .flow previous (commandId k) ::
    edges (ledger ++ d.outputs k) (k + 1) (commandId k) rest

def ledger (plan : Plan) : List (Value × Producer) :=
  plan.zipIdx.flatMap fun x => x.1.elim [] (Drawing.outputs x.2)

end Plan

/-! ## Entries -/

theorem mem_inputLedger :
    x ∈ inputLedger vs ↔ x = (.gas, varProducer gasVar) ∨
      ∃ n v, vs[n]? = some v ∧ x = (.input n, varProducer v) := by
  simp only [inputLedger, List.mem_cons, List.mem_mapIdx]
  refine or_congr_right ⟨?_, ?_⟩
  · rintro ⟨n, hn, rfl⟩
    exact ⟨n, vs[n], List.getElem?_eq_getElem hn, rfl⟩
  · rintro ⟨n, v, hv, rfl⟩
    obtain ⟨hn, rfl⟩ := List.getElem?_eq_some_iff.mp hv
    exact ⟨n, hn, rfl⟩

theorem Drawing.mem_outputs {k : Nat} {d : Drawing} :
    x ∈ d.outputs k ↔ ∃ m port, d.command.outputPorts[m]? = some port ∧
      x = (.output k m, producerOf (commandId k) port) := by
  simp only [outputs, List.mem_mapIdx]
  constructor
  · rintro ⟨m, hm, rfl⟩
    exact ⟨m, _, List.getElem?_eq_getElem hm, rfl⟩
  · rintro ⟨m, port, hport, rfl⟩
    obtain ⟨hm, rfl⟩ := List.getElem?_eq_some_iff.mp hport
    exact ⟨m, hm, rfl⟩

theorem Plan.mem_ledger :
    x ∈ plan.ledger ↔ ∃ n d, plan[n]? = some (some d) ∧ x ∈ Drawing.outputs n d := by
  simp only [ledger, List.mem_flatMap, List.mem_zipIdx_iff_getElem?, Prod.exists]
  constructor
  · rintro ⟨_ | d, n, hn, hx⟩
    · cases hx
    · exact ⟨n, d, hn, hx⟩
  · rintro ⟨n, d, hn, hx⟩
    exact ⟨some d, n, hn, hx⟩

theorem Plan.ledger_nil : ledger [] = [] := rfl

theorem Plan.ledger_concat_none (plan : Plan) : ledger (plan ++ [none]) = plan.ledger := by
  simp [ledger, List.zipIdx_append]

theorem Plan.ledger_concat_some (plan : Plan) (d : Drawing) :
    ledger (plan ++ [some d]) = plan.ledger ++ d.outputs plan.length := by
  simp [ledger, List.zipIdx_append]

/-- What is entered for a value before the end of the plan. -/
def Entry (vs : List Variable) (plan : Plan) : Value → Producer → Prop
  | .gas, p => p = varProducer gasVar
  | .input n, p => ∃ v, vs[n]? = some v ∧ p = varProducer v
  | .output n m, p => ∃ d, plan[n]? = some (some d) ∧
    ∃ port, d.command.outputPorts[m]? = some port ∧ p = producerOf (commandId n) port

theorem mem_ledger_iff {v : Value} {p : Producer} :
    (v, p) ∈ inputLedger vs ++ plan.ledger ↔ Entry vs plan v p := by
  rw [List.mem_append, mem_inputLedger, Plan.mem_ledger]
  cases v <;> simp [Drawing.mem_outputs, Entry]

def Plan.FewOutputs (plan : Plan) : Prop :=
  ∀ d, some d ∈ plan → d.command.outputPorts.length ≤ Limited.limit

theorem Entry.low (hvs : vs.length ≤ Limited.limit) (hplan : plan.length ≤ Limited.limit)
    (hfew : plan.FewOutputs) {v : Value} {p : Producer} (h : Entry vs plan v p) : v.Low := by
  cases v with
  | gas => trivial
  | input n =>
    obtain ⟨v, hv, -⟩ := h
    exact (List.getElem?_eq_some_iff.mp hv).1.trans_le hvs
  | output n m =>
    obtain ⟨d, hd, port, hport, -⟩ := h
    exact ⟨(List.getElem?_eq_some_iff.mp hd).1.trans_le hplan,
      (List.getElem?_eq_some_iff.mp hport).1.trans_le (hfew d (List.mem_of_getElem? hd))⟩

end TxGraph.Decoding
