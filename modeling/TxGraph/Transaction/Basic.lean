import TxGraph.Address
import TxGraph.Pure.Decode
import TxGraph.Trace

/-!
# Transactions

A linear list of commands over numbered inputs. Indices are 16-bit words.
-/

namespace TxGraph

inductive TxInput
  /-- Encoded bytes, with the Move type at which they were encoded where it is recorded. -/
  | pure (type : Option String) (bytes : Bytes)
  | object (id : String)
  deriving DecidableEq, Repr

inductive TxArg
  | gasCoin
  | input (index : UInt16)
  | result (index : UInt16)
  | nested (index nth : UInt16)
  deriving DecidableEq, Repr

inductive TxCommand
  | moveCall (package module function : String) (typeArgs : List String) (args : List TxArg)
  | splitCoins (coin : TxArg) (amounts : List TxArg)
  | mergeCoins (destination : TxArg) (sources : List TxArg)
  | transferObjects (objects : List TxArg) (recipient : TxArg)
  | makeMoveVec (elem : Option String) (elems : List TxArg)
  | publish (modules dependencies : List String)
  | upgrade (modules dependencies : List String) (package : String) (ticket : TxArg)
  /-- Any command of another kind. -/
  | unsupported
  deriving DecidableEq, Repr

structure Transaction where
  sender : Option String
  gasBudget : Option UInt64
  inputs : List TxInput
  commands : List TxCommand
  deriving DecidableEq, Repr

namespace TxArg

/-- The argument as messages show it. -/
def display : TxArg → String
  | gasCoin => "GasCoin"
  | input index => "Input \x7b index: " ++ toString index.toNat ++ " \x7d"
  | result index => "Result \x7b index: " ++ toString index.toNat ++ " \x7d"
  | nested index nth =>
    "NestedResult \x7b index: " ++ toString index.toNat ++ ", result_index: " ++
      toString nth.toNat ++ " \x7d"

end TxArg

namespace TxCommand

def name : TxCommand → String
  | moveCall .. => "MoveCall"
  | splitCoins .. => "SplitCoins"
  | mergeCoins .. => "MergeCoins"
  | transferObjects .. => "TransferObjects"
  | makeMoveVec .. => "MakeMoveVec"
  | publish .. => "Publish"
  | upgrade .. => "Upgrade"
  | unsupported => "Unsupported"

/-- Every argument, in order. -/
def args : TxCommand → List TxArg
  | moveCall _ _ _ _ args => args
  | splitCoins coin amounts => coin :: amounts
  | mergeCoins destination sources => destination :: sources
  | transferObjects objects recipient => objects ++ [recipient]
  | makeMoveVec _ elems => elems
  | publish .. => []
  | upgrade _ _ _ ticket => [ticket]
  | unsupported => []

/-- The kind of a command that has one. -/
def kind? : TxCommand → Option CommandKind
  | moveCall .. => some .moveCall
  | splitCoins .. => some .splitCoins
  | mergeCoins .. => some .mergeCoins
  | transferObjects .. => some .transferObjects
  | makeMoveVec .. => some .makeMoveVec
  | publish .. => some .publish
  | upgrade .. => some .upgrade
  | unsupported => none

/-- What a trace shows as the target of a command. -/
def target : TxCommand → Except Address.Uncut (Option String)
  | moveCall package module function _ _ => do
    return some ((← Address.normalize package) ++ "::" ++ module ++ "::" ++ function)
  | makeMoveVec elem _ => .ok elem
  | upgrade _ _ package _ => do return some (← Address.normalize package)
  | _ => .ok none

def typeArgs : TxCommand → List String
  | moveCall _ _ _ typeArgs _ => typeArgs
  | _ => []

end TxCommand

namespace Transaction

/-- What a trace shows for an argument. An input that does not exist is shown as null. -/
def traceArg (inputs : Array TxInput) : TxArg → Except Address.Uncut TraceArg
  | .gasCoin => .ok .gas
  | .result index => .ok (.result index)
  | .nested index nth => .ok (.nested index nth)
  | .input index =>
    match inputs[index.toNat]? with
    | some (.pure type bytes) => .ok (.pure type (PureValue.canonical type bytes))
    | some (.object id) => do return .object (← Address.normalize id)
    | none => .ok (.pure none .null)

/-- What a trace shows for a command, if it is one that has a kind. -/
def traceCommand (inputs : Array TxInput) (c : TxCommand) :
    Except Address.Uncut (Option TracedCall) :=
  match c.kind? with
  | none => .ok none
  | some kind => do
    let target ← c.target
    let args ← c.args.mapM (traceArg inputs)
    return some ⟨kind, target, c.typeArgs, args⟩

/-- The calls that the transaction issues. -/
def callTrace (t : Transaction) : Except Address.Uncut CallTrace := do
  let inputs := t.inputs.toArray
  let calls ← t.commands.mapM (traceCommand inputs)
  return calls.filterMap fun c => c

end Transaction

end TxGraph
