import TxGraph.Transaction.Basic

/-!
# Building transactions

A builder collects inputs and commands one after the other. Objects are inputs only once; pure
values are inputs each time. What has no 16-bit index is refused.
-/

namespace TxGraph.Transaction

structure Builder where
  sender : Option String
  gasBudget : Option UInt64
  inputs : Array TxInput
  commands : Array TxCommand
  deriving Repr

namespace Builder

def empty : Builder := ⟨none, none, #[], #[]⟩

end Builder

/-- Calls on a builder. One that fails leaves the builder as it was. -/
abbrev BuilderM := ExceptT EncodeError (StateM Builder)

namespace Builder

/-- A length as an index, if it has 16 bits. -/
def indexOf (length : Nat) (what : Limited) : Except EncodeError UInt16 :=
  if length < Limited.limit then .ok (UInt16.ofNat length) else .error (.tooMany what)

/-- Addresses are recorded in full. -/
def fullAddress (text : String) : Except EncodeError String := do
  return Address.format (← PureValue.encodeAddress text)

def setSender (sender : String) : BuilderM Unit := do
  let sender ← fullAddress sender
  modify fun b => { b with sender := some sender }

def setGasBudget (budget : UInt64) : BuilderM Unit :=
  modify fun b => { b with gasBudget := some budget }

def pushInput (input : TxInput) : BuilderM TxArg := do
  let index ← indexOf (← get).inputs.size .inputs
  modify fun b => { b with inputs := b.inputs.push input }
  return .input index

def addPure (value : PureValue) : BuilderM TxArg :=
  pushInput (.pure value.type value.bytes)

def addObject (id : String) : BuilderM TxArg := do
  let input := TxInput.object (← fullAddress id)
  match (← get).inputs.findIdx? (· == input) with
  | some index => return .input (UInt16.ofNat index)
  | none => pushInput input

def push (c : TxCommand) : BuilderM UInt16 := do
  let index ← indexOf (← get).commands.size .commands
  modify fun b => { b with commands := b.commands.push c }
  return index

/-- The results of a command that has any number of them. -/
def results (index : UInt16) (count : Nat) : List TxArg :=
  (List.range count).map fun i => .nested index (UInt16.ofNat i)

/-- Appends a command with `count` results. -/
def pushWithResults (c : TxCommand) (count : Nat) : BuilderM (List TxArg) := do
  let _ ← indexOf count .results
  let index ← push c
  return results index count

/-- Appends a command with one result. -/
def pushWithResult (c : TxCommand) : BuilderM TxArg := do
  return .result (← push c)

/-- Appends a command without results. -/
def pushOnly (c : TxCommand) : BuilderM Unit := do
  let _ ← push c

def splitCoins (coin : TxArg) (amounts : List TxArg) : BuilderM (List TxArg) :=
  pushWithResults (.splitCoins coin amounts) amounts.length

def mergeCoins (destination : TxArg) (sources : List TxArg) : BuilderM Unit :=
  pushOnly (.mergeCoins destination sources)

def transferObjects (objects : List TxArg) (recipient : TxArg) : BuilderM Unit :=
  pushOnly (.transferObjects objects recipient)

def makeMoveVec (elem : Option String) (elems : List TxArg) : BuilderM TxArg :=
  pushWithResult (.makeMoveVec elem elems)

def moveCall (package module function : String) (typeArgs : List String) (args : List TxArg)
    (returns : Nat) : BuilderM (List TxArg) :=
  pushWithResults (.moveCall package module function typeArgs args) returns

def publish (modules dependencies : List String) : BuilderM TxArg :=
  pushWithResult (.publish modules dependencies)

def upgrade (modules dependencies : List String) (package : String) (ticket : TxArg) :
    BuilderM TxArg :=
  pushWithResult (.upgrade modules dependencies package ticket)

def build (b : Builder) : Transaction :=
  ⟨b.sender, b.gasBudget, b.inputs.toList, b.commands.toList⟩

end Builder

end TxGraph.Transaction
