import TxGraph.Lowering.Walk
import TxGraph.Transaction.Builder

/-!
# Transactions of programs

The builder as a target of lowering. It has no use for the names of a program.
-/

namespace TxGraph.Transaction

namespace Builder

/-- A call on the builder as one of the target. -/
def asTarget {α : Type} (call : BuilderM α) (b : Builder) : Except Refusal (α × Builder) :=
  match call.run b with
  | (.ok a, b) => .ok (a, b)
  | (.error cause, _) => .error (.encode cause)

/-- The input of an object; the gas coin is no input. -/
def objectRef : ObjectRef → BuilderM TxArg
  | .gas => return .gasCoin
  | .byId id => addObject id
  | o =>
    match o.systemId? with
    | some id => addObject id
    | none => return .gasCoin

/-- Encodes a literal as an input. -/
def literal (kind : ParamKind) (value : Literal) : BuilderM TxArg := do
  addPure (← PureValue.encode kind value)

def target : Target Builder TxArg where
  object o _ := asTarget (objectRef o)
  pure kind value _ := asTarget (literal kind value)
  splitCoins coin amounts _ := asTarget (splitCoins coin amounts)
  mergeCoins destination sources := asTarget (mergeCoins destination sources)
  transferObjects objects recipient := asTarget (transferObjects objects recipient)
  makeMoveVec elem elems _ := asTarget (makeMoveVec elem elems)
  moveCall callee args out :=
    asTarget (moveCall callee.package callee.module callee.function callee.typeArgs args
      out.length)
  publish modules dependencies _ := asTarget (publish modules dependencies)
  upgrade modules dependencies package ticket _ :=
    asTarget (upgrade modules dependencies package ticket)

/-- Sets what the options give. -/
def configure (b : Builder) (options : ExecOptions) : Except LowerError Builder := do
  let b ← match options.sender with
    | none => .ok b
    | some text =>
      match fullAddress text with
      | .ok sender => .ok { b with sender := some sender }
      | .error _ => .error (.invalidSender text)
  return options.gasBudget.elim b fun budget => { b with gasBudget := some budget }

end Builder

/-- The transaction of a program. One that uses the sender needs it among the options. -/
def ofProgram (p : Program) (options : ExecOptions) : Except LowerError Transaction := do
  if options.sender.isNone && p.usesSender then
    throw .missingSender
  let b ← Lowering.run Builder.target options.sender p Builder.empty
  return (← b.configure options).build

end TxGraph.Transaction
