import TxGraph.Lowering.Walk
import TxGraph.Program.Names
import TxGraph.Pure.Decode
import TxGraph.Script.Basic
import TxGraph.Trace
import TxGraph.Transaction.Builder

/-!
# Scripts of programs

A writer of script as a target of lowering. It makes the calls that the transaction builder makes,
and keeps their trace beside the lines. An argument that comes from a variable gets a constant of
its own, so that a value used twice reads as shared.
-/

namespace TxGraph.Script

open Transaction.Builder (fullAddress indexOf)

/-- An argument: how the script writes it, and what it stands for. -/
structure Handle where
  expr : Expr
  arg : TraceArg
  deriving DecidableEq, Repr

structure Writer where
  names : NamePool
  lines : Array Line
  trace : Array TracedCall
  /-- The objects in use, by full address. -/
  objects : Directory Handle

namespace Writer

/-- The outputs of the program keep their names. -/
def start (p : Program) : Writer :=
  ⟨.seeded (p.ops.flatMap Operation.outputs), #[], #[], []⟩

/-- The number of the next command. -/
def nextCommand (w : Writer) : Except Refusal UInt16 :=
  (indexOf w.trace.size .commands).mapError .encode

def checkResults (out : List String) : Except Refusal Unit :=
  ((indexOf out.length .results).map fun _ => ()).mapError .encode

/-- Writes a call. -/
def issue (w : Writer) (line : Line) (call : TracedCall) : Writer :=
  { w with lines := w.lines.push line, trace := w.trace.push call }

/-- Gives the value of a variable a constant of its own. -/
def hoist (w : Writer) (symbol : Option String) (value : Expr) : Expr × Writer :=
  match symbol with
  | none => (value, w)
  | some hint =>
    let (name, names) := w.names.alloc hint
    (.name name, { w with names, lines := w.lines.push (.const name value) })

/-- The handle of the object with a full address. -/
def known (w : Writer) (id : String) (value : Expr) (symbol : Option String) : Handle × Writer :=
  match Directory.get? w.objects id with
  | some handle => (handle, w)
  | none =>
    let (expr, w) := w.hoist symbol value
    let handle : Handle := ⟨expr, .object id⟩
    (handle, { w with objects := Directory.insert id handle w.objects })

def object (o : ObjectRef) (symbol : Option String) (w : Writer) :
    Except Refusal (Handle × Writer) :=
  let systemObject (value : Expr) : Except Refusal (Handle × Writer) := do
    let id ← (fullAddress (o.systemId?.getD "")).mapError .encode
    return w.known id value symbol
  match o with
  | .gas => return (⟨.gas, .gas⟩, w)
  | .byId id => do
    return w.known (← (fullAddress id).mapError .encode) (.object (Text.trim id)) symbol
  | .system => systemObject .system
  | .clock => systemObject .clock
  | .random => systemObject .random

def literal (kind : ParamKind) (value : Literal) (symbol : Option String) (w : Writer) :
    Except Refusal (Handle × Writer) := do
  if value = .sender then
    let (expr, w) := w.hoist symbol .sender
    return (⟨expr, .pure (some "address") (.str "myAddress")⟩, w)
  else
    let encoded ← (PureValue.encode kind value).mapError .encode
    let json := PureValue.canonical encoded.type encoded.bytes
    let (expr, w) := w.hoist symbol (encoded.type.elim (.raw encoded.bytes) (.pure · json))
    return (⟨expr, .pure encoded.type json⟩, w)

/-- The results of a command under their names. -/
def results (index : UInt16) (out : List String) : List Handle :=
  out.mapIdx fun i name => ⟨.name name, .nested index (UInt16.ofNat i)⟩

def single (index : UInt16) (out : String) : Handle :=
  ⟨.name out, .result index⟩

/-- The full form of a package in a trace. -/
def package (text : String) : Except Refusal String :=
  (Address.normalize text).mapError .uncut

def exprs (handles : List Handle) : List Expr := handles.map Handle.expr

def args (handles : List Handle) : List TraceArg := handles.map Handle.arg

def target : Target Writer Handle where
  object := object
  pure := literal
  splitCoins coin amounts out w := do
    let index ← w.nextCommand
    checkResults out
    return (results index out, w.issue (.splitCoins out coin.expr (exprs amounts))
      ⟨.splitCoins, none, [], coin.arg :: args amounts⟩)
  mergeCoins destination sources w := do
    let _ ← w.nextCommand
    return ((), w.issue (.mergeCoins destination.expr (exprs sources))
      ⟨.mergeCoins, none, [], destination.arg :: args sources⟩)
  transferObjects objects recipient w := do
    let _ ← w.nextCommand
    return ((), w.issue (.transferObjects (exprs objects) recipient.expr)
      ⟨.transferObjects, none, [], args objects ++ [recipient.arg]⟩)
  makeMoveVec elem elems out w := do
    let index ← w.nextCommand
    let (name, names) := match out with
      | some name => (name, w.names)
      | none => w.names.alloc "items"
    return (single index name, { w with names }.issue (.makeMoveVec name elem (exprs elems))
      ⟨.makeMoveVec, elem, [], args elems⟩)
  moveCall callee handles out w := do
    let index ← w.nextCommand
    let address ← package callee.package
    checkResults out
    return (results index out,
      w.issue (.moveCall out callee.package callee.module callee.function callee.typeArgs
          (exprs handles))
        ⟨.moveCall, some (address ++ "::" ++ callee.module ++ "::" ++ callee.function),
          callee.typeArgs, args handles⟩)
  publish modules dependencies out w := do
    let index ← w.nextCommand
    return (single index out, w.issue (.publish out modules dependencies)
      ⟨.publish, none, [], []⟩)
  upgrade modules dependencies packageText ticket out w := do
    let index ← w.nextCommand
    let address ← package packageText
    return (single index out,
      w.issue (.upgrade out modules dependencies packageText ticket.expr)
        ⟨.upgrade, some address, [], [ticket.arg]⟩)

end Writer

/-- The sender of the options in full. -/
def senderOf (options : ExecOptions) : Except LowerError (Option String) :=
  match options.sender with
  | none => .ok none
  | some sender =>
    ((fullAddress sender).mapError fun _ => LowerError.invalidSender sender).map some

/-- The script of a program, and the trace of the calls that it makes. -/
def ofProgram (p : Program) (options : ExecOptions) : Except LowerError (Script × CallTrace) := do
  let w ← Lowering.run Writer.target options.sender p (Writer.start p)
  let sender ← senderOf options
  return (⟨sender, options.gasBudget, w.lines.toList⟩, w.trace.toList)

end TxGraph.Script
