import TxGraph.DataType.Basic
import TxGraph.Pure.Error
import TxGraph.Snapshot
import TxGraph.Transaction.Basic

/-!
# Diagnostics

What decoding has to say about a transaction that a graph does not show as it is.
-/

namespace TxGraph

inductive Severity
  | info
  | warn
  | error
  deriving DecidableEq, Repr

def Severity.name : Severity → String
  | info => "info"
  | warn => "warn"
  | error => "error"

inductive Finding
  /-- A pure input of no type. -/
  | untypedInput
  /-- A pure input whose bytes are not of its type. -/
  | undecodedInput (type : String) (cause : EncodeError)
  /-- Pure inputs that became one literal. -/
  | packed (count : Nat) (name : String)
  /-- Elements that cannot become one literal. -/
  | unpacked (count : Nat) (elem : DataType)
  | unsupportedCommand (index : Nat)
  | danglingArg (arg : TxArg)
  | noFreePort (arg : TxArg)
  | unopenedVector (type : DataType) (port : String)
  | rerouted (arg : TxArg) (port wanted : String)
  | argumentCount (target : String) (declared passed : Nat)
  | noSignature (target : String)
  | lookup (cause : LookupError)
  deriving DecidableEq, Repr

namespace Finding

def severity : Finding → Severity
  | untypedInput => .info
  | undecodedInput .. => .warn
  | packed .. => .info
  | unpacked .. => .error
  | unsupportedCommand _ => .error
  | danglingArg _ => .warn
  | noFreePort _ => .warn
  | unopenedVector .. => .info
  | rerouted .. => .info
  | argumentCount .. => .warn
  | noSignature _ => .warn
  | lookup _ => .info

def message : Finding → String
  | untypedInput => "pure input has no recorded type; kept as raw bytes"
  | undecodedInput type cause =>
    "pure input of type " ++ type ++ " does not decode (" ++ cause.message ++
      "); kept as raw bytes"
  | packed count name => "packed " ++ toString count ++ " pure inputs into " ++ name
  | unpacked count elem =>
    toString count ++ " vector elements are not all pure inputs of type " ++ elem.display ++
      "; only the first is kept"
  | unsupportedCommand index =>
    "command #" ++ toString index ++ " has a kind the editor cannot represent; skipped"
  | danglingArg arg => "argument " ++ arg.display ++ " does not refer to any earlier value"
  | noFreePort arg => "no free port for argument " ++ arg.display ++ "; dropped"
  | unopenedVector type port =>
    "vector " ++ type.display ++ " passed through to " ++ port ++ " without unpacking"
  | rerouted arg port wanted =>
    "argument " ++ arg.display ++ " wired to " ++ port ++ " instead of " ++ wanted
  | argumentCount target declared passed =>
    target ++ " declares " ++ toString declared ++ " parameters but the call passes " ++
      toString passed
  | noSignature target => "no signature for " ++ target ++ "; ports are untyped"
  | lookup cause => cause.message

end Finding

/-- A finding and the node that it is about. -/
structure Diagnostic where
  finding : Finding
  node : Option String
  deriving DecidableEq, Repr

namespace Diagnostic

def severity (d : Diagnostic) : Severity :=
  d.finding.severity

def display (d : Diagnostic) : String :=
  "[" ++ d.severity.name ++ "] " ++ (d.node.elim "" (· ++ ": ")) ++ d.finding.message

def toJson (d : Diagnostic) : Json :=
  .obj ([("level", .str d.severity.name), ("message", .str d.finding.message)] ++
    Json.optional "node" .str d.node)

end Diagnostic

end TxGraph
