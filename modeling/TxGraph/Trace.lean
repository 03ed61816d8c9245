import TxGraph.Command.Basic
import TxGraph.Json.Basic

/-!
# Call traces

The commands that a transaction issues, with every argument shown by its value. A script has the
trace of the transaction it builds.
-/

namespace TxGraph

inductive TraceArg
  | pure (type : Option String) (value : Json)
  /-- An object by its normalized id. -/
  | object (id : String)
  | gas
  | result (index : UInt16)
  | nested (index nth : UInt16)
  deriving DecidableEq, Repr

/-- One command. The target is the function of a call, the package of an upgrade, or the element
type of a vector. -/
structure TracedCall where
  kind : CommandKind
  target : Option String
  typeArgs : List String
  args : List TraceArg
  deriving DecidableEq, Repr

abbrev CallTrace := List TracedCall

def TraceArg.toJson : TraceArg → Json
  | pure type value =>
    .obj [("type", .str "pure"), ("value_type", Json.ofOption .str type), ("value", value)]
  | object id => .obj [("type", .str "object"), ("id", .str id)]
  | gas => .obj [("type", .str "gas")]
  | result index => .obj [("type", .str "result"), ("index", .nat index.toNat)]
  | nested index nth =>
    .obj [("type", .str "nestedResult"), ("index", .nat index.toNat), ("result", .nat nth.toNat)]

def TracedCall.toJson (c : TracedCall) : Json :=
  .obj (("kind", .str c.kind.name) :: Json.optional "target" .str c.target ++
    (if c.typeArgs.isEmpty then [] else [("typeArgs", .strs c.typeArgs)]) ++
    [("args", .arr (c.args.map TraceArg.toJson))])

def CallTrace.toJson (t : CallTrace) : Json :=
  .arr (t.map TracedCall.toJson)

end TxGraph
