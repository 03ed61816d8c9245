import TxGraph.DataType.Flow
import TxGraph.Transaction.Basic

/-!
# Argument slots

An argument of a decoded command asks for a port. It gets the port of that id, or else a free one:
of the same group, then of a fitting type, then any.
-/

namespace TxGraph.Decoding

/-- An argument, the port it asks for and the group of that port. -/
structure ArgSlot where
  arg : TxArg
  port : String
  group : String
  deriving DecidableEq, Repr

namespace ArgSlot

/-- The slot of a port that stands alone. -/
def single (port : String) (arg : TxArg) : ArgSlot :=
  ⟨arg, port, port⟩

/-- The slots of arguments that ask for the ports of a numbered group. -/
def numbered (name : String) (args : List TxArg) : List ArgSlot :=
  args.mapIdx fun i arg => ⟨arg, Command.indexed name i, name⟩

def ofCommand : TxCommand → List ArgSlot
  | .moveCall _ _ _ _ args => numbered Command.argIn args
  | .splitCoins coin amounts => single Command.coinIn coin :: numbered Command.amountIn amounts
  | .mergeCoins destination sources =>
    single Command.destinationIn destination :: numbered Command.sourceIn sources
  | .transferObjects objects recipient =>
    numbered Command.objectIn objects ++ [single Command.recipientIn recipient]
  | .makeMoveVec _ elems => numbered Command.elemIn elems
  | .publish .. => []
  | .upgrade _ _ _ ticket => [single Command.ticketIn ticket]
  | .unsupported => []

/-- The port among the free ones for a value of a type. -/
def pick (slot : ArgSlot) (type : DataType) (free : List Port) : Option Port :=
  (free.find? fun p => p.id == slot.port) <|>
  (free.find? fun p => slot.group.toList.isPrefixOf p.id.toList) <|>
  (free.find? fun p => type.flowsInto p.typeOrUnknown) <|>
  free.head?

end ArgSlot

end TxGraph.Decoding
