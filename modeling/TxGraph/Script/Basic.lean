import TxGraph.Bytes.Hex
import TxGraph.Json.Basic
import TxGraph.Program.Basic

/-!
# Scripts

A script is a TypeScript module that builds a transaction: what it imports and declares follows
from its settings and from its lines. Each line is one call on the transaction.
-/

namespace TxGraph

namespace Script

/-- An argument of a call. -/
inductive Expr
  /-- A constant that an earlier line declares. -/
  | name (name : String)
  | gas
  | object (id : String)
  | system
  | clock
  | random
  /-- The address that the module leaves to whoever runs it. -/
  | sender
  | pure (type : String) (value : Json)
  /-- A pure value of no type. -/
  | raw (bytes : Bytes)
  deriving DecidableEq, Repr

/-- A line, with the names of the constants it declares. -/
inductive Line
  | const (name : String) (value : Expr)
  | splitCoins (out : List String) (coin : Expr) (amounts : List Expr)
  | mergeCoins (destination : Expr) (sources : List Expr)
  | transferObjects (objects : List Expr) (recipient : Expr)
  | makeMoveVec (out : String) (elem : Option String) (elems : List Expr)
  | moveCall (out : List String) (package module function : String) (typeArgs : List String)
    (args : List Expr)
  | publish (out : String) (modules dependencies : List String)
  | upgrade (out : String) (modules dependencies : List String) (package : String) (ticket : Expr)
  deriving DecidableEq, Repr

namespace Line

/-- The constants that a line declares. -/
def declares : Line → List String
  | const name _ => [name]
  | splitCoins out _ _ => out
  | mergeCoins .. => []
  | transferObjects .. => []
  | makeMoveVec out _ _ => [out]
  | moveCall out .. => out
  | publish out _ _ => [out]
  | upgrade out .. => [out]

/-- The expressions of a line. -/
def exprs : Line → List Expr
  | const _ value => [value]
  | splitCoins _ coin amounts => coin :: amounts
  | mergeCoins destination sources => destination :: sources
  | transferObjects objects recipient => objects ++ [recipient]
  | makeMoveVec _ _ elems => elems
  | moveCall _ _ _ _ _ args => args
  | publish .. => []
  | upgrade _ _ _ _ ticket => [ticket]

end Line

end Script

/-- The sender, if set, is a full address. -/
structure Script where
  sender : Option String
  gasBudget : Option UInt64
  lines : List Script.Line
  deriving DecidableEq, Repr

namespace Script

def Expr.isRaw : Expr → Bool
  | raw _ => true
  | _ => false

/-- Whether the module needs a reader of hexadecimal text. -/
def usesHex (s : Script) : Bool :=
  s.lines.any fun l => l.exprs.any Expr.isRaw

/-- Whether the module declares an address for its sender. -/
def declaresSender (s : Script) : Bool :=
  s.lines.any fun l => l.exprs.any (· == .sender)

/-- The names that the module declares at the top. -/
def header (s : Script) : List String :=
  "Transaction" :: (if s.usesHex then ["fromHex"] else []) ++
    (if s.declaresSender then ["myAddress"] else []) ++ ["tx"]

/-- Every declared name, in order. -/
def declared (s : Script) : List String :=
  s.header ++ s.lines.flatMap Line.declares

end Script

end TxGraph
