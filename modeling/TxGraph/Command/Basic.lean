import TxGraph.Port
import TxGraph.Signature
import TxGraph.Text.Basic

/-!
# Commands

A command node's kind and its parameters. The parameters determine the ports, so the same
parameters always give the same ports. A parameter that counts ports is any number, and there are
always that many ports: no list is too long here for the memory that would hold it.
-/

namespace TxGraph

inductive CommandKind
  | splitCoins
  | mergeCoins
  | transferObjects
  | makeMoveVec
  | moveCall
  | publish
  | upgrade
  deriving DecidableEq, Repr

namespace CommandKind

def all : List CommandKind :=
  [splitCoins, mergeCoins, transferObjects, makeMoveVec, moveCall, publish, upgrade]

def name : CommandKind → String
  | splitCoins => "splitCoins"
  | mergeCoins => "mergeCoins"
  | transferObjects => "transferObjects"
  | makeMoveVec => "makeMoveVec"
  | moveCall => "moveCall"
  | publish => "publish"
  | upgrade => "upgrade"

def ofName? (name : String) : Option CommandKind :=
  all.find? fun k => k.name == name

end CommandKind

/-- A call of a Move function. The lists stay empty until a signature is applied. -/
structure MoveCall where
  package : String
  module : String
  function : String
  typeParams : List String
  params : List DataType
  returns : List DataType
  deriving DecidableEq, Repr, Inhabited

namespace MoveCall

/-- A call of which only the target is known. -/
def of (package module function : String) : MoveCall :=
  ⟨package, module, function, [], [], []⟩

/-- Splits at every double colon. -/
def splitTarget (part : List Char) : List Char → List String
  | ':' :: ':' :: rest => String.ofList part.reverse :: splitTarget [] rest
  | c :: rest => splitTarget (c :: part) rest
  | [] => [String.ofList part.reverse]

/-- The call of a target `package::module::function`. -/
def ofTarget? (target : String) : Option MoveCall :=
  match splitTarget [] (Text.trim target).toList with
  | [package, module, function] =>
    if package.isEmpty || module.isEmpty || function.isEmpty then none
    else some (of package module function)
  | _ => none

def target (c : MoveCall) : String :=
  c.package ++ "::" ++ c.module ++ "::" ++ c.function

/-- The call with the parameters and returns that a signature declares. -/
def withSignature (c : MoveCall) (signature : Signature) : MoveCall :=
  let s := signature.withoutContext
  { c with
    typeParams := (List.range s.typeParams).map fun i => "T" ++ toString i
    params := s.inputs.map DataType.ofMove
    returns := s.outputs.map DataType.ofMove }

end MoveCall

inductive Command
  | splitCoins (amounts : Nat)
  | mergeCoins (sources : Nat) (expanded : Bool)
  | transferObjects (objects : Nat) (expanded : Bool)
  | makeMoveVec (elem : DataType) (elems : Nat) (expanded : Bool)
  | moveCall (call : MoveCall)
  | publish (modules dependencies : List String)
  | upgrade (modules dependencies : List String) (package : String)
  deriving DecidableEq, Repr

namespace Command

/-- A command with the parameters with which an editor starts. -/
def initial : CommandKind → Command
  | .splitCoins => splitCoins 2
  | .mergeCoins => mergeCoins 2 true
  | .transferObjects => transferObjects 1 true
  | .makeMoveVec => makeMoveVec .anyObject 2 true
  | .moveCall => moveCall (.of "" "" "")
  | .publish => publish [] []
  | .upgrade => upgrade [] [] ""

def kind : Command → CommandKind
  | splitCoins _ => .splitCoins
  | mergeCoins _ _ => .mergeCoins
  | transferObjects _ _ => .transferObjects
  | makeMoveVec _ _ _ => .makeMoveVec
  | moveCall _ => .moveCall
  | publish _ _ => .publish
  | upgrade _ _ _ => .upgrade

/-- Whether the inputs of variable number have a port each rather than one port for a vector.
Vectors are never made from vectors port by port. -/
def isExpanded : Command → Bool
  | splitCoins _ => true
  | mergeCoins _ expanded => expanded
  | transferObjects _ expanded => expanded
  | makeMoveVec elem _ expanded => expanded && !elem.isVector
  | _ => false

/-- The command with a signature applied, if it is a call. -/
def withSignature (signature : Signature) : Command → Command
  | moveCall call => moveCall (call.withSignature signature)
  | command => command

/-! ## Ports -/

def coinIn : String := "in_coin"

def amountIn : String := "in_amount"

def coinOut : String := "out_coin"

def destinationIn : String := "in_destination"

def sourceIn : String := "in_source"

def sourcesIn : String := "in_sources"

def objectIn : String := "in_object"

def objectsIn : String := "in_objects"

def recipientIn : String := "in_recipient"

def elemIn : String := "in_elem"

def elemsIn : String := "in_elems"

def vectorOut : String := "out_vector"

def typeArgIn : String := "in_targ"

def argIn : String := "in_arg"

def returnOut : String := "out_ret"

def upgradeCapOut : String := "out_upgrade_cap"

def ticketIn : String := "in_ticket"

def receiptOut : String := "out_receipt"

def upgradeCapTag : String := "0x2::package::UpgradeCap"

def upgradeTicketTag : String := "0x2::package::UpgradeTicket"

def upgradeReceiptTag : String := "0x2::package::UpgradeReceipt"

/-- The id of a port in a numbered group. -/
def indexed (group : String) (index : Nat) : String :=
  group ++ "_" ++ toString index

/-- The number of a port in a group. -/
def portIndex? (port group : String) : Option Nat := do
  let rest ← group.toList.isPrefixOf? port.toList
  let '_' :: digits := rest | none
  Text.natUpTo? Word.max64 digits

/-- A numbered group of ports of one type. -/
def numbered (port : String → DataType → Port) (group : String) (types : List DataType) :
    List Port :=
  types.zipIdx.map fun (type, i) => port (indexed group i) type

/-- Inputs of variable number: numbered ports, or one port for a vector. -/
def groupPorts (expanded : Bool) (group vector : String) (count : Nat) (elem : DataType) :
    List Port :=
  if expanded then numbered Port.ioIn group (List.replicate count elem)
  else [Port.ioIn vector (.vector elem)]

/-- Type arguments are texts, labelled with the name of the parameter. -/
def typeArgPorts (typeParams : List String) : List Port :=
  typeParams.zipIdx.map fun (name, i) =>
    { Port.ioIn (indexed typeArgIn i) .string with label := some name }

def inputPorts (command : Command) : List Port :=
  match command with
  | splitCoins amounts =>
    Port.ioIn coinIn .anyObject ::
      numbered Port.ioIn amountIn (List.replicate (max amounts 1) (.integer .u64))
  | mergeCoins sources _ =>
    Port.ioIn destinationIn .anyObject ::
      groupPorts command.isExpanded sourceIn sourcesIn (max sources 1) .anyObject
  | transferObjects objects _ =>
    groupPorts command.isExpanded objectIn objectsIn (max objects 1) .anyObject ++
      [Port.ioIn recipientIn .address]
  | makeMoveVec elem elems _ => groupPorts command.isExpanded elemIn elemsIn elems elem
  | moveCall call => typeArgPorts call.typeParams ++ numbered Port.ioIn argIn call.params
  | publish _ _ => []
  | upgrade _ _ _ => [Port.ioIn ticketIn (.objectOf upgradeTicketTag)]

def outputPorts : Command → List Port
  | splitCoins amounts => numbered Port.ioOut coinOut (List.replicate (max amounts 1) .anyObject)
  | mergeCoins _ _ => []
  | transferObjects _ _ => []
  | makeMoveVec elem _ _ => [Port.ioOut vectorOut (.vector elem)]
  | moveCall call => numbered Port.ioOut returnOut call.returns
  | publish _ _ => [Port.ioOut upgradeCapOut (.objectOf upgradeCapTag)]
  | upgrade _ _ _ => [Port.ioOut receiptOut (.objectOf upgradeReceiptTag)]

/-- The flow ports, then the inputs, then the outputs. -/
def ports (command : Command) : List Port :=
  Port.flowIn :: Port.flowOut :: (command.inputPorts ++ command.outputPorts)

end Command

end TxGraph
