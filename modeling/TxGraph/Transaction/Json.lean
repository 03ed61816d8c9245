import TxGraph.Bytes.Base64
import TxGraph.Json.Printer
import TxGraph.Json.Reader
import TxGraph.Json.Record
import TxGraph.Transaction.Basic

/-!
# Transactions in JSON

Inputs, arguments and commands are records tagged with their type. Bytes are base64. A command of
an unknown type is read as unsupported.
-/

namespace TxGraph

namespace TxInput

def toJson : TxInput → Json
  | pure type bytes =>
    .obj (("type", .str "Pure") :: Json.optional "value_type" .str type ++
      [("bytes", .str (Base64.encode bytes))])
  | object id => .obj [("type", .str "Object"), ("object_id", .str id)]

def bytes? (j : Json) : Option Bytes :=
  j.string?.bind Base64.decode?

def ofJson? (j : Json) : Option TxInput := do
  let (kind, record) ← j.variant? false "type" ["Pure", "Object"]
  match kind with
  | "Pure" =>
    let [type, bytes] ← record.fields? ["value_type", "bytes"] | none
    return pure (← Json.nullable Json.string? type) (← Json.required bytes? bytes)
  | _ =>
    let [id] ← record.fields? ["object_id"] | none
    return object (← Json.required Json.string? id)

end TxInput

namespace TxArg

def toJson : TxArg → Json
  | gasCoin => .obj [("type", .str "GasCoin")]
  | input index => .obj [("type", .str "Input"), ("index", .nat index.toNat)]
  | result index => .obj [("type", .str "Result"), ("index", .nat index.toNat)]
  | nested index nth =>
    .obj [("type", .str "NestedResult"), ("index", .nat index.toNat),
      ("result_index", .nat nth.toNat)]

def index? (j : Json) : Option UInt16 :=
  j.word16?.map UInt16.ofNat

def ofJson? (inner : Bool) (j : Json) : Option TxArg := do
  let (kind, record) ← j.variant? inner "type" ["GasCoin", "Input", "Result", "NestedResult"]
  match kind with
  | "GasCoin" => if record.isEmptyRecord then some gasCoin else none
  | "Input" =>
    let [index] ← record.fields? ["index"] | none
    return input (← Json.required index? index)
  | "Result" =>
    let [index] ← record.fields? ["index"] | none
    return result (← Json.required index? index)
  | _ =>
    let [index, nth] ← record.fields? ["index", "result_index"] | none
    return nested (← Json.required index? index) (← Json.required index? nth)

def listToJson (args : List TxArg) : Json :=
  .arr (args.map toJson)

/-- The arguments of a command. -/
def listOfJson? : Json → Option (List TxArg) :=
  Json.list? (ofJson? true)

end TxArg

namespace TxCommand

def fieldsToJson : TxCommand → List (String × Json)
  | moveCall package module function typeArgs args =>
    [("package", .str package), ("module", .str module), ("function", .str function),
     ("type_arguments", .strs typeArgs), ("arguments", TxArg.listToJson args)]
  | splitCoins coin amounts => [("coin", coin.toJson), ("amounts", TxArg.listToJson amounts)]
  | mergeCoins destination sources =>
    [("destination", destination.toJson), ("sources", TxArg.listToJson sources)]
  | transferObjects objects recipient =>
    [("objects", TxArg.listToJson objects), ("address", recipient.toJson)]
  | makeMoveVec elem elems =>
    [("type_arg", Json.ofOption .str elem), ("elements", TxArg.listToJson elems)]
  | publish modules dependencies =>
    [("modules", .strs modules), ("dependencies", .strs dependencies)]
  | upgrade modules dependencies package ticket =>
    [("modules", .strs modules), ("dependencies", .strs dependencies), ("package", .str package),
     ("ticket", ticket.toJson)]
  | unsupported => []

def toJson (c : TxCommand) : Json :=
  .obj (("type", .str c.name) :: c.fieldsToJson)

def ofRecord? (kind : String) (record : Json) : Option TxCommand := do
  let arg := Json.required (TxArg.ofJson? true)
  let args := Json.required TxArg.listOfJson?
  let texts := Json.required Json.strings?
  match kind with
  | "MoveCall" =>
    let [package, module, function, typeArgs, arguments] ←
      record.fields? ["package", "module", "function", "type_arguments", "arguments"] | none
    return moveCall (← Json.required Json.string? package) (← Json.required Json.string? module)
      (← Json.required Json.string? function) (← Json.withDefault [] Json.strings? typeArgs)
      (← Json.withDefault [] TxArg.listOfJson? arguments)
  | "SplitCoins" =>
    let [coin, amounts] ← record.fields? ["coin", "amounts"] | none
    return splitCoins (← arg coin) (← args amounts)
  | "MergeCoins" =>
    let [destination, sources] ← record.fields? ["destination", "sources"] | none
    return mergeCoins (← arg destination) (← args sources)
  | "TransferObjects" =>
    let [objects, recipient] ← record.fields? ["objects", "address"] | none
    return transferObjects (← args objects) (← arg recipient)
  | "MakeMoveVec" =>
    let [elem, elems] ← record.fields? ["type_arg", "elements"] | none
    return makeMoveVec (← Json.nullable Json.string? elem) (← args elems)
  | "Publish" =>
    let [modules, dependencies] ← record.fields? ["modules", "dependencies"] | none
    return publish (← texts modules) (← Json.withDefault [] Json.strings? dependencies)
  | "Upgrade" =>
    let [modules, dependencies, package, ticket] ←
      record.fields? ["modules", "dependencies", "package", "ticket"] | none
    return upgrade (← texts modules) (← Json.withDefault [] Json.strings? dependencies)
      (← Json.required Json.string? package) (← arg ticket)
  | _ => if record.isEmptyRecord then some unsupported else none

def ofJson? (j : Json) : Option TxCommand := do
  let (tag, record) ← j.tagged? "type"
  ofRecord? (← tag.string?) record

end TxCommand

namespace Transaction

def budgetToJson (budget : UInt64) : Json :=
  .nat budget.toNat

def budget? (j : Json) : Option UInt64 :=
  j.word64?.map UInt64.ofNat

def toJson (t : Transaction) : Json :=
  .obj (Json.optional "sender" .str t.sender ++ Json.optional "gas_budget" budgetToJson t.gasBudget ++
    [("inputs", .arr (t.inputs.map TxInput.toJson)),
     ("commands", .arr (t.commands.map TxCommand.toJson))])

def keys : List String :=
  ["sender", "gas_budget", "inputs", "commands"]

def ofJson? (j : Json) : Option Transaction := do
  let [sender, budget, inputs, commands] ← j.fields? keys | none
  return {
    sender := ← Json.nullable Json.string? sender
    gasBudget := ← Json.nullable budget? budget
    inputs := ← Json.withDefault [] (Json.list? TxInput.ofJson?) inputs
    commands := ← Json.withDefault [] (Json.list? TxCommand.ofJson?) commands }

def shape : Json.Shape :=
  .record (keys.map fun key => (key, .whole))

/-- The transaction as text. -/
def toText (t : Transaction) : String :=
  t.toJson.pretty

/-- Reads the text of a transaction. -/
def ofText? (s : String) : Option Transaction :=
  (Json.parseAs? shape s).bind ofJson?

end Transaction

end TxGraph
