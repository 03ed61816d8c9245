import TxGraph.Command.Basic

/-!
# Commands in JSON

A command is a record tagged with its kind. Parameters that are left out have their initial value.
-/

namespace TxGraph

namespace MoveCall

def fieldsToJson (c : MoveCall) : List (String × Json) :=
  [("package", .str c.package), ("module", .str c.module), ("function", .str c.function),
   ("typeParams", .strs c.typeParams), ("params", .arr (c.params.map DataType.toJson)),
   ("returns", .arr (c.returns.map DataType.toJson))]

def ofRecord? (record : Json) : Option MoveCall := do
  let [package, module, function, typeParams, params, returns] ←
    record.fields? ["package", "module", "function", "typeParams", "params", "returns"] | none
  let types := Json.list? (DataType.ofJson? true)
  return {
    package := ← Json.required Json.string? package
    module := ← Json.required Json.string? module
    function := ← Json.required Json.string? function
    typeParams := ← Json.withDefault [] Json.strings? typeParams
    params := ← Json.withDefault [] types params
    returns := ← Json.withDefault [] types returns }

end MoveCall

namespace Command

def fieldsToJson : Command → List (String × Json)
  | splitCoins amounts => [("amountsCount", .nat amounts)]
  | mergeCoins sources expanded =>
    [("sourcesCount", .nat sources), ("sourcesExpanded", .bool expanded)]
  | transferObjects objects expanded =>
    [("objectsCount", .nat objects), ("objectsExpanded", .bool expanded)]
  | makeMoveVec elem elems expanded =>
    [("elemType", elem.toJson), ("elemsCount", .nat elems), ("elemsExpanded", .bool expanded)]
  | moveCall call => call.fieldsToJson
  | publish modules dependencies =>
    [("modules", .strs modules), ("dependencies", .strs dependencies)]
  | upgrade modules dependencies package =>
    [("modules", .strs modules), ("dependencies", .strs dependencies), ("package", .str package)]

def toJson (command : Command) : Json :=
  .obj (("kind", .str command.kind.name) :: command.fieldsToJson)

/-- A group of inputs: how many there are, and whether they have a port each. -/
def groupOf? (count : Nat) (keys : List String) (record : Json) : Option (Nat × Bool) := do
  let [size, expanded] ← record.fields? keys | none
  return (← Json.withDefault count Json.word64? size, ← Json.withDefault true Json.bool? expanded)

def ofRecord? (record : Json) : CommandKind → Option Command
  | .splitCoins => do
    let [amounts] ← record.fields? ["amountsCount"] | none
    return splitCoins (← Json.withDefault 2 Json.word64? amounts)
  | .mergeCoins => do
    let (sources, expanded) ← groupOf? 2 ["sourcesCount", "sourcesExpanded"] record
    return mergeCoins sources expanded
  | .transferObjects => do
    let (objects, expanded) ← groupOf? 1 ["objectsCount", "objectsExpanded"] record
    return transferObjects objects expanded
  | .makeMoveVec => do
    let [elem, elems, expanded] ← record.fields? ["elemType", "elemsCount", "elemsExpanded"] | none
    return makeMoveVec (← Json.withDefault .anyObject (DataType.ofJson? true) elem)
      (← Json.withDefault 2 Json.word64? elems) (← Json.withDefault true Json.bool? expanded)
  | .moveCall => (MoveCall.ofRecord? record).map moveCall
  | .publish => do
    let [modules, dependencies] ← record.fields? ["modules", "dependencies"] | none
    return publish (← Json.withDefault [] Json.strings? modules)
      (← Json.withDefault [] Json.strings? dependencies)
  | .upgrade => do
    let [modules, dependencies, package] ←
      record.fields? ["modules", "dependencies", "package"] | none
    return upgrade (← Json.withDefault [] Json.strings? modules)
      (← Json.withDefault [] Json.strings? dependencies) (← Json.required Json.string? package)

def ofJson? (inner : Bool) (j : Json) : Option Command := do
  let (kind, record) ← j.variant? inner "kind" (CommandKind.all.map CommandKind.name)
  ofRecord? record (← CommandKind.ofName? kind)

end Command

end TxGraph
