import TxGraph.Pure.Json
import TxGraph.Program.Basic

/-!
# Programs in JSON

An alternative with data is an object with one member, named for the alternative; one without data
is a word.
-/

namespace TxGraph

/-- The fields of an alternative, which are always written as an object. -/
def Json.payload? (keys : List String) : Json → Option (List (Option Json))
  | .obj members => (Json.obj members).fields? keys
  | _ => none

def Json.byte? (j : Json) : Option UInt8 :=
  (j.natUpTo? 255).map UInt8.ofNat

namespace Constant

def toJson : Constant → Json
  | bool b => .obj [("Bool", .bool b)]
  | string s => .obj [("String", .str s)]
  | address s => .obj [("Address", .str s)]
  | number digits => .obj [("Number", .str digits)]
  | sender => .str "MyAddress"
  | bytes bs => .obj [("Bytes", .arr (bs.map fun b => .nat b.toNat))]

def ofJson? : Json → Option Constant
  | .str "MyAddress" => some sender
  | .obj [("MyAddress", .null)] => some sender
  | .obj [("Bool", .bool b)] => some (bool b)
  | .obj [("String", .str s)] => some (string s)
  | .obj [("Address", .str s)] => some (address s)
  | .obj [("Number", .str s)] => some (number s)
  | .obj [("Bytes", bs)] => (bs.list? Json.byte?).map bytes
  | _ => none

end Constant

namespace ObjectRef

def toJson : ObjectRef → Json
  | byId id => .obj [("Id", .str id)]
  | gas => .str "Gas"
  | system => .str "System"
  | clock => .str "Clock"
  | random => .str "Random"

def ofWord? : String → Option ObjectRef
  | "Gas" => some gas
  | "System" => some system
  | "Clock" => some clock
  | "Random" => some random
  | _ => none

def ofJson? : Json → Option ObjectRef
  | .obj [("Id", .str id)] => some (byId id)
  | j => (j.word? false).bind ofWord?

end ObjectRef

namespace Operand

def toJson : Operand → Json
  | absent => .str "Undef"
  | ref name => .obj [("Ref", .str name)]
  | constant c => .obj [("Scalar", c.toJson)]
  | integer width digits =>
    .obj [("MoveNumeric", .obj [("width", width.toJson), ("value", .str digits)])]
  | object o => .obj [("Object", o.toJson)]
  | vector items => .obj [("Vector", .arr (allToJson items))]
where
  allToJson : List Operand → List Json
    | [] => []
    | item :: rest => item.toJson :: allToJson rest

def ofJson? : Json → Option Operand
  | .str "Undef" => some absent
  | .obj [("Undef", .null)] => some absent
  | .obj [("Ref", .str name)] => some (ref name)
  | .obj [("Scalar", c)] => (Constant.ofJson? c).map constant
  | .obj [("MoveNumeric", record)] => do
    let [width, digits] ← record.payload? ["width", "value"] | none
    return integer (← Json.required (Width.ofJson? false) width)
      (← Json.required Json.string? digits)
  | .obj [("Object", o)] => (ObjectRef.ofJson? o).map object
  | .obj [("Vector", .arr items)] => (allOfJson? items).map vector
  | _ => none
where
  allOfJson? : List Json → Option (List Operand)
    | [] => some []
    | item :: rest => do
      let item ← ofJson? item
      let rest ← allOfJson? rest
      return item :: rest

def listToJson (operands : List Operand) : Json :=
  .arr (operands.map toJson)

def listOfJson? : Json → Option (List Operand) :=
  Json.list? ofJson?

end Operand

namespace Group

def toJson : Group → Json
  | each values => .obj [("Expanded", Operand.listToJson values)]
  | packed value => .obj [("Vector", value.toJson)]

def ofJson? : Json → Option Group
  | .obj [("Expanded", values)] => (Operand.listOfJson? values).map each
  | .obj [("Vector", value)] => (Operand.ofJson? value).map packed
  | _ => none

end Group

namespace Argument

def toJson (a : Argument) : Json :=
  .obj [("value", a.value.toJson), ("kind", a.kind.toJson)]

def ofJson? (j : Json) : Option Argument := do
  let [value, kind] ← j.fields? ["value", "kind"] | none
  return ⟨← Json.required Operand.ofJson? value, ← Json.required ParamKind.ofJson? kind⟩

end Argument

namespace Operation

def toJson : Operation → Json
  | splitCoins coin amounts out =>
    .obj [("SplitCoins", .obj [("coin", coin.toJson), ("amounts", Operand.listToJson amounts),
      ("out", .strs out)])]
  | mergeCoins destination sources =>
    .obj [("MergeCoins", .obj [("destination", destination.toJson), ("sources", sources.toJson)])]
  | transferObjects objects recipient =>
    .obj [("TransferObjects",
      .obj [("objects", objects.toJson), ("recipient", recipient.toJson)])]
  | makeMoveVec elem elems out =>
    .obj [("MakeMoveVec", .obj [("elem_type", Json.ofOption .str elem), ("elems", elems.toJson),
      ("out", .str out)])]
  | moveCall package module function typeArgs args out =>
    .obj [("MoveCall", .obj [("package", .str package), ("module", .str module),
      ("function", .str function), ("type_args", Operand.listToJson typeArgs),
      ("args", .arr (args.map Argument.toJson)), ("out", .strs out)])]
  | publish modules dependencies out =>
    .obj [("Publish", .obj [("modules", .strs modules), ("dependencies", .strs dependencies),
      ("out", .str out)])]
  | upgrade modules dependencies package ticket out =>
    .obj [("Upgrade", .obj [("modules", .strs modules), ("dependencies", .strs dependencies),
      ("package", .str package), ("ticket", ticket.toJson), ("out", .str out)])]

def ofPayload? (name : String) (record : Json) : Option Operation := do
  match name with
  | "SplitCoins" =>
    let [coin, amounts, out] ← record.payload? ["coin", "amounts", "out"] | none
    return splitCoins (← Json.required Operand.ofJson? coin)
      (← Json.required Operand.listOfJson? amounts) (← Json.required Json.strings? out)
  | "MergeCoins" =>
    let [destination, sources] ← record.payload? ["destination", "sources"] | none
    return mergeCoins (← Json.required Operand.ofJson? destination)
      (← Json.required Group.ofJson? sources)
  | "TransferObjects" =>
    let [objects, recipient] ← record.payload? ["objects", "recipient"] | none
    return transferObjects (← Json.required Group.ofJson? objects)
      (← Json.required Operand.ofJson? recipient)
  | "MakeMoveVec" =>
    let [elem, elems, out] ← record.payload? ["elem_type", "elems", "out"] | none
    return makeMoveVec (← Json.nullable Json.string? elem) (← Json.required Group.ofJson? elems)
      (← Json.required Json.string? out)
  | "MoveCall" =>
    let [package, module, function, typeArgs, args, out] ←
      record.payload? ["package", "module", "function", "type_args", "args", "out"] | none
    return moveCall (← Json.required Json.string? package) (← Json.required Json.string? module)
      (← Json.required Json.string? function) (← Json.required Operand.listOfJson? typeArgs)
      (← Json.required (Json.list? Argument.ofJson?) args) (← Json.required Json.strings? out)
  | "Publish" =>
    let [modules, dependencies, out] ← record.payload? ["modules", "dependencies", "out"] | none
    return publish (← Json.required Json.strings? modules)
      (← Json.required Json.strings? dependencies) (← Json.required Json.string? out)
  | "Upgrade" =>
    let [modules, dependencies, package, ticket, out] ←
      record.payload? ["modules", "dependencies", "package", "ticket", "out"] | none
    return upgrade (← Json.required Json.strings? modules)
      (← Json.required Json.strings? dependencies) (← Json.required Json.string? package)
      (← Json.required Operand.ofJson? ticket) (← Json.required Json.string? out)
  | _ => none

def ofJson? : Json → Option Operation
  | .obj [(name, record)] => ofPayload? name record
  | _ => none

end Operation

namespace Binding

def toJson (v : Binding) : Json :=
  .obj [("name", .str v.name), ("init", v.init.toJson)]

def ofJson? (j : Json) : Option Binding := do
  let [name, init] ← j.fields? ["name", "init"] | none
  return ⟨← Json.required Json.string? name, ← Json.required Operand.ofJson? init⟩

end Binding

namespace Program

def toJson (p : Program) : Json :=
  .obj [("vars", .arr (p.vars.map Binding.toJson)), ("ops", .arr (p.ops.map Operation.toJson))]

def ofJson? (j : Json) : Option Program := do
  let [vars, ops] ← j.fields? ["vars", "ops"] | none
  return ⟨← Json.required (Json.list? Binding.ofJson?) vars,
    ← Json.required (Json.list? Operation.ofJson?) ops⟩

end Program

end TxGraph
