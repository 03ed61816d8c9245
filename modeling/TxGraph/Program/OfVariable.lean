import TxGraph.Address
import TxGraph.Graph.Basic
import TxGraph.Json.Printer
import TxGraph.Program.Basic

/-!
# Values of variables

What a variable of a graph contributes to a program: usually a value of its type under a name; but
some variables stand for the sender or for an object that a transaction reaches in a way of its
own, and these take the place of the variable wherever it is used.
-/

namespace TxGraph

/-! ## Values of variables -/

namespace Operand

/-- The text of a value: a string as it is, anything else as JSON. -/
def textOf : Json → String
  | .str s => s
  | j => j.compact

def trimmedText (j : Json) : String :=
  Text.trim (textOf j)

/-- The bytes of a text that consists of a mark and hexadecimal digits. -/
def hexBytes? (s : String) : Option Bytes :=
  match s.toList with
  | '0' :: 'x' :: digits => Hex.decodeChars digits
  | _ => none

/-- A value without a declared type. Hexadecimal texts are bytes. -/
def infer : Json → Operand
  | .bool b => constant (.bool b)
  | .int n => constant (.number (Json.int n).compact)
  | .float x => constant (.number (Json.float x).compact)
  | .str s =>
    match hexBytes? s with
    | some bs => constant (.bytes bs)
    | none => constant (.string s)
  | .arr items => vector (inferAll items)
  | .null => absent
  | .obj _ => absent
where
  inferAll : List Json → List Operand
    | [] => []
    | item :: rest => infer item :: inferAll rest

/-- A truth value, which may be written as a text. -/
def boolOf : Json → Operand
  | .bool b => constant (.bool b)
  | .str s =>
    match Text.lowerAscii s with
    | "true" => constant (.bool true)
    | "false" => constant (.bool false)
    | _ => absent
  | _ => absent

def objectOf : Json → Operand
  | .str s =>
    let id := Text.trim s
    if id.isEmpty then absent else object (.byId id)
  | _ => absent

/-- The value of a variable at its type. What has no form of that type is undefined. -/
def ofValue : DataType → Json → Operand
  | _, .null => absent
  | .scalar .bool, j => boolOf j
  | .scalar .string, j => constant (.string (textOf j))
  | .scalar .address, j => constant (.address (trimmedText j))
  | .scalar .number, j => constant (.number (trimmedText j))
  | .integer width, j => integer width (trimmedText j)
  | .object tag, j =>
    if tag = some DataType.idTag then constant (.address (trimmedText j)) else objectOf j
  | .vector elem, .arr items => vector (items.map (ofValue elem))
  | .vector _, _ => absent
  | .unknown, j => infer j
  | .tuple _, _ => absent
  | .typeParam _, _ => absent

end Operand

/-! ## Variables with a meaning of their own -/

namespace Variable

/-- Names and values that mean the sender. -/
def senderWords : List String :=
  ["myaddress", "my_address", "sender", "wallet"]

def isSenderWord (s : String) : Bool :=
  senderWords.contains (Text.lowerAscii (Text.trim s))

def meansSender (v : Variable) : Bool :=
  isSenderWord v.name || (v.value.bind Json.string?).any isSenderWord

def systemStateTag : String := "0x3::sui_system::SuiSystemState"

def clockTag : String := "0x2::clock::Clock"

def randomTag : String := "0x2::random::Random"

def objectByTag? (tag : String) : Option ObjectRef :=
  if tag = systemStateTag then some .system
  else if tag = clockTag then some .clock
  else if tag = randomTag then some .random
  else none

def objectByName? (name : String) : Option ObjectRef :=
  match Text.lowerAscii (Text.trim name) with
  | "gas" => some .gas
  | "gas_coin" => some .gas
  | "gascoin" => some .gas
  | "clock" => some .clock
  | "system" => some .system
  | "sui_system" => some .system
  | "random" => some .random
  | _ => none

/-- The shared object of an id. -/
def objectById (id : String) : Except Address.Uncut (Option ObjectRef) := do
  let id ← Address.normalize id
  return [ObjectRef.system, .clock, .random].find? fun o =>
    (o.systemId?.bind fun known => (Address.normalize known).toOption) == some id

/-- The special object that a variable of an object type stands for. A value decides alone; without
one the type decides, then the name. -/
def specialObject (v : Variable) (tag : Option String) : Except Address.Uncut (Option ObjectRef) :=
  match v.value.bind Json.string? with
  | some s =>
    let value := Text.trim s
    if Text.lowerAscii value = "gas" then .ok (some .gas)
    else if !value.isEmpty then objectById value
    else .ok ((tag.bind objectByTag?).or (objectByName? v.name))
  | none => .ok ((tag.bind objectByTag?).or (objectByName? v.name))

/-- The operand that takes the place of a variable everywhere, if it has a meaning of its own. -/
def inlined (v : Variable) : Except Address.Uncut (Option Operand) := do
  match v.type with
  | .object tag =>
    if tag = some DataType.idTag then return none
    else return (← v.specialObject tag).map .object
  | .scalar .address => return if v.meansSender then some (.constant .sender) else none
  | _ => return none

/-- The value with which the variable is declared. -/
def initial (v : Variable) : Operand :=
  match v.value with
  | some j => .ofValue v.type j
  | none => .absent

end Variable

end TxGraph
