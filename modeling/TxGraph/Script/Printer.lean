import TxGraph.DataType.Move
import TxGraph.Json.Printer
import TxGraph.Script.Basic
import TxGraph.Text.Quoted

/-!
# The text of scripts
-/

namespace TxGraph.Script

open Text (singleQuoted)

def commaList (items : List String) : String :=
  "[" ++ ", ".intercalate items ++ "]"

/-! ## Pure values -/

/-- The name of a type for the helpers of pure values. -/
def typeName : DataType → String
  | .scalar .bool => "bool"
  | .scalar .string => "string"
  | .scalar .address => "address"
  | .scalar .number => "u64"
  | .integer width => width.name
  | .vector elem => "vector<" ++ typeName elem ++ ">"
  | type => if type = .objectOf DataType.idTag then "id" else type.display

/-- Integers that a number does not hold exactly are written as big integers. -/
def integerText (digits : String) : Width → String
  | .u8 => digits
  | .u16 => digits
  | .u32 => digits
  | _ => digits ++ "n"

/-- A value at its type. -/
def valueText : DataType → Json → String
  | .integer width, .str digits => integerText digits width
  | .vector elem, .arr items => commaList (items.map (valueText elem))
  | .scalar .address, .str address => singleQuoted address
  | .object _, .str id => singleQuoted id
  | _, value => value.compact

/-- The call that makes a pure value of the type that `spelling` names. -/
def pureText (spelling : String) (value : Json) : String :=
  let type := DataType.ofMove spelling
  match type with
  | .vector (.vector _) =>
    "tx.pure(" ++ singleQuoted (typeName type) ++ ", " ++ valueText type value ++ ")"
  | .vector elem =>
    "tx.pure.vector(" ++ singleQuoted (typeName elem) ++ ", " ++ valueText type value ++ ")"
  | _ => "tx.pure." ++ typeName type ++ "(" ++ valueText type value ++ ")"

/-! ## Lines -/

def Expr.text : Expr → String
  | name n => n
  | gas => "tx.gas"
  | object id => "tx.object(" ++ singleQuoted id ++ ")"
  | system => "tx.object.system()"
  | clock => "tx.object.clock()"
  | random => "tx.object.random()"
  | sender => "tx.pure.address(myAddress)"
  | pure type value => pureText type value
  | raw bytes => "tx.pure(fromHex('" ++ Hex.encode bytes ++ "'))"

def exprList (items : List Expr) : String :=
  commaList (items.map Expr.text)

/-- A record of named fields. -/
def recordText (fields : List (String × String)) : String :=
  "\x7b " ++ ", ".intercalate (fields.map fun (name, value) => name ++ ": " ++ value) ++ " \x7d"

def stringArray (items : List String) : String :=
  (Json.strs items).compact

def constText (name value : String) : String :=
  "const " ++ name ++ " = " ++ value ++ ";"

def callPath (package module function : String) : String :=
  package ++ "::" ++ module ++ "::" ++ function

def Line.text : Line → String
  | const name value => constText name value.text
  | splitCoins out coin amounts =>
    constText (commaList out) ("tx.splitCoins(" ++ coin.text ++ ", " ++ exprList amounts ++ ")")
  | mergeCoins destination sources =>
    "tx.mergeCoins(" ++ destination.text ++ ", " ++ exprList sources ++ ");"
  | transferObjects objects recipient =>
    "tx.transferObjects(" ++ exprList objects ++ ", " ++ recipient.text ++ ");"
  | makeMoveVec out elem elems =>
    constText out ("tx.makeMoveVec(" ++ recordText
      ((elem.map fun t => ("type", singleQuoted t)).toList ++ [("elements", exprList elems)]) ++
      ")")
  | moveCall out package module function typeArgs args =>
    let call := "tx.moveCall(" ++ recordText
      (("target", singleQuoted (callPath package module function)) ::
        (if typeArgs.isEmpty then []
          else [("typeArguments", commaList (typeArgs.map singleQuoted))]) ++
        [("arguments", exprList args)]) ++ ")"
    if out.isEmpty then call ++ ";" else constText (commaList out) call
  | publish out modules dependencies =>
    constText out ("tx.publish(" ++ recordText
      [("modules", stringArray modules), ("dependencies", stringArray dependencies)] ++ ")")
  | upgrade out modules dependencies package ticket =>
    constText out ("tx.upgrade(" ++ recordText
      [("modules", stringArray modules), ("dependencies", stringArray dependencies),
        ("package", singleQuoted package), ("ticket", ticket.text)] ++ ")")

/-! ## Modules -/

/-- The lines before the calls. -/
def preamble (s : Script) : List String :=
  ["import \x7b Transaction \x7d from '@mysten/sui/transactions';"] ++
  (if s.usesHex then ["import \x7b fromHex \x7d from '@mysten/sui/utils';"] else []) ++
  [""] ++
  (if s.declaresSender then ["declare const myAddress: string;", ""] else []) ++
  ["const tx = new Transaction();"] ++
  (s.sender.map fun sender => "tx.setSender('" ++ sender ++ "');").toList ++
  (s.gasBudget.map fun budget => "tx.setGasBudget(" ++ toString budget.toNat ++ ");").toList ++
  (if s.lines.isEmpty then [] else [""])

/-- The text, in lines that each end in a line feed. -/
def text (s : Script) : String :=
  String.join ((s.preamble ++ s.lines.map Line.text ++ ["", "export default tx;"]).map (· ++ "\n"))

end TxGraph.Script
