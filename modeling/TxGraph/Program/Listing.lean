import TxGraph.Bytes.Hex
import TxGraph.Program.Basic
import TxGraph.Text.Quoted

/-!
# Program listings

A program as a reader sees it: a line for each variable, then a numbered line for each operation.
-/

namespace TxGraph

def Constant.display : Constant → String
  | bool b => if b then "true" else "false"
  | string s => Text.quoted s
  | address a => "@" ++ a
  | number digits => digits
  | sender => "@myAddress"
  | bytes bs => "0x" ++ Hex.encode bs

def ObjectRef.display : ObjectRef → String
  | byId id => "object(" ++ id ++ ")"
  | gas => "gas"
  | system => "system"
  | clock => "clock"
  | random => "random"

def Operand.display : Operand → String
  | absent => "undef"
  | ref name => "$" ++ name
  | constant c => c.display
  | integer width digits => digits ++ width.name
  | object o => o.display
  | vector items => "[" ++ ", ".intercalate (displayAll items) ++ "]"
where
  displayAll : List Operand → List String
    | [] => []
    | item :: rest => item.display :: displayAll rest

/-- Operands with commas between them. -/
def Operand.displayList (operands : List Operand) : String :=
  ", ".intercalate (operands.map Operand.display)

def Group.display : Group → String
  | each values => "(" ++ Operand.displayList values ++ ")"
  | packed value => value.display ++ ".."

def Argument.display (a : Argument) : String :=
  a.value.display ++ ": " ++ a.kind.display

namespace Operation

/-- The names on the left of a line with any number of results. -/
def bindingList : List String → String
  | [] => ""
  | out => "[" ++ ", ".intercalate (out.map fun name => "$" ++ name) ++ "] = "

def display : Operation → String
  | splitCoins coin amounts out =>
    bindingList out ++ "splitCoins " ++ coin.display ++ " (" ++ Operand.displayList amounts ++ ")"
  | mergeCoins destination sources =>
    "mergeCoins " ++ destination.display ++ " <- " ++ sources.display
  | transferObjects objects recipient =>
    "transferObjects " ++ objects.display ++ " -> " ++ recipient.display
  | makeMoveVec elem elems out =>
    "$" ++ out ++ " = makeMoveVec<" ++ elem.getD "object" ++ "> " ++ elems.display
  | moveCall package module function typeArgs args out =>
    bindingList out ++ "moveCall " ++ package ++ "::" ++ module ++ "::" ++ function ++
      (if typeArgs.isEmpty then "" else "<" ++ Operand.displayList typeArgs ++ ">") ++
      "(" ++ ", ".intercalate (args.map Argument.display) ++ ")"
  | publish modules dependencies out =>
    "$" ++ out ++ " = publish " ++ toString modules.length ++ " modules, " ++
      toString dependencies.length ++ " deps"
  | upgrade modules _ package ticket out =>
    "$" ++ out ++ " = upgrade " ++ package ++ " with " ++ ticket.display ++ " (" ++
      toString modules.length ++ " modules)"

end Operation

namespace Program

/-- A number in at least four digits. -/
def fourDigits (n : Nat) : String :=
  let digits := Nat.toDigits 10 n
  String.ofList (List.replicate (4 - digits.length) '0' ++ digits)

def varLine (v : Binding) : String :=
  "$" ++ v.name ++ " = " ++ v.init.display ++ "\n"

def opLine (op : Operation) (index : Nat) : String :=
  fourDigits index ++ ": " ++ op.display ++ "\n"

def listing (p : Program) : String :=
  "--- VARS ---\n" ++ String.join (p.vars.map varLine) ++ "--- OPS ---\n" ++
    String.join (p.ops.zipIdx.map fun (op, i) => opLine op i)

end Program

end TxGraph
