import TxGraph.DataType.Basic

/-!
# Parameter kinds

The class of a call parameter decides how a value is put on the wire. It is read off the declared
type alone, so a literal and a reference of one declared type are treated alike.
-/

namespace TxGraph

inductive ParamKind
  | address
  | bool
  /-- An object id that is passed by value. -/
  | id
  | string
  | integer (width : Width)
  | vector (elem : ParamKind)
  /-- An object or a command result, passed as it is. -/
  | handle
  /-- No declared type to go by. -/
  | other
  deriving DecidableEq, Repr, Inhabited

namespace ParamKind

/-- A vector of objects or results is passed as it is, and one of undeclared elements is
undeclared. -/
def vectorOf : ParamKind → ParamKind
  | handle => handle
  | other => other
  | elem => vector elem

def ofType : DataType → ParamKind
  | .scalar .address => address
  | .scalar .bool => bool
  | .scalar .string => string
  | .scalar .number => integer .u64
  | .integer width => integer width
  | .object tag => if tag = some DataType.idTag then id else handle
  | .vector elem => vectorOf (ofType elem)
  | .tuple _ => other
  | .typeParam _ => other
  | .unknown => other

/-- Whether values of this kind are encoded into a pure input. -/
def isPure : ParamKind → Bool
  | handle => false
  | other => false
  | _ => true

/-- The Move type that is recorded with the bytes of a pure value. -/
def pureType? : ParamKind → Option String
  | address => some "address"
  | bool => some "bool"
  | id => some DataType.idTag
  | string => some DataType.stringTag
  | integer width => some width.name
  | vector elem => elem.pureType?.map fun e => "vector<" ++ e ++ ">"
  | handle => none
  | other => none

def display : ParamKind → String
  | address => "address"
  | bool => "bool"
  | id => "id"
  | string => "string"
  | integer width => width.name
  | vector elem => "vector<" ++ elem.display ++ ">"
  | handle => "txarg"
  | other => "other"

end ParamKind

end TxGraph
