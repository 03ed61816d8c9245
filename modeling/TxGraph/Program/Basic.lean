import TxGraph.Bytes.Basic
import TxGraph.Command.Basic
import TxGraph.Pure.Kind

/-!
# Programs

The straight-line form of a graph: named variables, then operations in execution order. Operands
are literals, special objects, or references to a name bound by a variable or by an earlier
operation.
-/

namespace TxGraph

/-- A literal scalar. -/
inductive Constant
  | bool (b : Bool)
  | string (s : String)
  | address (s : String)
  /-- A decimal number whose width comes from where it is used. -/
  | number (digits : String)
  /-- The address of whoever sends the transaction. -/
  | sender
  /-- Encoded bytes of a type that is not known. -/
  | bytes (bs : Bytes)
  deriving DecidableEq, Repr, Inhabited

/-- An object: by id, or one of those that a transaction reaches in a way of its own. -/
inductive ObjectRef
  | byId (id : String)
  | gas
  | system
  | clock
  | random
  deriving DecidableEq, Repr, Inhabited

/-- The fixed id of a shared system object. -/
def ObjectRef.systemId? : ObjectRef → Option String
  | system => some "0x5"
  | clock => some "0x6"
  | random => some "0x8"
  | byId _ => none
  | gas => none

inductive Operand
  /-- Nothing is connected. -/
  | absent
  | ref (name : String)
  | constant (c : Constant)
  | integer (width : Width) (digits : String)
  | object (o : ObjectRef)
  | vector (items : List Operand)
  deriving Repr, Inhabited

namespace Operand

/-! ## Equality -/

mutual

def same : Operand → Operand → Bool
  | absent, absent => true
  | ref a, ref b => a == b
  | constant a, constant b => a == b
  | integer v a, integer w b => v == w && a == b
  | object a, object b => a == b
  | vector as, vector bs => sameAll as bs
  | _, _ => false

def sameAll : List Operand → List Operand → Bool
  | [], [] => true
  | a :: as, b :: bs => same a b && sameAll as bs
  | _, _ => false

end

mutual

theorem same_iff : (a b : Operand) → (same a b = true ↔ a = b)
  | absent, b => by cases b <;> simp [same]
  | ref _, b => by cases b <;> simp [same]
  | constant _, b => by cases b <;> simp [same]
  | integer _ _, b => by cases b <;> simp [same]
  | object _, b => by cases b <;> simp [same]
  | vector as, b => by cases b <;> simp [same, sameAll_iff as]

theorem sameAll_iff : (as bs : List Operand) → (sameAll as bs = true ↔ as = bs)
  | [], bs => by cases bs <;> simp [sameAll]
  | a :: as, bs => by cases bs <;> simp [sameAll, same_iff a, sameAll_iff as]

end

instance : DecidableEq Operand := fun a b => decidable_of_iff _ (same_iff a b)

/-! ## What an operand mentions -/

def isAbsent : Operand → Bool
  | absent => true
  | _ => false

/-- Whether the sender occurs, at any depth. -/
def usesSender : Operand → Bool
  | constant .sender => true
  | vector items => anyUsesSender items
  | _ => false
where
  anyUsesSender : List Operand → Bool
    | [] => false
    | item :: rest => item.usesSender || anyUsesSender rest

/-- The names referred to, at any depth, from left to right. -/
def refs : Operand → List String
  | ref name => [name]
  | vector items => allRefs items
  | _ => []
where
  allRefs : List Operand → List String
    | [] => []
    | item :: rest => item.refs ++ allRefs rest

end Operand

/-- The operands of variable number: one by one, or as one vector. -/
inductive Group
  | each (values : List Operand)
  | packed (value : Operand)
  deriving DecidableEq, Repr, Inhabited

def Group.operands : Group → List Operand
  | each values => values
  | packed value => [value]

/-- An argument of a call, with the kind of the parameter it is given to. -/
structure Argument where
  value : Operand
  kind : ParamKind
  deriving DecidableEq, Repr

inductive Operation
  | splitCoins (coin : Operand) (amounts : List Operand) (out : List String)
  | mergeCoins (destination : Operand) (sources : Group)
  | transferObjects (objects : Group) (recipient : Operand)
  /-- The element type is in Move's spelling, and absent for objects of any type. -/
  | makeMoveVec (elem : Option String) (elems : Group) (out : String)
  | moveCall (package module function : String) (typeArgs : List Operand) (args : List Argument)
    (out : List String)
  | publish (modules dependencies : List String) (out : String)
  | upgrade (modules dependencies : List String) (package : String) (ticket : Operand)
    (out : String)
  deriving DecidableEq, Repr

namespace Operation

def kind : Operation → CommandKind
  | splitCoins .. => .splitCoins
  | mergeCoins .. => .mergeCoins
  | transferObjects .. => .transferObjects
  | makeMoveVec .. => .makeMoveVec
  | moveCall .. => .moveCall
  | publish .. => .publish
  | upgrade .. => .upgrade

/-- Every operand, in the order of the ports. -/
def operands : Operation → List Operand
  | splitCoins coin amounts _ => coin :: amounts
  | mergeCoins destination sources => destination :: sources.operands
  | transferObjects objects recipient => objects.operands ++ [recipient]
  | makeMoveVec _ elems _ => elems.operands
  | moveCall _ _ _ typeArgs args _ => typeArgs ++ args.map Argument.value
  | publish .. => []
  | upgrade _ _ _ ticket _ => [ticket]

/-- The names that the operation binds. -/
def outputs : Operation → List String
  | splitCoins _ _ out => out
  | mergeCoins .. => []
  | transferObjects .. => []
  | makeMoveVec _ _ out => [out]
  | moveCall _ _ _ _ _ out => out
  | publish _ _ out => [out]
  | upgrade _ _ _ _ out => [out]

end Operation

/-- A named value. -/
structure Binding where
  name : String
  init : Operand
  deriving DecidableEq, Repr

structure Program where
  vars : List Binding
  ops : List Operation
  deriving DecidableEq, Repr, Inhabited

namespace Program

def empty : Program := ⟨[], []⟩

def var? (p : Program) (name : String) : Option Binding :=
  p.vars.find? fun v => v.name == name

def operands (p : Program) : List Operand :=
  p.ops.flatMap Operation.operands

/-- Whether the sender occurs anywhere. -/
def usesSender (p : Program) : Bool :=
  (p.vars.any fun v => v.init.usesSender) || p.operands.any Operand.usesSender

/-- Every bound name: the variables, then the outputs of the operations. -/
def symbols (p : Program) : List String :=
  p.vars.map Binding.name ++ p.ops.flatMap Operation.outputs

/-- The list with runs of equal entries reduced to one. -/
def squeeze : List String → List String
  | a :: b :: rest => if a = b then squeeze (b :: rest) else a :: squeeze (b :: rest)
  | short => short

/-- The names that operands refer to and nothing binds. -/
def danglingRefs (p : Program) : List String :=
  squeeze ((p.operands.flatMap Operand.refs).filter fun name => !p.symbols.contains name)

end Program

end TxGraph
