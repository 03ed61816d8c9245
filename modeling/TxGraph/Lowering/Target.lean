import TxGraph.Address
import TxGraph.Json.Record
import TxGraph.Program.Basic
import TxGraph.Pure.Error

/-!
# Targets of lowering

A program is lowered by one walk that drives a target: a transaction builder, or a writer of
script. The target sees resolved values only, so two targets of one program see the same calls.
-/

namespace TxGraph

/-- Settings of a transaction that a program leaves open. -/
structure ExecOptions where
  sender : Option String
  gasBudget : Option UInt64
  deriving DecidableEq, Repr, Inhabited

namespace ExecOptions

def toJson (o : ExecOptions) : Json :=
  .obj [("sender", Json.ofOption .str o.sender),
    ("gasBudget", Json.ofOption (fun b : UInt64 => .nat b.toNat) o.gasBudget)]

def ofJson? (j : Json) : Option ExecOptions := do
  let [sender, budget] ← j.fields? ["sender", "gasBudget"] | none
  return {
    sender := ← Json.nullable Json.string? sender
    gasBudget := ← Json.nullable (fun j => j.word64?.map UInt64.ofNat) budget }

end ExecOptions

/-- Where in a program something happens. -/
structure Site where
  op : Nat
  kind : CommandKind
  deriving DecidableEq, Repr

/-- The place of an operand in its operation. -/
structure Slot where
  name : String
  index : Option Nat
  deriving DecidableEq, Repr

namespace Slot

def of (name : String) : Slot := ⟨name, none⟩

def nth (name : String) (index : Nat) : Slot := ⟨name, some index⟩

def display (s : Slot) : String :=
  match s.index with
  | none => s.name
  | some i => s.name ++ "_" ++ toString i

end Slot

/-- What an operation asks of an operand. -/
inductive Expected
  | handle
  | vector
  | typeName
  deriving DecidableEq, Repr

def Expected.name : Expected → String
  | handle => "an object or command result"
  | vector => "a vector"
  | typeName => "a Move type name"

inductive LowerError
  | unresolvedSymbol (site : Site) (symbol : String)
  | undefinedOperand (site : Site) (slot : Slot)
  | operandShape (site : Site) (slot : Slot) (expected : Expected)
  | missingSender
  | invalidSender (text : String)
  | encode (site : Site) (cause : EncodeError)
  /-- The value of a variable leads back to itself, so it has no end. -/
  | circular (site : Site) (symbol : String)
  /-- The address of a package cannot be normalized. -/
  | uncut (cause : Address.Uncut)
  deriving DecidableEq, Repr

namespace LowerError

def atSite (s : Site) : String :=
  "Operation #" ++ toString s.op ++ " (" ++ s.kind.name ++ ")"

def message : LowerError → String
  | unresolvedSymbol site symbol =>
    atSite site ++ " references unknown symbol '" ++ symbol ++ "'"
  | undefinedOperand site slot =>
    atSite site ++ " has no value for its " ++ slot.display ++ " operand"
  | operandShape site slot expected =>
    atSite site ++ " expects a " ++ expected.name ++ " in its " ++ slot.display ++ " operand"
  | missingSender =>
    "The program uses the sender placeholder but no sender address was supplied"
  | invalidSender text => "Sender '" ++ text ++ "' is not a valid address"
  | encode site cause => atSite site ++ ": " ++ cause.message
  | circular site symbol => atSite site ++ " needs symbol '" ++ symbol ++ "' for its own value"
  | uncut cause => cause.message

end LowerError

/-- Why a target refuses a call. -/
inductive Refusal
  | encode (cause : EncodeError)
  | uncut (cause : Address.Uncut)
  deriving DecidableEq, Repr

/-- The function that a call names. -/
structure Callee where
  package : String
  module : String
  function : String
  typeArgs : List String
  deriving DecidableEq, Repr

/-- What a target does with each call: from its state to the handles of the results and its next
state. Names are those of the variable or of the results, where they have one. -/
structure Target (σ η : Type) where
  object : ObjectRef → (symbol : Option String) → σ → Except Refusal (η × σ)
  pure : ParamKind → Literal → (symbol : Option String) → σ → Except Refusal (η × σ)
  splitCoins : (coin : η) → (amounts : List η) → (out : List String) → σ →
    Except Refusal (List η × σ)
  mergeCoins : (destination : η) → (sources : List η) → σ → Except Refusal (Unit × σ)
  transferObjects : (objects : List η) → (recipient : η) → σ → Except Refusal (Unit × σ)
  makeMoveVec : (elem : Option String) → (elems : List η) → (out : Option String) → σ →
    Except Refusal (η × σ)
  moveCall : Callee → (args : List η) → (out : List String) → σ → Except Refusal (List η × σ)
  publish : (modules dependencies : List String) → (out : String) → σ → Except Refusal (η × σ)
  upgrade : (modules dependencies : List String) → (package : String) → (ticket : η) →
    (out : String) → σ → Except Refusal (η × σ)

end TxGraph
