import TxGraph.Bytes.Varint
import TxGraph.Program.Basic

/-!
# Program artifacts

The binary form of a program. A record is its fields one after the other; an alternative is its
number, then its fields; texts and lists carry their length; an absent value is a zero byte. Bytes
after a program are ignored. No text is longer than the half of a word of eight bytes can count.
-/

namespace TxGraph.Artifact

/-! ## Writing -/

def writeText (s : String) : Bytes :=
  let bytes := Bytes.ofText s
  Varint.encode bytes.length ++ bytes

def writeList {α : Type} (write : α → Bytes) (items : List α) : Bytes :=
  Varint.encode items.length ++ items.flatMap write

def writeTexts : List String → Bytes :=
  writeList writeText

def writeOption {α : Type} (write : α → Bytes) : Option α → Bytes
  | none => [0]
  | some a => 1 :: write a

def widthNumber : Width → UInt8
  | .u8 => 0
  | .u16 => 1
  | .u32 => 2
  | .u64 => 3
  | .u128 => 4
  | .u256 => 5

def writeConstant : Constant → Bytes
  | .bool b => [0, if b then 1 else 0]
  | .string s => 1 :: writeText s
  | .address s => 2 :: writeText s
  | .number digits => 3 :: writeText digits
  | .sender => [4]
  | .bytes bs => 5 :: (Varint.encode bs.length ++ bs)

def writeObject : ObjectRef → Bytes
  | .byId id => 0 :: writeText id
  | .gas => [1]
  | .system => [2]
  | .clock => [3]
  | .random => [4]

def writeOperand : Operand → Bytes
  | .absent => [0]
  | .ref name => 1 :: writeText name
  | .constant c => 2 :: writeConstant c
  | .integer width digits => 3 :: widthNumber width :: writeText digits
  | .object o => 4 :: writeObject o
  | .vector items => 5 :: (Varint.encode items.length ++ writeOperands items)
where
  writeOperands : List Operand → Bytes
    | [] => []
    | item :: rest => writeOperand item ++ writeOperands rest

def writeGroup : Group → Bytes
  | .each values => 0 :: writeList writeOperand values
  | .packed value => 1 :: writeOperand value

def writeKind : ParamKind → Bytes
  | .address => [0]
  | .bool => [1]
  | .id => [2]
  | .string => [3]
  | .integer width => [4, widthNumber width]
  | .vector elem => 5 :: writeKind elem
  | .handle => [6]
  | .other => [7]

def writeArgument (a : Argument) : Bytes :=
  writeOperand a.value ++ writeKind a.kind

def writeOperation : Operation → Bytes
  | .splitCoins coin amounts out =>
    0 :: (writeOperand coin ++ writeList writeOperand amounts ++ writeTexts out)
  | .mergeCoins destination sources => 1 :: (writeOperand destination ++ writeGroup sources)
  | .transferObjects objects recipient => 2 :: (writeGroup objects ++ writeOperand recipient)
  | .makeMoveVec elem elems out =>
    3 :: (writeOption writeText elem ++ writeGroup elems ++ writeText out)
  | .moveCall package module function typeArgs args out =>
    4 :: (writeText package ++ writeText module ++ writeText function ++
      writeList writeOperand typeArgs ++ writeList writeArgument args ++ writeTexts out)
  | .publish modules dependencies out =>
    5 :: (writeTexts modules ++ writeTexts dependencies ++ writeText out)
  | .upgrade modules dependencies package ticket out =>
    6 :: (writeTexts modules ++ writeTexts dependencies ++ writeText package ++
      writeOperand ticket ++ writeText out)

def writeBinding (v : Binding) : Bytes :=
  writeText v.name ++ writeOperand v.init

/-! ## Reading -/

/-- Why bytes are not those of a program. -/
inductive Fault
  | malformed
  /-- A text says that it is longer than any text can be. -/
  | oversized (length : Nat)
  deriving DecidableEq, Repr

def Fault.message : Fault → String
  | malformed => "Deserialization failed"
  | oversized length => "No text has " ++ toString length ++ " bytes"

/-- Reads a value off the front of the bytes. -/
abbrev Reader (α : Type) := StateT Bytes (Except Fault) α

def refuse {α : Type} : Reader α :=
  fun _ => .error .malformed

/-- Reads what stands in front, if anything does. -/
def ofFront {α : Type} (front? : Bytes → Option (α × Bytes)) : Reader α :=
  fun bs =>
    match front? bs with
    | some result => .ok result
    | none => .error .malformed

def readByte : Reader UInt8
  | [] => .error .malformed
  | b :: rest => .ok (b, rest)

def readLength : Reader Nat := ofFront Varint.length?

def readAlternative : Reader Nat := ofFront Varint.alternative?

def readBytes (n : Nat) : Reader Bytes := ofFront (Bytes.take? n)

/-- The most bytes in a text. -/
def maxText : Nat := Word.max64 / 2

def readTextLength : Reader Nat := do
  let length ← readLength
  if maxText < length then throw (.oversized length)
  return length

def readText : Reader String := do
  let bytes ← readBytes (← readTextLength)
  match bytes.toText? with
  | some s => return s
  | none => refuse

/-- Reads `count` values. -/
def readMany {α : Type} (read : Reader α) : (count : Nat) → Reader (List α)
  | 0 => return []
  | count + 1 => do
    let item ← read
    let rest ← readMany read count
    return item :: rest

def readList {α : Type} (read : Reader α) : Reader (List α) := do
  readMany read (← readLength)

def readTexts : Reader (List String) :=
  readList readText

def readBool : Reader Bool := do
  match ← readByte with
  | 0 => return false
  | 1 => return true
  | _ => refuse

def readOption {α : Type} (read : Reader α) : Reader (Option α) := do
  match ← readByte with
  | 0 => return none
  | 1 => return some (← read)
  | _ => refuse

def readWidth : Reader Width := do
  match Width.all[← readAlternative]? with
  | some width => return width
  | none => refuse

def readConstant : Reader Constant := do
  match ← readAlternative with
  | 0 => return .bool (← readBool)
  | 1 => return .string (← readText)
  | 2 => return .address (← readText)
  | 3 => return .number (← readText)
  | 4 => return .sender
  | 5 => return .bytes (← readBytes (← readLength))
  | _ => refuse

def readObject : Reader ObjectRef := do
  match ← readAlternative with
  | 0 => return .byId (← readText)
  | 1 => return .gas
  | 2 => return .system
  | 3 => return .clock
  | 4 => return .random
  | _ => refuse

/-- Each level of nesting uses one unit of fuel. -/
def readOperand : (fuel : Nat) → Reader Operand
  | 0 => refuse
  | fuel + 1 => do
    match ← readAlternative with
    | 0 => return .absent
    | 1 => return .ref (← readText)
    | 2 => return .constant (← readConstant)
    | 3 =>
      let width ← readWidth
      return .integer width (← readText)
    | 4 => return .object (← readObject)
    | 5 => return .vector (← readList (readOperand fuel))
    | _ => refuse

def readGroup (fuel : Nat) : Reader Group := do
  match ← readAlternative with
  | 0 => return .each (← readList (readOperand fuel))
  | 1 => return .packed (← readOperand fuel)
  | _ => refuse

/-- Each level of nesting uses one unit of fuel. -/
def readKind : (fuel : Nat) → Reader ParamKind
  | 0 => refuse
  | fuel + 1 => do
    match ← readAlternative with
    | 0 => return .address
    | 1 => return .bool
    | 2 => return .id
    | 3 => return .string
    | 4 => return .integer (← readWidth)
    | 5 => return .vector (← readKind fuel)
    | 6 => return .handle
    | 7 => return .other
    | _ => refuse

def readArgument (fuel : Nat) : Reader Argument := do
  let value ← readOperand fuel
  return ⟨value, ← readKind fuel⟩

def readOperation (fuel : Nat) : Reader Operation := do
  match ← readAlternative with
  | 0 =>
    let coin ← readOperand fuel
    let amounts ← readList (readOperand fuel)
    return .splitCoins coin amounts (← readTexts)
  | 1 =>
    let destination ← readOperand fuel
    return .mergeCoins destination (← readGroup fuel)
  | 2 =>
    let objects ← readGroup fuel
    return .transferObjects objects (← readOperand fuel)
  | 3 =>
    let elem ← readOption readText
    let elems ← readGroup fuel
    return .makeMoveVec elem elems (← readText)
  | 4 =>
    let package ← readText
    let module ← readText
    let function ← readText
    let typeArgs ← readList (readOperand fuel)
    let args ← readList (readArgument fuel)
    return .moveCall package module function typeArgs args (← readTexts)
  | 5 =>
    let modules ← readTexts
    let dependencies ← readTexts
    return .publish modules dependencies (← readText)
  | 6 =>
    let modules ← readTexts
    let dependencies ← readTexts
    let package ← readText
    let ticket ← readOperand fuel
    return .upgrade modules dependencies package ticket (← readText)
  | _ => refuse

def readBinding (fuel : Nat) : Reader Binding := do
  let name ← readText
  return ⟨name, ← readOperand fuel⟩

def readProgram (fuel : Nat) : Reader Program := do
  let vars ← readList (readBinding fuel)
  return ⟨vars, ← readList (readOperation fuel)⟩

end TxGraph.Artifact

namespace TxGraph.Program

def toBytes (p : Program) : Bytes :=
  Artifact.writeList Artifact.writeBinding p.vars ++ Artifact.writeList Artifact.writeOperation p.ops

/-- The program at the front of the bytes. No value is nested deeper than there are bytes. -/
def ofBytes (bs : Bytes) : Except Artifact.Fault Program :=
  (Artifact.readProgram (bs.length + 1) bs).map Prod.fst

end TxGraph.Program
