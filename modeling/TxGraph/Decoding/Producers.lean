import Std.Data.TreeMap.Lemmas
import TxGraph.DataType.Basic
import TxGraph.Transaction.Basic

/-!
# Producers of values

While a transaction is decoded, a table says for each argument which output port produces it. A
later entry replaces an earlier one for the same argument.
-/

namespace TxGraph

/-- An output port and its type. -/
structure Producer where
  node : String
  port : String
  type : DataType
  deriving DecidableEq, Repr

/-- A number for each argument. -/
def TxArg.code : TxArg → Nat
  | gasCoin => 0
  | input index => 1 + index.toNat
  | result index => 65537 + index.toNat
  | nested index nth => 131073 + index.toNat * 65536 + nth.toNat

theorem TxArg.code_inj {a b : TxArg} : a.code = b.code ↔ a = b := by
  refine ⟨fun h => ?_, fun h => h ▸ rfl⟩
  have lt (x : UInt16) : x.toNat < 65536 := x.toNat_lt
  cases a <;> cases b <;> simp only [code] at h <;> grind [UInt16.toNat_inj]

structure ProducerTable where
  entries : Std.TreeMap Nat Producer

namespace ProducerTable

def empty : ProducerTable := ⟨∅⟩

def insert (t : ProducerTable) (key : TxArg) (p : Producer) : ProducerTable :=
  ⟨t.entries.insert key.code p⟩

/-- Enters an output of a command. The first one is also the result of the command as a whole. -/
def insertResult (t : ProducerTable) (command nth : UInt16) (p : Producer) : ProducerTable :=
  let t := if nth = 0 then t.insert (.result command) p else t
  t.insert (.nested command nth) p

def get? (t : ProducerTable) (key : TxArg) : Option Producer :=
  t.entries.get? key.code

def size (t : ProducerTable) : Nat :=
  t.entries.size

def isEmpty (t : ProducerTable) : Bool :=
  t.entries.isEmpty

theorem get?_insert (t : ProducerTable) (key other : TxArg) (p : Producer) :
    (t.insert key p).get? other = if key = other then some p else t.get? other := by
  simp [get?, insert, Std.TreeMap.getElem?_insert, TxArg.code_inj]

end ProducerTable

end TxGraph
