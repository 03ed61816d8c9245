import TxGraph.Proofs.Bytes.Base64
import TxGraph.Proofs.Json.Record
import TxGraph.Proofs.Json.Text
import TxGraph.Transaction.Json

/-!
# Transactions read back

Every transaction is read back from its text (`ofText?_toText`): each command, argument and input
from its record, and the whole because its text is shallow and holds no double.
-/

namespace TxGraph

variable {n : Nat}

open Json

/-! ## Records -/

namespace TxArg

theorem index?_nat (i : UInt16) : index? (.nat i.toNat) = some i := by
  have hword : i.toNat ≤ Word.max16 := Nat.le_of_lt_succ i.toNat_lt
  rw [index?, word16?, natUpTo?_nat hword, Option.map_some, UInt16.ofNat_toNat]

theorem ofJson?_toJson (inner : Bool) (a : TxArg) : ofJson? inner a.toJson = some a := by
  cases a
  all_goals
    rw [ofJson?, toJson, variant?_obj (by decide) (by simp)]
    simp [fields?_obj, List.lookup_cons, index?_nat, isEmptyRecord]

theorem listOfJson?_listToJson (args : List TxArg) : listOfJson? (listToJson args) = some args :=
  list?_map fun a _ => ofJson?_toJson true a

end TxArg

namespace TxInput

theorem bytes?_encode (bs : Bytes) : bytes? (.str (Base64.encode bs)) = some bs :=
  Base64.decode?_encode bs

theorem ofJson?_toJson (i : TxInput) : ofJson? i.toJson = some i := by
  cases i with
  | pure type bytes =>
    cases type
    all_goals
      rw [ofJson?, toJson, List.cons_append, variant?_obj (by decide) (by simp [Json.optional])]
      simp [fields?_obj, Json.optional, List.lookup_cons, nullable, string?, bytes?_encode]
  | object id =>
    rw [ofJson?, toJson, variant?_obj (by decide) (by simp)]
    simp [fields?_obj, List.lookup_cons, string?]

end TxInput

namespace TxCommand

theorem ofRecord?_fieldsToJson (c : TxCommand) :
    ofRecord? c.name (.obj c.fieldsToJson) = some c := by
  cases c with
  | unsupported => rfl
  | makeMoveVec elem elems =>
    cases elem
    all_goals
      simp [ofRecord?, name, fieldsToJson, fields?_obj, List.lookup_cons, nullable, ofOption,
        string?, TxArg.listOfJson?_listToJson]
  | _ =>
    simp [ofRecord?, name, fieldsToJson, fields?_obj, List.lookup_cons, string?,
      TxArg.ofJson?_toJson, TxArg.listOfJson?_listToJson]

theorem ofJson?_toJson (c : TxCommand) : ofJson? c.toJson = some c := by
  have hkeys : "type" ∉ c.fieldsToJson.map Prod.fst := by cases c <;> simp [fieldsToJson]
  rw [ofJson?, toJson, tagged?_obj hkeys]
  exact ofRecord?_fieldsToJson c

end TxCommand

namespace Transaction

theorem budget?_budgetToJson (budget : UInt64) : budget? (budgetToJson budget) = some budget := by
  have hword : budget.toNat ≤ Word.max64 := Nat.le_of_lt_succ budget.toNat_lt
  rw [budget?, budgetToJson, word64?, natUpTo?_nat hword, Option.map_some, UInt64.ofNat_toNat]

theorem keys_toJson (t : Transaction) : (t.toJson.members.map Prod.fst).Sublist keys := by
  simp only [toJson, members, List.map_append]
  exact ((keys_optional _ _ _).append (keys_optional _ _ _)).append (.refl _)

theorem ofJson?_toJson (t : Transaction) : ofJson? t.toJson = some t := by
  have hsender : nullable string? (t.sender.map .str) = some t.sender :=
    nullable_map (fun _ _ => rfl) (by simp)
  have hbudget : nullable budget? (t.gasBudget.map budgetToJson) = some t.gasBudget :=
    nullable_map (fun x _ => budget?_budgetToJson x) (by simp [budgetToJson, Json.nat])
  have hinputs : list? TxInput.ofJson? (.arr (t.inputs.map TxInput.toJson)) = some t.inputs :=
    list?_map fun i _ => TxInput.ofJson?_toJson i
  have hcommands :
      list? TxCommand.ofJson? (.arr (t.commands.map TxCommand.toJson)) = some t.commands :=
    list?_map fun c _ => TxCommand.ofJson?_toJson c
  have hfields : fields? keys t.toJson = some (keys.map fun key => t.toJson.members.lookup key) :=
    fields?_obj ((keys_toJson t).nodup (by decide)) keys
  rw [ofJson?, hfields]
  simp [keys, toJson, members, lookup_optional, List.lookup_append, List.lookup_cons, hsender,
    hbudget, hinputs, hcommands]

end Transaction

/-! ## Text -/

theorem TxArg.within_toJson (a : TxArg) : Within (n + 1) a.toJson := by
  have hword (i : UInt16) : i.toNat ≤ Word.max64 :=
    Nat.le_trans (Nat.le_of_lt i.toNat_lt) (by decide)
  cases a <;> simp [toJson, within_obj, within_str, within_nat, hword]

theorem TxArg.within_listToJson (args : List TxArg) : Within (n + 2) (TxArg.listToJson args) := by
  simp [listToJson, within_arr, within_toJson]

theorem TxInput.within_toJson (i : TxInput) : Within (n + 1) i.toJson := by
  cases i with
  | pure type bytes => cases type <;> simp [toJson, Json.optional, within_obj, within_str]
  | object id => simp [toJson, within_obj, within_str]

theorem TxCommand.within_toJson (c : TxCommand) : Within (n + 3) c.toJson := by
  cases c with
  | makeMoveVec elem elems =>
    cases elem <;> simp [toJson, fieldsToJson, ofOption, within_obj, within_str, within_null,
      TxArg.within_listToJson]
  | _ =>
    simp [toJson, fieldsToJson, within_obj, within_str, within_strs, TxArg.within_toJson,
      TxArg.within_listToJson]

theorem Transaction.within_toJson (t : Transaction) : Within maxDepth t.toJson := by
  have hbudget (budget : UInt64) : Within 4 (budgetToJson budget) :=
    within_nat (Nat.le_of_lt_succ budget.toNat_lt)
  have hfive : Within 5 t.toJson := by
    obtain ⟨sender, budget, inputs, commands⟩ := t
    cases sender <;> cases budget <;>
      simp [toJson, Json.optional, within_obj, within_arr, within_str, hbudget,
        TxInput.within_toJson, TxCommand.within_toJson]
  exact hfive.mono (by decide)

theorem Transaction.fits_toJson (t : Transaction) : Fits Transaction.shape t.toJson := by
  have hwhole : ∀ key ∈ keys,
      (keys.map fun key => (key, Shape.whole)).lookup key = some .whole := by
    simp [keys, List.lookup_cons]
  exact fits_record fun m hm =>
    ⟨.whole, hwhole m.1 ((keys_toJson t).subset (List.mem_map_of_mem hm)), .whole m.2⟩

theorem Transaction.ofText?_toText (t : Transaction) : Transaction.ofText? t.toText = some t := by
  rw [ofText?, toText, parseAs?_pretty (within_toJson t) (fits_toJson t)]
  exact ofJson?_toJson t

end TxGraph
