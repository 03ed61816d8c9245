import TxGraph.Decoding.Producers
import TxGraph.Proofs.Transaction.Inputs

/-!
# Values and their indices

The values of a transaction have numbers of their own, and arguments name them by indices of 16 bits.
A ledger lists what is entered for values, in order. An argument gets the entry that is the last of
those with its index, which is the one for the value that it means exactly if no other value of the
ledger has the index.
-/

namespace TxGraph.Decoding

/-- A value by its number: the gas coin, an input, or an output of a command. -/
inductive Value
  | gas
  | input (n : Nat)
  | output (n m : Nat)
  deriving DecidableEq, Repr

namespace Value

/-- Whether the argument names the value. Indices start over after the last one. -/
def answers : Value → TxArg → Bool
  | gas, .gasCoin => true
  | input n, .input j => UInt16.ofNat n == j
  | output n m, .result j => UInt16.ofNat n == j && UInt16.ofNat m == 0
  | output n m, .nested j r => UInt16.ofNat n == j && UInt16.ofNat m == r
  | _, _ => false

def ofArg : TxArg → Value
  | .gasCoin => gas
  | .input j => input j.toNat
  | .result j => output j.toNat 0
  | .nested j r => output j.toNat r.toNat

def Before : Value → Value → Prop
  | gas, input _ => True
  | gas, output .. => True
  | input n, input n' => n < n'
  | input _, output .. => True
  | output n m, output n' m' => n < n' ∨ n = n' ∧ m < m'
  | _, _ => False

/-- The value has a number that is its own index. -/
def Low : Value → Prop
  | gas => True
  | input n => n < Limited.limit
  | output n m => n < Limited.limit ∧ m < Limited.limit

theorem answers_ofArg (arg : TxArg) : (ofArg arg).answers arg = true := by
  cases arg <;> simp [ofArg, answers]

theorem ofNat_eq_iff {n : Nat} {j : UInt16} : UInt16.ofNat n = j ↔ n % Limited.limit = j.toNat := by
  rw [← UInt16.toNat_inj, UInt16.toNat_ofNat']
  rfl

variable {v : Value} {arg : TxArg}

/-- A number is no less than its index. -/
theorem not_before_ofArg (h : v.answers arg = true) : ¬ v.Before (ofArg arg) := by
  have hle {n : Nat} {j : UInt16} (h : UInt16.ofNat n = j) : j.toNat ≤ n :=
    ofNat_eq_iff.mp h ▸ Nat.mod_le n _
  cases v <;> cases arg <;>
    simp only [answers, Bool.false_eq_true, Bool.and_eq_true, beq_iff_eq] at h <;>
    simp only [ofArg, Before, not_false_eq_true]
  case input.input => have := hle h; omega
  case output.result => have := hle h.1; omega
  case output.nested => have := hle h.1; have := hle h.2; omega

theorem eq_ofArg_of_low (hlow : v.Low) (h : v.answers arg = true) : v = ofArg arg := by
  have heq {n : Nat} {j : UInt16} (hn : n < Limited.limit) (h : UInt16.ofNat n = j) :
      n = j.toNat := by rw [← h, toNat_index hn]
  cases v <;> cases arg <;>
    simp only [answers, Bool.false_eq_true, Bool.and_eq_true, beq_iff_eq] at h <;>
    simp only [ofArg]
  case input.input => rw [← heq hlow h]
  case output.result => rw [← heq hlow.1 h.1, heq hlow.2 h.2]; rfl
  case output.nested => rw [← heq hlow.1 h.1, ← heq hlow.2 h.2]

end Value

/-! ## Ledgers -/

variable {α β : Type}

/-- The entry for an argument: the last one for a value that it names. -/
def latest? (ledger : List (Value × α)) (arg : TxArg) : Option α :=
  (ledger.reverse.find? fun x => x.1.answers arg).map Prod.snd

theorem latest?_append (front back : List (Value × α)) (arg : TxArg) :
    latest? (front ++ back) arg = (latest? back arg).or (latest? front arg) := by
  rw [latest?, List.reverse_append, List.find?_append]
  cases hback : back.reverse.find? fun x => x.1.answers arg <;> simp [latest?, hback]

theorem latest?_map (f : α → β) (ledger : List (Value × α)) (arg : TxArg) :
    latest? (ledger.map fun x => (x.1, f x.2)) arg = (latest? ledger arg).map f := by
  rw [latest?, latest?, ← List.map_reverse, List.find?_map, Option.map_map, Option.map_map]
  rfl

section

variable {ledger : List (Value × α)} {arg : TxArg}

theorem latest?_eq_none_iff :
    latest? ledger arg = none ↔ ∀ x ∈ ledger, x.1.answers arg = false := by
  simp [latest?]

theorem exists_of_latest? {a : α} (h : latest? ledger arg = some a) :
    ∃ v, (v, a) ∈ ledger ∧ v.answers arg = true := by
  obtain ⟨x, hfind, rfl⟩ := Option.map_eq_some_iff.mp h
  have hanswers : x.1.answers arg = true := by simpa using List.find?_some hfind
  exact ⟨x.1, List.mem_reverse.mp (List.mem_of_find?_eq_some hfind), hanswers⟩

/-- Nothing that comes after the entry for an argument is named by it. -/
theorem before_of_latest? (hordered : ledger.Pairwise fun x y => x.1.Before y.1) {a : α}
    (h : latest? ledger arg = some a) : ∃ v, (v, a) ∈ ledger ∧ v.answers arg = true ∧
      ∀ x ∈ ledger, x.1.answers arg = true → x = (v, a) ∨ x.1.Before v := by
  obtain ⟨⟨v, a⟩, hfind, rfl⟩ := Option.map_eq_some_iff.mp h
  obtain ⟨hv, later, earlier, hsplit, hlater⟩ := List.find?_eq_some_iff_append.mp hfind
  rw [List.reverse_eq_iff, List.reverse_append, List.reverse_cons, List.append_assoc] at hsplit
  subst hsplit
  refine ⟨v, by simp, hv, fun x hx hanswers => ?_⟩
  have hbefore := (List.pairwise_append.mp hordered).2.2
  rcases List.mem_append.mp hx with hx | hx
  · exact .inr (hbefore x hx (v, a) (by simp))
  · rcases List.mem_cons.mp hx with hx | hx
    · exact .inl hx
    · have := hlater x (List.mem_reverse.mp hx)
      simp [hanswers] at this

section

variable {origin : Option α} (horigin : ∀ a, origin = some a ↔ (Value.ofArg arg, a) ∈ ledger)

include horigin

/-- An argument that names no other value gets the entry for the value that it means. -/
theorem latest?_eq_of_forall
    (h : ∀ x ∈ ledger, x.1.answers arg = true → x.1 = Value.ofArg arg) :
    latest? ledger arg = origin := by
  cases hlatest : latest? ledger arg with
  | none =>
    refine (Option.eq_none_iff_forall_ne_some.mpr fun a ha => ?_).symm
    have := latest?_eq_none_iff.mp hlatest _ ((horigin a).mp ha)
    simp [Value.answers_ofArg] at this
  | some a =>
    obtain ⟨v, hv, hanswers⟩ := exists_of_latest? hlatest
    exact ((horigin a).mpr (h _ hv hanswers ▸ hv)).symm

/-- In an ordered ledger of different entries, no other argument does. -/
theorem latest?_eq_iff (hordered : ledger.Pairwise fun x y => x.1.Before y.1)
    (hdistinct : ∀ x ∈ ledger, ∀ y ∈ ledger, x.2 = y.2 → x.1 = y.1) :
    latest? ledger arg = origin ↔
      ∀ x ∈ ledger, x.1.answers arg = true → x.1 = Value.ofArg arg := by
  refine ⟨fun h x hx hanswers => ?_, latest?_eq_of_forall horigin⟩
  cases hlatest : latest? ledger arg with
  | none => simp [latest?_eq_none_iff.mp hlatest x hx] at hanswers
  | some a =>
    obtain ⟨v, hv, -, hlast⟩ := before_of_latest? hordered hlatest
    have hsame : v = .ofArg arg := hdistinct _ hv _ ((horigin a).mp (h ▸ hlatest)) rfl
    rcases hlast x hx hanswers with rfl | hbefore
    · exact hsame
    · exact absurd (hsame ▸ hbefore) (Value.not_before_ofArg hanswers)

end

end

/-! ## Tables -/

def Records (ledger : List (Value × Producer)) (table : ProducerTable) : Prop :=
  ∀ arg, table.get? arg = latest? ledger arg

section

variable {ledger : List (Value × Producer)} {table : ProducerTable} (h : Records ledger table)

include h

theorem Records.get?_eq : table.get? = latest? ledger :=
  funext h

theorem Records.enter {v : Value} {p : Producer} {table' : ProducerTable}
    (henter : ∀ arg, table'.get? arg = if v.answers arg then some p else table.get? arg) :
    Records (ledger ++ [(v, p)]) table' := by
  intro arg
  rw [henter, latest?_append, h arg]
  cases hanswers : v.answers arg <;> simp [latest?, hanswers]

theorem Records.input (n : Nat) (p : Producer) :
    Records (ledger ++ [(.input n, p)]) (table.insert (.input (UInt16.ofNat n)) p) := by
  refine h.enter fun arg => ?_
  rw [ProducerTable.get?_insert]
  cases arg <;> simp [Value.answers]

theorem Records.output (n m : Nat) (p : Producer) :
    Records (ledger ++ [(.output n m, p)])
      (table.insertResult (UInt16.ofNat n) (UInt16.ofNat m) p) := by
  refine h.enter fun arg => ?_
  by_cases hm : UInt16.ofNat m = 0 <;> cases arg <;>
    simp [ProducerTable.insertResult, ProducerTable.get?_insert, Value.answers, hm]

end

end TxGraph.Decoding
