import TxGraph.Proofs.Lowering.Accounts
import TxGraph.Proofs.Lowering.Tidy

/-!
# Well-formed transactions

A transaction that is built from a program, whichever program it is, refers only to inputs that
exist and to results of earlier commands, uses all its inputs, and has each object once and in full
form. The program has then said all that it had to say: no operand was open, nor the value of a
variable that an operand means.
-/

namespace TxGraph

namespace Transaction

/-- What is true of a transaction that was built. -/
structure WellFormed (t : Transaction) : Prop where
  args (k : Nat) (c : TxCommand) : t.commands[k]? = some c →
    ∀ arg ∈ c.args, arg.Refers t.inputs (t.commands.take k)
  used (n : Nat) : n < t.inputs.length →
    ∃ i : UInt16, i.toNat = n ∧ ∃ c ∈ t.commands, .input i ∈ c.args
  distinct (m n : Nat) (id : String) : t.inputs[m]? = some (.object id) →
    t.inputs[n]? = some (.object id) → m = n
  full (id : String) : .object id ∈ t.inputs → Address.IsFull id

/-- **Transactions that are built are well formed**, and no operand was open, nor the value of a
variable that an operand referred to where no operation before had bound its name. -/
theorem wellFormed_of_ofProgram {p : Program} {options : ExecOptions} {t : Transaction}
    (h : ofProgram p options = .ok t) :
    t.WellFormed ∧ ∀ k op, p.ops[k]? = some op → ∀ v ∈ op.operands, v.hasAbsent = false ∧
      ∀ name ∈ v.refs, name ∉ (p.ops.take k).flatMap Operation.rebinds →
        ∀ init, p.valueOf? name = some init → init.hasAbsent = false := by
  obtain ⟨w, hwalk, -, hinputs, hcommands⟩ := exists_walk_of_ofProgram h
  have hstart : Lowering.Consistent
      ⟨Builder.empty, Lowering.initialEnv p.vars, []⟩ := by
    refine ⟨Nat.zero_le _, nofun, nofun, nofun, fun name arg hname => ?_, nofun⟩
    obtain ⟨v, -, -, heq⟩ := Lowering.init_of_initialEnv hname
    cases heq
  have hkept : ∀ name ∉ ([] : List String), Directory.get? (Lowering.initialEnv p.vars) name =
      Directory.get? (Lowering.initialEnv (η := TxArg) p.vars) name := fun _ _ => rfl
  have hperform := Lowering.operations_perform options.sender p.vars.length p.ops 0 hstart hkept
  rw [Ensures, hwalk] at hperform
  cases hperform with
  | ok hend =>
    obtain ⟨hw, -, hhands, hsettled⟩ := hend
    refine ⟨⟨?_, fun n hn => ?_, ?_, fun id hid => ?_⟩, fun k op hop v hv => ?_⟩
    · rw [hinputs, hcommands]
      exact hw.args
    · rw [hinputs] at hn
      have hindex := toNat_index (hn.trans_le hw.fewInputs)
      refine ⟨UInt16.ofNat n, hindex, ?_⟩
      rw [hcommands]
      exact (hhands.accounts _ (.inr ⟨Nat.zero_le _, by rwa [hindex]⟩)).resolve_left
        List.not_mem_nil
    · rw [hinputs]
      exact hw.distinct
    · rw [hinputs] at hid
      obtain ⟨n, hn⟩ := List.mem_iff_getElem?.mp hid
      obtain ⟨text, htext⟩ := hw.full n id hn
      exact Builder.isFull_fullAddress htext
    · obtain ⟨hopen, hrefs⟩ := hsettled k op hop v hv
      refine ⟨hopen, fun name hname hnot init hinit => ?_⟩
      exact hrefs name hname hnot init (Lowering.get?_initialEnv hinit)

/-- A program with a variable that is hidden by another, and one that is open until a split binds
its name. -/
def hiddenAndBound : Program where
  vars := [⟨"x", .absent⟩, ⟨"x", .constant (.number "5")⟩, ⟨"coin", .absent⟩]
  ops := [.splitCoins (.object .gas) [.ref "x", .ref "x"] ["coin", "rest"],
    .makeMoveVec none (.each [.ref "coin", .object (.byId "0x7")]) "coins",
    .transferObjects (.packed (.vector [.ref "rest", .object (.byId "0x07")]))
      (.constant (.address "0x1"))]

theorem wellFormed_of_ofProgram_hiddenAndBound :
    ∃ t, ofProgram hiddenAndBound ⟨none, none⟩ = .ok t ∧ t.WellFormed ∧ t.inputs.length = 3 ∧
      hiddenAndBound.valueOf? "x" = some (.constant (.number "5")) ∧
      ∀ k op, hiddenAndBound.ops[k]? = some op → ∀ v ∈ op.operands, v.hasAbsent = false ∧
        ∀ name ∈ v.refs, name ∉ (hiddenAndBound.ops.take k).flatMap Operation.rebinds →
          ∀ init, hiddenAndBound.valueOf? name = some init → init.hasAbsent = false := by
  have hbuilt : ofProgram hiddenAndBound ⟨none, none⟩ = .ok
      ⟨none, none, [.pure (some "u64") [5, 0, 0, 0, 0, 0, 0, 0],
        .object "0x0000000000000000000000000000000000000000000000000000000000000007",
        .pure (some "address") (List.replicate 31 0 ++ [1])],
        [.splitCoins .gasCoin [.input 0, .input 0], .makeMoveVec none [.nested 0 0, .input 1],
          .transferObjects [.nested 0 1, .input 1] (.input 2)]⟩ := by
    decide +kernel
  obtain ⟨hformed, hsettled⟩ := wellFormed_of_ofProgram hbuilt
  exact ⟨_, hbuilt, hformed, rfl, by decide +kernel, hsettled⟩

end Transaction

end TxGraph
