import TxGraph.Proofs.Lowering.Single
import TxGraph.Script.OfProgram
import TxGraph.Transaction.OfProgram

/-!
# The sender is substituted

Lowering a program for a sender is lowering the program that has the address of the sender in place
of each placeholder. The walk puts the address in where it encodes a literal, which may be far from
where the placeholder stands in the program, so the two programs are walked in step. Without a
sender, a transaction is refused for want of it exactly when a placeholder stands somewhere.
-/

namespace TxGraph.Lowering

variable {σ η : Type}

theorem ne_of_use (e : LowerError) (h : OfUse e) : e ≠ .missingSender := by
  rintro rfl
  exact h

theorem run_withSender (T : Target σ η) (s : String) (p : Program) (start : σ) :
    run T (some s) (p.withSender s) start = run T (some s) p start := by
  have h := run_alike (simulates_same (ignores_id T) Function.injective_id (some s) (.inr rfl)) p
    (Eq.refl start)
  rw [name_same, LowerError.mapError_rename_id, p.rename_id] at h
  exact h.eq

/-- Resolving does not ask for a sender. -/
theorem resolveFrom_sender (c : Context σ η) {env : Directory (Entry η)} (slot : Slot) (depth : Nat)
    (symbol : Option String) (value : Operand) :
    Quiet (· ≠ .missingSender) env (c.resolveFrom slot depth symbol value) fun _ => True := by
  induction depth generalizing symbol value with
  | zero =>
    refine resolveWith_quiet c ne_of_use slot symbol value fun name _ => ?_
    exact ref_quiet c (.inl nofun) (fun _ _ => trivial) (fun _ _ => .throw nofun) slot
  | succ depth ih =>
    refine resolveWith_quiet c ne_of_use slot symbol value fun name _ => ?_
    exact ref_quiet c (.inl nofun) (fun _ _ => trivial) (fun _ _ => ih _ _) slot

theorem run_ends (T : Target σ η) (sender : Option String) (p : Program) (start : σ) :
    Ends (· ≠ .missingSender) (fun _ => True) (run T sender p start) := by
  have hmet (site : Site) : Manner.Met { raised := (· ≠ .missingSender) }
      (⟨T, site, sender, p.vars.length⟩ : Context σ η) := Manner.met_of_lax ne_of_use
  have hops := Manner.operations_follow hmet p.vars.length (fun _ _ => True)
    (fun _ _ _ _ _ u _ => Manner.resolves_of_lax ne_of_use
      (fun slot => resolveFrom_sender _ slot _ _ u.2) fun _ _ _ => .refl _)
    (fun _ _ _ _ _ _ => trivial) 0 p.ops (w := ⟨start, initialEnv p.vars, []⟩) trivial
  exact Ends.bind hops.2 fun _ _ => .ok trivial

/-- **The sender placeholder is substitution.** For a sender, both targets give for a program what
they give for the program with the address of the sender in place of each placeholder, be it a
result or an error. Without one, a transaction is refused for the missing sender if and only if a
placeholder stands in an operand or in the value of a variable, at any depth. -/
theorem ofProgram_withSender (p : Program) (s : String) (budget : Option UInt64) :
    ¬ (p.withSender s).MentionsSender ∧
    Transaction.ofProgram p ⟨some s, budget⟩ =
      Transaction.ofProgram (p.withSender s) ⟨some s, budget⟩ ∧
    Script.ofProgram p ⟨some s, budget⟩ = Script.ofProgram (p.withSender s) ⟨some s, budget⟩ ∧
    (Transaction.ofProgram p ⟨none, budget⟩ = .error .missingSender ↔ p.MentionsSender) := by
  refine ⟨p.not_mentionsSender_withSender s, ?_, ?_, ?_⟩
  · have hsender : (some s).isNone = false := rfl
    simp only [Transaction.ofProgram, hsender, Bool.false_and, run_withSender]
  · have hstart : Script.Writer.start (p.withSender s) = Script.Writer.start p := by
      rw [Script.Writer.start, Script.Writer.start, Program.outputs_withSender]
    simp only [Script.ofProgram, run_withSender, hstart]
  · rw [← Program.usesSender_iff]
    cases huses : p.usesSender with
    | true =>
      refine iff_of_true ?_ rfl
      simp only [Transaction.ofProgram, huses]
      rfl
    | false =>
      have hends : Ends (· ≠ .missingSender) (fun _ => True)
          (Transaction.ofProgram p ⟨none, budget⟩) := by
        simp only [Transaction.ofProgram, huses, Bool.and_false]
        exact .bind (run_ends _ none p _) fun b _ => .ok trivial
      simp only [Bool.false_eq_true, iff_false]
      intro h
      rw [h] at hends
      exact hends.of_error rfl

end TxGraph.Lowering
