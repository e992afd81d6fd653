import RegisterMachine.Fault

/-!
# Executing step by step

The two ways to make many steps, for any kind of state: at most so many of
them, or until a count kept in the state reaches a limit. What is stepped
may be a bare session or one that takes notes of what it does, and a fact
about how steps follow each other is proved once for all of them.

Without a limit an execution may go on for ever, so `Execution.run?` is
given some fuel, one unit per step, and has no answer when the fuel runs
out. More fuel never changes an answer (`Execution.run?_of_le`): what an
execution comes to, if it comes to anything, does not depend on it.
-/

namespace RegisterMachine.Execution

variable {σ : Type}

/-- **At most `n` steps**, fewer if one of them ends the execution. -/
@[specialize] def advance (step : σ → Status × σ) : Nat → σ → Status × σ
  | 0, s => (.running, s)
  | n + 1, s =>
    match step s with
    | (.running, s) => advance step n s
    | (.ended e, s) => (.ended e, s)

/-- Whether a limit, if there is one, leaves no step to make. -/
def limitReached (limit : Option UInt64) (steps : UInt64) : Bool :=
  match limit with
  | none => false
  | some n => n ≤ steps

/-- **Steps until one ends the execution or the limit is reached**, which is
asked before every step. -/
@[specialize] def run? (step : σ → Status × σ) (steps : σ → UInt64) (limit : Option UInt64) :
    Nat → σ → Option (Ending × σ)
  | fuel, s =>
    if limitReached limit (steps s) then some (.finished .stepLimit, s)
    else
      match fuel with
      | 0 => none
      | fuel + 1 =>
        match step s with
        | (.running, s) => run? step steps limit fuel s
        | (.ended e, s) => some (e, s)

/-- **More fuel keeps the answer.** -/
theorem run?_of_le {step : σ → Status × σ} {steps : σ → UInt64} {limit : Option UInt64}
    {n m : Nat} {s : σ} {r : Ending × σ} (h : run? step steps limit n s = some r) (hnm : n ≤ m) :
    run? step steps limit m s = some r := by
  induction n generalizing m s with
  | zero =>
    unfold run? at h ⊢
    split at h
    · simp_all
    · simp at h
  | succ n ih =>
    obtain ⟨m, rfl⟩ : ∃ k, m = k + 1 := ⟨m - 1, by omega⟩
    unfold run? at h ⊢
    split at h
    · simp_all
    · simp only [*, if_false, Bool.false_eq_true] at h ⊢
      split at h
      · next heq => simpa [heq] using ih h (by omega)
      · next heq => simpa [heq] using h

end RegisterMachine.Execution
