import Mathlib.Algebra.Group.Nat.Defs
import RegisterMachine.Console.Stream
import RegisterMachine.Proofs.Continuation

/-!
# How far a limit goes

A run without a limit need not end. A run with one does, and the reason is the
count: a step after which the machine can go on has been counted, and the count
is below the limit, so it does not stick at the greatest number there is but
moves. The distance from the count to the limit is therefore a number of steps
in which the run comes to its end, and **a run with a limit is so many steps, or
fewer if one ends it, and one flush** (`Session.limited_run`).

Which steps were made is said by the list of their statuses. Only the last of
them can be something else than `running`, and all but a failed step are
counted, so the count at the end is read off that list.
-/

namespace RegisterMachine

/-- Whether a step that returns this status is counted: unless it failed. -/
def Status.isCounted : Status → Bool
  | .ended (.failed _) => false
  | .running | .ended (.finished _) => true

/-- The end of a run whose last step returned this status: if the machine could
go on, it was the limit. -/
def Status.endingAtLimit : Status → Ending
  | .running => .finished .stepLimit
  | .ended e => e

/-- An end that is not the limit is that of the last step. -/
theorem Status.eq_ended_of_endingAtLimit {status : Status} {e : Ending}
    (h : status.endingAtLimit = e) (hne : e ≠ .finished .stepLimit) : status = .ended e := by
  cases status with
  | running => exact absurd h.symm hne
  | ended e' => exact congrArg Status.ended h

/-- Steps that leave the machine running are all counted. -/
theorem Status.countP_replicate_running (j : Nat) :
    (List.replicate j Status.running).countP Status.isCounted = j := by
  rw [List.countP_replicate]
  exact if_pos rfl

/-- A step that ends the execution is counted, or not, besides those before it. -/
theorem Status.countP_append_ended (j : Nat) (e : Ending) :
    (List.replicate j Status.running ++ [Status.ended e]).countP Status.isCounted
      = j + if (Status.ended e).isCounted then 1 else 0 := by
  rw [List.countP_append, countP_replicate_running, List.countP_singleton]

/-- The status of an effect is counted. -/
theorem Effect.isCounted_status (e : Effect) : e.status.isCounted = true := by
  unfold Effect.status
  cases e.stop <;> rfl

/-! ## Counting -/

namespace Processor

/-- **Below another number the count moves**, by one and without wrapping. -/
theorem toNat_nextCount {k n : UInt64} (h : k < n) : (nextCount k).toNat = k.toNat + 1 := by
  have hlt : k.toNat + 1 < 2 ^ 64 :=
    Nat.lt_of_le_of_lt (UInt64.lt_iff_toNat_lt.mp h) n.toNat_lt
  have hsucc : (k + 1).toNat = k.toNat + 1 := by
    rw [UInt64.toNat_add]
    exact Nat.mod_eq_of_lt hlt
  have hne : k + 1 ≠ 0 := by
    intro hzero
    rw [hzero] at hsucc
    exact absurd hsucc (Nat.succ_ne_zero k.toNat).symm
  rw [nextCount, if_neg hne]
  exact hsucc

/-- **The count moves by one, and sticks at the greatest number there is.** -/
theorem toNat_nextCount_eq_min (k : UInt64) :
    (nextCount k).toNat = min (k.toNat + 1) (2 ^ 64 - 1) := by
  have hk := k.toNat_lt
  by_cases hlast : k.toNat = 2 ^ 64 - 1
  · have hzero : k + 1 = 0 := UInt64.toNat_inj.mp (by rw [UInt64.toNat_add, hlast]; rfl)
    rw [nextCount, if_pos hzero]
    omega
  · have hbelow : k < 18446744073709551615 := UInt64.lt_iff_toNat_lt.mpr (by
      show k.toNat < 2 ^ 64 - 1
      omega)
    rw [toNat_nextCount hbelow]
    omega

end Processor

namespace Machine

/-- Carrying out an effect counts as one step. -/
theorem steps_perform (m : Machine) (e : Effect) :
    (m.perform e).steps = Processor.nextCount m.steps := by
  unfold perform store
  cases e.write with
  | none => rfl
  | some written =>
    obtain ⟨w, place⟩ := written
    cases place <;> rfl

end Machine

/-- **A step is counted unless it fails.** -/
theorem Session.steps_step {κ : Type} [Console κ] (s : Session κ) :
    s.step.2.machine.steps
      = if s.step.1.isCounted then Processor.nextCount s.machine.steps else s.machine.steps := by
  rcases s.step_cases with ⟨fault, hstatus, hprocessor, -⟩ | ⟨e, hstatus, hmachine⟩
  · rw [hstatus, hprocessor]
    rfl
  · rw [hstatus, hmachine, Machine.steps_perform, if_pos e.isCounted_status]
    rfl

namespace Execution

variable {σ : Type} {step : σ → Status × σ} {steps : σ → UInt64}

/-- **The statuses of the steps that `advance` makes**, in order. -/
def statuses (step : σ → Status × σ) : Nat → σ → List Status
  | 0, _ => []
  | n + 1, s =>
    match step s with
    | (.running, s) => .running :: statuses step n s
    | (.ended e, _) => [.ended e]

section

variable {s t : σ} {n : Nat} {e : Ending}

theorem advance_of_running (h : step s = (.running, t)) :
    advance step (n + 1) s = advance step n t := by
  rw [advance, h]

theorem advance_of_ended (h : step s = (.ended e, t)) :
    advance step (n + 1) s = (.ended e, t) := by
  rw [advance, h]

theorem statuses_of_running (h : step s = (.running, t)) :
    statuses step (n + 1) s = .running :: statuses step n t := by
  rw [statuses, h]

theorem statuses_of_ended (h : step s = (.ended e, t)) :
    statuses step (n + 1) s = [.ended e] := by
  rw [statuses, h]

/-- **If the execution is still running, all the steps were made** and it was
running after each of them. -/
theorem statuses_eq_replicate (h : (advance step n s).1 = .running) :
    statuses step n s = List.replicate n .running := by
  induction n generalizing s with
  | zero => rfl
  | succ n ih =>
    rcases hs : step s with ⟨_ | e, t⟩
    · rw [advance_of_running hs] at h
      rw [statuses_of_running hs, ih h, List.replicate_succ]
    · rw [advance_of_ended hs] at h
      cases h

/-- **If it has ended, the last of the steps that were made ended it**, and it was
running after each of those before. -/
theorem statuses_eq_append (h : (advance step n s).1 = .ended e) :
    ∃ j < n, statuses step n s = List.replicate j .running ++ [Status.ended e] := by
  induction n generalizing s with
  | zero => cases h
  | succ n ih =>
    rcases hs : step s with ⟨_ | e', t⟩
    · rw [advance_of_running hs] at h
      obtain ⟨j, hj, hstatuses⟩ := ih h
      refine ⟨j + 1, Nat.succ_lt_succ hj, ?_⟩
      rw [statuses_of_running hs, hstatuses, List.replicate_succ, List.cons_append]
    · rw [advance_of_ended hs] at h
      cases h
      exact ⟨0, Nat.succ_pos n, statuses_of_ended hs⟩

/-- The statuses tell whether the execution is still running. -/
theorem statuses_eq_replicate_iff :
    statuses step n s = List.replicate n .running ↔ (advance step n s).1 = .running := by
  refine ⟨fun hall => ?_, statuses_eq_replicate⟩
  cases hlast : (advance step n s).1 with
  | running => rfl
  | ended e =>
    obtain ⟨j, -, happend⟩ := statuses_eq_append hlast
    have hmem : Status.ended e ∈ statuses step n s := by
      rw [happend]
      exact List.mem_append_right _ (List.mem_singleton_self _)
    rw [hall] at hmem
    cases List.eq_of_mem_replicate hmem

/-- What ends an execution is the status of a step. -/
theorem exists_step_of_advance (h : (advance step n s).1 = .ended e) :
    ∃ u, (step u).1 = .ended e := by
  induction n generalizing s with
  | zero => cases h
  | succ n ih =>
    rcases hs : step s with ⟨_ | e', t⟩
    · rw [advance_of_running hs] at h
      exact ih h
    · rw [advance_of_ended hs] at h
      cases h
      exact ⟨s, congrArg Prod.fst hs⟩

end

/-! ## The steps up to a limit -/

section

variable {limit : UInt64}
  (hcount : ∀ s, steps s < limit →
    (steps (step s).2).toNat = (steps s).toNat + if (step s).1.isCounted then 1 else 0)

include hcount

/-- **Steps up to a limit are as many steps as the count is away from it**, where
every step is counted that leaves the execution running. The distance is enough
fuel. -/
theorem run?_eq_advance {budget : Nat} {s : σ} (hbudget : budget = limit.toNat - (steps s).toNat) :
    run? step steps (some limit) budget s
      = some ((advance step budget s).1.endingAtLimit, (advance step budget s).2) := by
  induction budget generalizing s with
  | zero =>
    have hle : limit ≤ steps s := UInt64.le_iff_toNat_le.mpr (by omega)
    exact run?_of_limitReached (decide_eq_true hle)
  | succ budget ih =>
    have hlt : steps s < limit := UInt64.lt_iff_toNat_lt.mpr (by omega)
    have hbelow : limitReached (some limit) (steps s) = false :=
      decide_eq_false (UInt64.not_le.mpr hlt)
    rcases hs : step s with ⟨_ | e, t⟩
    · have hnext := hcount s hlt
      rw [hs] at hnext
      change (steps t).toNat = (steps s).toNat + 1 at hnext
      rw [run?_of_running hbelow hs, advance_of_running hs]
      exact ih (by omega)
    · rw [run?_of_ended hbelow hs, advance_of_ended hs]
      rfl

/-- **Up to the limit the count is exact**: it grows by the number of steps that
are counted. -/
theorem toNat_steps_advance {n : Nat} {s : σ} (hn : n ≤ limit.toNat - (steps s).toNat) :
    (steps (advance step n s).2).toNat
      = (steps s).toNat + (statuses step n s).countP Status.isCounted := by
  induction n generalizing s with
  | zero => rfl
  | succ n ih =>
    have hlt : steps s < limit := UInt64.lt_iff_toNat_lt.mpr (by omega)
    have hnext := hcount s hlt
    rcases hs : step s with ⟨_ | e, t⟩ <;> rw [hs] at hnext
    · change (steps t).toNat = (steps s).toNat + 1 at hnext
      rw [advance_of_running hs, statuses_of_running hs, ih (by omega),
        List.countP_cons_of_pos rfl]
      omega
    · rw [advance_of_ended hs, statuses_of_ended hs, List.countP_singleton]
      exact hnext

/-- If the execution is still running, all the steps were counted. -/
theorem toNat_steps_of_running {n : Nat} {s : σ} (hn : n ≤ limit.toNat - (steps s).toNat)
    (h : (advance step n s).1 = .running) :
    (steps (advance step n s).2).toNat = (steps s).toNat + n := by
  rw [toNat_steps_advance hcount hn, statuses_eq_replicate h, Status.countP_replicate_running]

/-- If it has ended, fewer steps than there might have been were counted, and besides
them the last one unless it failed. -/
theorem toNat_steps_of_ended {n : Nat} {s : σ} {e : Ending}
    (hn : n ≤ limit.toNat - (steps s).toNat) (h : (advance step n s).1 = .ended e) :
    ∃ j < n, (steps (advance step n s).2).toNat
      = (steps s).toNat + (j + if (Status.ended e).isCounted then 1 else 0) := by
  obtain ⟨j, hj, happend⟩ := statuses_eq_append h
  refine ⟨j, hj, ?_⟩
  rw [toNat_steps_advance hcount hn, happend, Status.countP_append_ended]

end

end Execution

namespace Session

variable {κ : Type} [Console κ]

/-- Below a limit, a step moves the count by one or leaves it. -/
theorem toNat_steps_step {limit : UInt64} (s : Session κ) (h : s.machine.steps < limit) :
    s.step.2.machine.steps.toNat
      = s.machine.steps.toNat + if s.step.1.isCounted then 1 else 0 := by
  rw [s.steps_step]
  split
  · exact Processor.toNat_nextCount h
  · rfl

/-- The end of the steps up to a limit is the limit if they left the machine
running, and only then. -/
theorem endingAtLimit_advance_iff {n : Nat} {s : Session κ} :
    (Execution.advance step n s).1.endingAtLimit = .finished .stepLimit
      ↔ (Execution.advance step n s).1 = .running := by
  cases hlast : (Execution.advance step n s).1 with
  | running => exact iff_of_true rfl rfl
  | ended e =>
    obtain ⟨u, hu⟩ := Execution.exists_step_of_advance hlast
    refine iff_of_false (fun he => ?_) (fun h => nomatch h)
    obtain rfl : e = .finished .stepLimit := he
    exact u.step_ne_stepLimit hu

/-- A count that has gone all the way to a limit is at the limit, or is what it
was if that is more. -/
theorem eq_max_of_toNat {count now limit : UInt64}
    (h : now.toNat = count.toNat + (limit.toNat - count.toNat)) : now = max count limit := by
  have hmax : max count limit = if count ≤ limit then limit else count := rfl
  rw [hmax]
  by_cases hle : count ≤ limit
  · have hle' := UInt64.le_iff_toNat_le.mp hle
    rw [if_pos hle]
    exact UInt64.toNat_inj.mp (by omega)
  · have hlt := UInt64.lt_iff_toNat_lt.mp (UInt64.not_le.mp hle)
    rw [if_neg hle]
    exact UInt64.toNat_inj.mp (by omega)

/-- **A run with a limit ends, and is the run of its steps.** Let `budget` be how
many steps are missing to the limit. In at most so many steps the run comes to
an end, and it leaves what is left by making them one after the other until one
of them ends it, and flushing the console once. The count at the end is exact:
it has grown by the steps that did not fail, whatever comes of the flush. If the
flush works, the run ends in `stepLimit` exactly if all of those steps were made
and left the machine running, and the count is then the limit, or what it was if
that is more; any other end is that of the last step, where a good one leaves the
count at most at the limit, and a fault leaves it below. -/
theorem limited_run (s : Session κ) (limit : UInt64) :
    let budget := limit.toNat - s.machine.steps.toNat
    let made := Execution.advance step budget s
    let statuses := Execution.statuses step budget s
    let flushed := Console.flush made.2.console
    ∃ e t, s.run? (some limit) budget = some (e, t)
      ∧ t = ⟨made.2.machine, flushed.2⟩
      ∧ t.machine.steps.toNat = s.machine.steps.toNat + statuses.countP Status.isCounted
      ∧ (flushed.1 = .ok () →
          (e = .finished .stepLimit ↔ statuses = List.replicate budget .running)
          ∧ (e = .finished .stepLimit → t.machine.steps = max s.machine.steps limit)
          ∧ (∀ outcome, outcome ≠ .stepLimit → e = .finished outcome →
              made.1 = .ended (.finished outcome) ∧ t.machine.steps ≤ limit)
          ∧ (∀ fault, e = .failed fault →
              made.1 = .ended (.failed fault) ∧ t.machine.steps < limit)) := by
  intro budget made statuses flushed
  have hcount : ∀ s : Session κ, s.machine.steps < limit → s.step.2.machine.steps.toNat
      = s.machine.steps.toNat + if s.step.1.isCounted then 1 else 0 :=
    fun s h => s.toNat_steps_step h
  have hloop : s.loop? (some limit) budget = some (made.1.endingAtLimit, made.2) :=
    Execution.run?_eq_advance hcount rfl
  refine ⟨closeEnding made.1.endingAtLimit flushed.1, ⟨made.2.machine, flushed.2⟩, ?_, rfl,
    Execution.toNat_steps_advance hcount (Nat.le_refl budget), fun hflushed => ?_⟩
  · unfold run?
    rw [hloop]
    rfl
  rw [hflushed, closeEnding_ok]
  refine ⟨endingAtLimit_advance_iff.trans Execution.statuses_eq_replicate_iff.symm,
    fun he => ?_, fun outcome hne he => ?_, fun fault he => ?_⟩
  · have hlast : made.1 = .running := endingAtLimit_advance_iff.mp he
    exact eq_max_of_toNat (Execution.toNat_steps_of_running hcount (Nat.le_refl budget) hlast)
  · have hlast : made.1 = .ended (.finished outcome) :=
      Status.eq_ended_of_endingAtLimit he (fun h => hne (Ending.finished.inj h))
    obtain ⟨j, hj, hsteps⟩ := Execution.toNat_steps_of_ended hcount (Nat.le_refl budget) hlast
    -- a good last step is counted, which may take the count to the limit
    change made.2.machine.steps.toNat = s.machine.steps.toNat + (j + 1) at hsteps
    refine ⟨hlast, UInt64.le_iff_toNat_le.mpr ?_⟩
    show made.2.machine.steps.toNat ≤ limit.toNat
    omega
  · have hlast : made.1 = .ended (.failed fault) :=
      Status.eq_ended_of_endingAtLimit he (fun h => nomatch h)
    obtain ⟨j, hj, hsteps⟩ := Execution.toNat_steps_of_ended hcount (Nat.le_refl budget) hlast
    change made.2.machine.steps.toNat = s.machine.steps.toNat + j at hsteps
    refine ⟨hlast, UInt64.lt_iff_toNat_lt.mpr ?_⟩
    show made.2.machine.steps.toNat < limit.toNat
    omega

/-- The count is next to the greatest number there is, and the limit is that number:
one step reaches it, and nothing starts again from zero. -/
theorem limited_run_to_the_greatest :
    let m := { Machine.ofMemory (Memory.empty.set 0 21) with steps := 18446744073709551614 }
    let s : Session Buffer := ⟨m, .ofInput []⟩
    ∃ t, s.run? (some 18446744073709551615) 1 = some (.finished .stepLimit, t)
      ∧ t.machine.steps = 18446744073709551615 := by
  intro m s
  obtain ⟨e, t, hrun, -, -, hend⟩ := limited_run s 18446744073709551615
  obtain ⟨hlimit, hsteps, -⟩ := hend rfl
  have he : e = .finished .stepLimit := hlimit.mpr (by decide)
  have hbudget : UInt64.toNat 18446744073709551615 - s.machine.steps.toNat = 1 := by decide
  have hgreatest : max s.machine.steps 18446744073709551615 = 18446744073709551615 := by decide
  rw [he, hbudget] at hrun
  exact ⟨t, hrun, (hsteps he).trans hgreatest⟩

end Session

end RegisterMachine
