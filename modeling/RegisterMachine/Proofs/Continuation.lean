import RegisterMachine.Console.Buffer
import RegisterMachine.Proofs.Runs
import RegisterMachine.Proofs.Verdicts
import RegisterMachine.Session.Run

/-!
# Runs that are taken up again

A run that a limit interrupts has made the first steps of the run that a higher
limit, or none, would have allowed. So it can be taken up where it stopped, and
**in two parts it comes to the end it would have come to in one**
(`Session.run_continues`); a run that ended below its limit ends in the same way
under any higher one.

That the steps of the two parts fit together is a fact about any execution with
a count: a limit is only ever asked whether another step may be made, so what
was reached under one limit is reached under every limit that allows as much
(`Execution.Reaches.mono`). The machine adds that `stepLimit` is no outcome of
a step, so a run that ends in it was interrupted. The console adds that being
flushed in between does not show, which for a console in memory it cannot.
-/

namespace RegisterMachine

namespace Execution

variable {σ : Type} {step : σ → Status × σ} {steps : σ → UInt64} {limit limit' : Option UInt64}

/-- **One limit allows what another does**: where the other one is not reached,
it is not reached either. -/
def Extends (limit' limit : Option UInt64) : Prop :=
  ∀ count, limitReached limit count = false → limitReached limit' count = false

/-- A limit that is as high, or is none at all, allows as much. -/
theorem extends_of_le {n : UInt64} (h : ∀ m ∈ limit', n ≤ m) : Extends limit' (some n) := by
  intro count hcount
  have hbelow : ¬ n ≤ count := of_decide_eq_false hcount
  cases limit' with
  | none => rfl
  | some m => exact decide_eq_false fun hm => hbelow (UInt64.le_trans (h m rfl) hm)

/-- What is reached under one limit is reached under all that allow as much. -/
theorem Reaches.mono {n : Nat} {s u : σ} (h : Reaches step steps limit n s u)
    (hlimit : Extends limit' limit) : Reaches step steps limit' n s u := by
  induction h with
  | refl => exact .refl
  | head hbelow hstep _ ih => exact .head (hlimit _ hbelow) hstep ih

end Execution

namespace Session

/-- **A run comes to this end**, given enough fuel. -/
def RunEnds {κ : Type} [Console κ] (limit : Option UInt64) (s : Session κ) (e : Ending)
    (t : Session κ) : Prop :=
  ∃ fuel, s.run? limit fuel = some (e, t)

/-- Over a console in memory, the flush at the end of a run does nothing. -/
theorem run?_eq_loop? (limit : Option UInt64) (fuel : Nat) (s : Session Buffer) :
    s.run? limit fuel = s.loop? limit fuel := by
  unfold run?
  cases s.loop? limit fuel with
  | none => rfl
  | some p =>
    obtain ⟨e, t⟩ := p
    show some (closeEnding e (.ok ()), t) = some (e, t)
    rw [closeEnding_ok]

/-- So a run over a console in memory ends where its steps do. -/
theorem runEnds_iff {limit : Option UInt64} {s t : Session Buffer} {e : Ending} :
    s.RunEnds limit e t ↔ Execution.Ends step (fun s => s.machine.steps) limit s e t := by
  refine exists_congr fun fuel => ?_
  rw [run?_eq_loop?]
  rfl

/-- **No step ends with the limit as its outcome**: to stop there is for runs. -/
theorem step_ne_stepLimit {κ : Type} [Console κ] (s : Session κ) :
    s.step.1 ≠ .ended (.finished .stepLimit) := by
  obtain ⟨status, hverdict⟩ := s.exists_verdict
  rw [step_of_verdict hverdict]
  cases hverdict <;> simp

/-- **A run in two parts is the run in one.** Let a run with a limit come to an
end, and let another limit be as high or none. If the run was interrupted by its
limit, then a run with the other limit that goes on from there comes to just the
ends that a run with the other limit comes to from the start: with the same
machine, output and input left, or to none at all. If it ended in any other way,
a run with the other limit ends like that from the start. -/
theorem run_continues {s t : Session Buffer} {n : UInt64} {limit : Option UInt64} {e : Ending}
    (hlimit : ∀ m ∈ limit, n ≤ m) (hrun : s.RunEnds (some n) e t) :
    (e = .finished .stepLimit →
        ∀ e' u, t.RunEnds limit e' u ↔ s.RunEnds limit e' u)
      ∧ (e ≠ .finished .stepLimit → s.RunEnds limit e t) := by
  have hextends := Execution.extends_of_le hlimit
  obtain ⟨k, v, hreaches, hstops⟩ := Execution.ends_iff.mp (runEnds_iff.mp hrun)
  have hv := hreaches.mono hextends
  cases hstops with
  | atLimit _ =>
    refine ⟨fun _ e' u => ?_, fun hne => absurd rfl hne⟩
    rw [runEnds_iff, runEnds_iff]
    exact (Execution.ends_iff_of_reaches hv).symm
  | byStep hbelow hstep =>
    refine ⟨fun he => ?_, fun _ => ?_⟩
    · -- a step has ended the run, so it was not the limit
      rw [he] at hstep
      exact absurd (congrArg Prod.fst hstep) v.step_ne_stepLimit
    · exact runEnds_iff.mpr (Execution.ends_iff.mpr ⟨k, v, hv, .byStep (hextends _ hbelow) hstep⟩)

/-- A program that writes two bytes and halts, interrupted between the two. -/
theorem run_continues_two_writes :
    let s : Session Buffer := ⟨.ofMemory ((((Memory.empty.set 0 19).set 1 72).set 2 19).set 3 105),
      .ofInput []⟩
    ∃ t, s.RunEnds (some 1) (.finished .stepLimit) t ∧ Console.written t.console = [72]
      ∧ (∃ u, t.RunEnds none (.finished .halted) u ∧ Console.written u.console = [72, 105])
      ∧ ∀ e u, t.RunEnds none e u ↔ s.RunEnds none e u := by
  intro s
  have hfirst : (s.run? (some 1) 1).map (fun p => (p.1, Console.written p.2.console))
      = some (.finished .stepLimit, [72]) := by decide
  have hwhole : (s.run? none 3).map (fun p => (p.1, Console.written p.2.console))
      = some (.finished .halted, [72, 105]) := by decide
  obtain ⟨⟨e, t⟩, ht, hseen⟩ := Option.map_eq_some_iff.mp hfirst
  obtain ⟨⟨e', u⟩, hu, hseen'⟩ := Option.map_eq_some_iff.mp hwhole
  obtain ⟨rfl, hwritten⟩ := Prod.mk.inj hseen
  obtain ⟨rfl, hwritten'⟩ := Prod.mk.inj hseen'
  have hhigher : ∀ m ∈ (none : Option UInt64), 1 ≤ m := fun _ hm => nomatch hm
  have hsame := (run_continues hhigher ⟨1, ht⟩).1 rfl
  exact ⟨t, ⟨1, ht⟩, hwritten, ⟨u, (hsame _ u).mpr ⟨3, hu⟩, hwritten'⟩, hsame⟩

end Session

end RegisterMachine
