import Mathlib.Data.List.Basic
import RegisterMachine.Proofs.Paths
import RegisterMachine.Proofs.Runs
import RegisterMachine.Session.Run

/-!
# What a run does on its way

A run answers with its end, and what it did before is gone. Its steps are made from
states, though, and `Execution.departures` are those states, in order: each of them is
where a step was made, and the step says everything else. What is to be told of a whole
run, a log or an account of input and output, is told of them one after the other.

Two facts carry such a story along. An execution may take notes of where it is, as a
logged one does, and then **the notes are what its departures make of them, and nothing
else of it changes** (`Execution.run?_noting`). And what is to be shown of a run and its
departures is shown for a run that stops at once, for one last step, and for one step
more in front (`Execution.run?_along`), which is the induction on the fuel, made once. A
relation that has the notes of two parts in turn for notes of both needs even less: if it
holds of each step it holds of a run (`Session.Gathers.run`).
-/

namespace RegisterMachine

namespace Execution

variable {σ α : Type} {step : σ → Status × σ} {steps : σ → UInt64} {limit : Option UInt64}

/-- **The states that a run makes its steps from**, in order, as far as the fuel lasts. -/
def departures (step : σ → Status × σ) (steps : σ → UInt64) (limit : Option UInt64) :
    Nat → σ → List σ
  | 0, _ => []
  | fuel + 1, s =>
    if limitReached limit (steps s) then []
    else s :: match step s with
      | (.running, t) => departures step steps limit fuel t
      | (.ended _, _) => []

section

variable {s t : σ} {fuel : Nat} {e : Ending}

theorem departures_of_limitReached (h : limitReached limit (steps s) = true) :
    departures step steps limit fuel s = [] := by
  cases fuel with
  | zero => rfl
  | succ fuel => rw [departures, if_pos h]

theorem departures_of_running (h : limitReached limit (steps s) = false)
    (hstep : step s = (.running, t)) :
    departures step steps limit (fuel + 1) s = s :: departures step steps limit fuel t := by
  rw [departures, if_neg (by rw [h]; exact Bool.false_ne_true), hstep]

theorem departures_of_ended (h : limitReached limit (steps s) = false)
    (hstep : step s = (.ended e, t)) :
    departures step steps limit (fuel + 1) s = [s] := by
  rw [departures, if_neg (by rw [h]; exact Bool.false_ne_true), hstep]

/-- **Along a run.** What holds of a run that stops at the limit, of a run whose first step
is its last, and of a run that makes one step more in front of another one of which it
holds, holds of every run with its departures. -/
theorem run?_along {R : σ → List σ → Ending → σ → Prop}
    (atLimit : ∀ {s}, limitReached limit (steps s) = true → R s [] (.finished .stepLimit) s)
    (last : ∀ {s e t}, limitReached limit (steps s) = false → step s = (.ended e, t) →
      R s [s] e t)
    (first : ∀ {s t later e u}, limitReached limit (steps s) = false → step s = (.running, t) →
      R t later e u → R s (s :: later) e u)
    (h : run? step steps limit fuel s = some (e, t)) :
    R s (departures step steps limit fuel s) e t := by
  induction fuel generalizing s with
  | zero =>
    cases hlimit : limitReached limit (steps s) with
    | true =>
      rw [run?_of_limitReached hlimit] at h
      cases h
      exact atLimit hlimit
    | false =>
      rw [run?_zero hlimit] at h
      cases h
  | succ fuel ih =>
    cases hlimit : limitReached limit (steps s) with
    | true =>
      rw [run?_of_limitReached hlimit] at h
      cases h
      rw [departures_of_limitReached hlimit]
      exact atLimit hlimit
    | false =>
      rcases hs : step s with ⟨_ | e', s'⟩
      · rw [run?_of_running hlimit hs] at h
        rw [departures_of_running hlimit hs]
        exact first hlimit hs (ih h)
      · rw [run?_of_ended hlimit hs] at h
        cases h
        rw [departures_of_ended hlimit hs]
        exact last hlimit hs

/-- **What holds of each step with what is noted there holds of a run**, with the notes of all
its steps, if it holds of two parts in turn as soon as it holds of either. -/
theorem run?_gathering {β : Type} {note? : σ → Option β} {R : σ → List β → σ → Prop}
    (nil : ∀ s, R s [] s) (append : ∀ {s t u xs ys}, R s xs t → R t ys u → R s (xs ++ ys) u)
    (made : ∀ s, R s (note? s).toList (step s).2)
    (h : run? step steps limit fuel s = some (e, t)) :
    R s ((departures step steps limit fuel s).filterMap note?) t := by
  rw [List.filterMap_eq_flatMap_toList]
  refine run?_along (R := fun s ds _ t => R s (ds.flatMap fun d => (note? d).toList) t)
    (fun _ => nil _) ?_ ?_ h
  · intro s e t _ hs
    have hmade := made s
    rw [hs] at hmade
    rw [List.flatMap_singleton]
    exact hmade
  · intro s t later e u _ hs hlater
    have hmade := made s
    rw [hs] at hmade
    exact append hmade hlater

/-- **The departures are the states after no step, one step and so on**, up to the last step
that was made, which leads to the end. -/
theorem departures_eq_map_after (h : run? step steps limit fuel s = some (e, t)) :
    ∃ made, departures step steps limit fuel s = (List.range made).map (after step · s)
      ∧ after step made s = t := by
  refine run?_along (R := fun s ds _ t =>
    ∃ made, ds = (List.range made).map (after step · s) ∧ after step made s = t) ?_ ?_ ?_ h
  · intro s _
    exact ⟨0, rfl, rfl⟩
  · intro s e t _ hs
    exact ⟨1, rfl, congrArg Prod.snd hs⟩
  · rintro s t _ e u _ hs ⟨made, rfl, rfl⟩
    have hnext : (step s).2 = t := congrArg Prod.snd hs
    refine ⟨made + 1, ?_, by rw [after, hnext]⟩
    rw [List.range_succ_eq_map, List.map_cons, List.map_map]
    refine congrArg (s :: ·) (List.map_congr_left fun i _ => ?_)
    show after step i t = after step (i + 1) s
    rw [after, hnext]

variable (step steps) in
/-- **An execution that takes notes is the execution, and the notes are taken at its
departures.** What is noted at a step depends on the state it is made from. -/
theorem run?_noting {noted : σ × α → Status × σ × α} {note : α → σ → α}
    (hnoted : ∀ s a, noted (s, a) = ((step s).1, (step s).2, note a s)) (fuel : Nat) (s : σ)
    (a : α) :
    run? noted (fun p => steps p.1) limit fuel (s, a)
      = (run? step steps limit fuel s).map fun p =>
          (p.1, p.2, (departures step steps limit fuel s).foldl note a) := by
  induction fuel generalizing s a with
  | zero =>
    cases hlimit : limitReached limit (steps s) with
    | true =>
      rw [run?_of_limitReached hlimit, run?_of_limitReached (s := (s, a)) hlimit]
      rfl
    | false =>
      rw [run?_zero hlimit, run?_zero (s := (s, a)) hlimit]
      rfl
  | succ fuel ih =>
    cases hlimit : limitReached limit (steps s) with
    | true =>
      rw [run?_of_limitReached hlimit, run?_of_limitReached (s := (s, a)) hlimit,
        departures_of_limitReached hlimit]
      rfl
    | false =>
      have hs' := hnoted s a
      rcases hs : step s with ⟨_ | e, t⟩ <;> rw [hs] at hs'
      · rw [run?_of_running hlimit hs, run?_of_running (s := (s, a)) hlimit hs', ih t,
          departures_of_running hlimit hs, List.foldl_cons]
      · rw [run?_of_ended hlimit hs, run?_of_ended (s := (s, a)) hlimit hs',
          departures_of_ended hlimit hs]
        rfl

end

end Execution

namespace Session

variable {κ β : Type} [Console κ]

/-- **The sessions that a run makes its steps from**, in order. -/
def departures (limit : Option UInt64) (fuel : Nat) (s : Session κ) : List (Session κ) :=
  Execution.departures step (fun s : Session κ => s.machine.steps) limit fuel s

/-- **A relation gathers what is noted at steps**: it holds of each step with what is noted
there, of two parts in turn with the notes of both, and of a flush with none. -/
structure Gathers (note? : Session κ → Option β) (R : Session κ → List β → Session κ → Prop) :
    Prop where
  nil : ∀ s, R s [] s
  append : ∀ {s t u xs ys}, R s xs t → R t ys u → R s (xs ++ ys) u
  step : ∀ s, R s (note? s).toList s.step.2
  flush : ∀ s, R s [] ⟨s.machine, (Console.flush s.console).2⟩

/-- **So it holds of a run**, with what is noted at its departures. -/
theorem Gathers.run {note? : Session κ → Option β} {R : Session κ → List β → Session κ → Prop}
    (hR : Gathers note? R) {s t : Session κ} {limit : Option UInt64} {fuel : Nat} {e : Ending}
    (h : s.run? limit fuel = some (e, t)) :
    R s ((s.departures limit fuel).filterMap note?) t := by
  obtain ⟨e₀, u, hloop, hclose⟩ := exists_loop_of_run? h
  obtain rfl : (u.close e₀).2 = t := congrArg Prod.snd hclose
  rw [← List.append_nil ((s.departures limit fuel).filterMap note?)]
  exact hR.append (Execution.run?_gathering hR.nil hR.append hR.step hloop) (hR.flush u)

end Session

end RegisterMachine
