import RegisterMachine.Execution

/-!
# Runs, one step at a time

`Execution.run?` answers for a whole run. What leads to a place in the middle of
one is `Execution.Reaches`: so many steps, none of them made at the limit and
none of them the last. A run goes through every place it reaches
(`Execution.run?_of_reaches`).

Facts about a run are facts about a step, carried along. For two executions
whose states correspond as long as nothing goes wrong in the first,
`Execution.run?_follows` is the induction, made once: **they end alike, or both
reach the place where it goes wrong**.

Where the amount of fuel does not matter, a run is what it ends in:
`Execution.Ends` says that there is an end to it, and which. It is found by
walking to the last state and looking there (`Execution.ends_iff`).
-/

namespace RegisterMachine.Execution

variable {σ τ : Type} {step : σ → Status × σ} {steps : σ → UInt64} {limit : Option UInt64}

/-- **So many steps lead from one state to another** in a run with this limit:
each is made below the limit, and the execution is running after it. -/
inductive Reaches (step : σ → Status × σ) (steps : σ → UInt64) (limit : Option UInt64) :
    Nat → σ → σ → Prop where
  /-- No step is made. -/
  | refl {s : σ} : Reaches step steps limit 0 s s
  /-- One step is made first. -/
  | head {n : Nat} {s t u : σ} : limitReached limit (steps s) = false → step s = (.running, t) →
      Reaches step steps limit n t u → Reaches step steps limit (n + 1) s u

section

variable {s t u : σ} {n fuel : Nat} {e : Ending}

/-! ## What a run does first -/

theorem run?_of_limitReached (h : limitReached limit (steps s) = true) :
    run? step steps limit fuel s = some (.finished .stepLimit, s) := by
  unfold run?
  rw [if_pos h]

theorem run?_zero (h : limitReached limit (steps s) = false) :
    run? step steps limit 0 s = none := by
  unfold run?
  rw [if_neg (by rw [h]; exact Bool.false_ne_true)]

theorem run?_of_running (h : limitReached limit (steps s) = false)
    (hstep : step s = (.running, t)) :
    run? step steps limit (fuel + 1) s = run? step steps limit fuel t := by
  rw [run?, if_neg (by rw [h]; exact Bool.false_ne_true), hstep]

theorem run?_of_ended (h : limitReached limit (steps s) = false)
    (hstep : step s = (.ended e, t)) :
    run? step steps limit (fuel + 1) s = some (e, t) := by
  rw [run?, if_neg (by rw [h]; exact Bool.false_ne_true), hstep]

/-- **A run goes through every state it reaches.** -/
theorem run?_of_reaches (h : Reaches step steps limit n s u) :
    run? step steps limit (n + fuel) s = run? step steps limit fuel u := by
  induction h with
  | refl => rw [Nat.zero_add]
  | head hlimit hstep _ ih => rw [Nat.add_right_comm, run?_of_running hlimit hstep, ih]

/-- A step that ends the execution, made within the fuel, is where the run
ends. -/
theorem run?_of_reaches_ended (h : Reaches step steps limit n s u) (hn : n < fuel)
    (hlimit : limitReached limit (steps u) = false) (hstep : step u = (.ended e, t)) :
    run? step steps limit fuel s = some (e, t) := by
  obtain ⟨more, rfl⟩ := Nat.exists_eq_add_of_lt hn
  rw [Nat.add_assoc, run?_of_reaches h]
  exact run?_of_ended hlimit hstep

end

/-! ## Runs that come to an end -/

/-- **A run comes to this end**, given enough fuel. -/
def Ends (step : σ → Status × σ) (steps : σ → UInt64) (limit : Option UInt64) (s : σ)
    (e : Ending) (t : σ) : Prop :=
  ∃ fuel, run? step steps limit fuel s = some (e, t)

/-- **A run stops in a state**: the limit is reached there, or the step made from
it ends the execution. -/
inductive Stops (step : σ → Status × σ) (steps : σ → UInt64) (limit : Option UInt64) (u : σ) :
    Ending → σ → Prop where
  /-- No further step is allowed. -/
  | atLimit : limitReached limit (steps u) = true →
      Stops step steps limit u (.finished .stepLimit) u
  /-- One more step is allowed, and it is the last. -/
  | byStep {e : Ending} {t : σ} : limitReached limit (steps u) = false → step u = (.ended e, t) →
      Stops step steps limit u e t

section

variable {s t u : σ} {n fuel : Nat} {e : Ending}

/-- From any state that a run goes through, it goes on to the same end. -/
theorem ends_iff_of_reaches (h : Reaches step steps limit n s u) :
    Ends step steps limit s e t ↔ Ends step steps limit u e t := by
  constructor
  · rintro ⟨fuel, hrun⟩
    refine ⟨fuel, ?_⟩
    rw [← run?_of_reaches h]
    exact run?_of_le hrun (Nat.le_add_left fuel n)
  · rintro ⟨fuel, hrun⟩
    exact ⟨n + fuel, (run?_of_reaches h).trans hrun⟩

/-- A run that answers has reached a state in which it stops. -/
theorem exists_stops_of_run? (h : run? step steps limit fuel s = some (e, t)) :
    ∃ n u, Reaches step steps limit n s u ∧ Stops step steps limit u e t := by
  induction fuel generalizing s with
  | zero =>
    cases hlimit : limitReached limit (steps s) with
    | true =>
      rw [run?_of_limitReached hlimit] at h
      cases h
      exact ⟨0, t, .refl, .atLimit hlimit⟩
    | false =>
      rw [run?_zero hlimit] at h
      cases h
  | succ fuel ih =>
    cases hlimit : limitReached limit (steps s) with
    | true =>
      rw [run?_of_limitReached hlimit] at h
      cases h
      exact ⟨0, t, .refl, .atLimit hlimit⟩
    | false =>
      rcases hs : step s with ⟨_ | e', s'⟩
      · rw [run?_of_running hlimit hs] at h
        obtain ⟨n, u, hu, hstops⟩ := ih h
        exact ⟨n + 1, u, .head hlimit hs hu, hstops⟩
      · rw [run?_of_ended hlimit hs] at h
        cases h
        exact ⟨0, s, .refl, .byStep hlimit hs⟩

/-- States with the same next step, and with the same right to make it, come to
the same end. -/
theorem ends_iff_of_step_eq {s' : σ} (hlimit : limitReached limit (steps s) = false)
    (hsteps : steps s' = steps s) (hstep : step s' = step s) :
    Ends step steps limit s' e t ↔ Ends step steps limit s e t := by
  have hlimit' : limitReached limit (steps s') = false := hsteps ▸ hlimit
  refine exists_congr fun fuel => ?_
  cases fuel with
  | zero => rw [run?_zero hlimit, run?_zero hlimit']
  | succ fuel =>
    rcases hs : step s with ⟨_ | e', u⟩
    · rw [run?_of_running hlimit hs, run?_of_running hlimit' (hstep.trans hs)]
    · rw [run?_of_ended hlimit hs, run?_of_ended hlimit' (hstep.trans hs)]

/-- A run answers at once in a state in which it stops. -/
theorem Stops.ends (h : Stops step steps limit u e t) : Ends step steps limit u e t := by
  cases h with
  | atLimit hlimit => exact ⟨0, run?_of_limitReached hlimit⟩
  | byStep hlimit hstep => exact ⟨1, run?_of_ended hlimit hstep⟩

/-- **A run ends where it reaches a state in which it stops**, and nowhere else. -/
theorem ends_iff :
    Ends step steps limit s e t
      ↔ ∃ n u, Reaches step steps limit n s u ∧ Stops step steps limit u e t := by
  constructor
  · rintro ⟨fuel, hrun⟩
    exact exists_stops_of_run? hrun
  · rintro ⟨n, u, hreaches, hstops⟩
    exact (ends_iff_of_reaches hreaches).mpr hstops.ends

end

/-! ## Two executions at once -/

/-- **Two answers agree**: neither is there, or both give back the same, in
corresponding states. -/
def Agree {α : Type} (R : σ → τ → Prop) : Option (α × σ) → Option (α × τ) → Prop :=
  Option.Rel fun p q => p.1 = q.1 ∧ R p.2 q.2

/-- Answers that agree still do when something is made of each of them. -/
theorem Agree.map {α β : Type} {R R' : σ → τ → Prop} {p : Option (α × σ)} {q : Option (α × τ)}
    {f : α × σ → β × σ} {g : α × τ → β × τ} (h : Agree R p q)
    (hmap : ∀ {a s t}, R s t →
      (f (a, s)).1 = (g (a, t)).1 ∧ R' (f (a, s)).2 (g (a, t)).2) :
    Agree R' (p.map f) (q.map g) := by
  cases h with
  | none => exact .none
  | @some p q hends =>
    obtain ⟨a, s⟩ := p
    obtain ⟨b, t⟩ := q
    obtain ⟨rfl, hst⟩ : a = b ∧ R s t := hends
    exact .some (hmap hst)

/-- Answers that agree are the same to whoever makes the same of corresponding states. -/
theorem Agree.map_eq {α β : Type} {R : σ → τ → Prop} {p : Option (α × σ)} {q : Option (α × τ)}
    {f : α × σ → β} {g : α × τ → β} (h : Agree R p q)
    (hmap : ∀ {a s t}, R s t → f (a, s) = g (a, t)) : p.map f = q.map g := by
  cases h with
  | none => rfl
  | @some p q hends =>
    obtain ⟨a, s⟩ := p
    obtain ⟨b, t⟩ := q
    obtain ⟨rfl, hst⟩ : a = b ∧ R s t := hends
    exact congrArg some (hmap hst)

/-- **Two executions follow each other.** Corresponding states have made the
same number of steps, and a step from them has the same status and leads to
corresponding states, unless something goes wrong with the first of them. Then
the two runs come to the same end, in corresponding states, if they come to
one, or else as many steps lead both of them to where it goes wrong. -/
theorem run?_follows {step' : τ → Status × τ} {steps' : τ → UInt64} {R : σ → τ → Prop}
    {Wrong : σ → Prop} (hsteps : ∀ {s t}, R s t → steps s = steps' t)
    (hstep : ∀ {s t}, R s t →
      Wrong s ∨ ((step s).1 = (step' t).1 ∧ R (step s).2 (step' t).2))
    (fuel : Nat) {s : σ} {t : τ} (h : R s t) :
    (∃ n u v, n < fuel ∧ Reaches step steps limit n s u ∧ Reaches step' steps' limit n t v
        ∧ R u v ∧ limitReached limit (steps u) = false ∧ Wrong u)
      ∨ Agree R (run? step steps limit fuel s) (run? step' steps' limit fuel t) := by
  induction fuel generalizing s t with
  | zero =>
    refine .inr ?_
    cases hlimit : limitReached limit (steps s) with
    | true =>
      rw [run?_of_limitReached hlimit, run?_of_limitReached (hsteps h ▸ hlimit)]
      exact .some ⟨rfl, h⟩
    | false =>
      rw [run?_zero hlimit, run?_zero (hsteps h ▸ hlimit)]
      exact .none
  | succ fuel ih =>
    cases hlimit : limitReached limit (steps s) with
    | true =>
      rw [run?_of_limitReached hlimit, run?_of_limitReached (hsteps h ▸ hlimit)]
      exact .inr (.some ⟨rfl, h⟩)
    | false =>
      have hlimit' : limitReached limit (steps' t) = false := hsteps h ▸ hlimit
      rcases hstep h with hwrong | ⟨hstatus, hnext⟩
      · exact .inl ⟨0, s, t, Nat.succ_pos fuel, .refl, .refl, h, hlimit, hwrong⟩
      rcases hs : step s with ⟨_ | e, s'⟩ <;> rcases ht : step' t with ⟨_ | e', t'⟩ <;>
        rw [hs, ht] at hstatus hnext
      · rw [run?_of_running hlimit hs, run?_of_running hlimit' ht]
        -- what goes wrong after this step goes wrong one step later from here
        rcases ih hnext with ⟨n, u, v, hn, hu, hv, hrest⟩ | hrel
        · exact .inl ⟨n + 1, u, v, Nat.succ_lt_succ hn, .head hlimit hs hu,
            .head hlimit' ht hv, hrest⟩
        · exact .inr hrel
      · cases hstatus
      · cases hstatus
      · rw [run?_of_ended hlimit hs, run?_of_ended hlimit' ht]
        exact .inr (.some ⟨Status.ended.inj hstatus, hnext⟩)

/-- **The state after so many steps**, whatever their statuses are: an execution that
has ended can be stepped on. -/
def after (step : σ → Status × σ) : Nat → σ → σ
  | 0, s => s
  | n + 1, s => after step n (step s).2

/-- **Two executions follow each other step by step**, as long as nothing goes wrong
with the first of them: every step has the same status, and the states after it
correspond. -/
theorem after_follows {step' : τ → Status × τ} {R : σ → τ → Prop} {Wrong : σ → Prop}
    (hstep : ∀ {s t}, R s t →
      Wrong s ∨ ((step s).1 = (step' t).1 ∧ R (step s).2 (step' t).2))
    (n : Nat) {s : σ} {t : τ} (h : R s t) (hright : ∀ k < n, ¬ Wrong (after step k s)) :
    (∀ k < n, (step (after step k s)).1 = (step' (after step' k t)).1)
      ∧ R (after step n s) (after step' n t) := by
  induction n generalizing s t with
  | zero => exact ⟨fun k hk => absurd hk (Nat.not_lt_zero k), h⟩
  | succ n ih =>
    rcases hstep h with hwrong | ⟨hstatus, hnext⟩
    · exact absurd hwrong (hright 0 (Nat.succ_pos n))
    · obtain ⟨hstatuses, hlast⟩ := ih hnext fun k hk => hright (k + 1) (Nat.succ_lt_succ hk)
      refine ⟨fun k hk => ?_, hlast⟩
      cases k with
      | zero => exact hstatus
      | succ k => exact hstatuses k (Nat.lt_of_succ_lt_succ hk)

/-! ## An execution inside another -/

section

variable {step' : τ → Status × τ} {steps' : τ → UInt64} {f : σ → τ} {s : σ}

/-- Where each step that goes on is a step of another execution, what is reached
is reached there. -/
theorem Reaches.map {n : Nat} {u : σ} (hsteps : ∀ s, steps' (f s) = steps s)
    (hstep : ∀ {s t}, step s = (.running, t) → step' (f s) = (.running, f t))
    (h : Reaches step steps limit n s u) : Reaches step' steps' limit n (f s) (f u) := by
  induction h with
  | refl => exact .refl
  | head hlimit hs _ ih => exact .head ((hsteps _).symm ▸ hlimit) (hstep hs) ih

/-- **Where every step is a step of another execution, a run is a run there.** -/
theorem run?_map (hsteps : ∀ s, steps' (f s) = steps s)
    (hstep : ∀ s, step' (f s) = ((step s).1, f (step s).2)) (fuel : Nat) (s : σ) :
    run? step' steps' limit fuel (f s)
      = (run? step steps limit fuel s).map fun p => (p.1, f p.2) := by
  induction fuel generalizing s with
  | zero =>
    cases hlimit : limitReached limit (steps s) with
    | true =>
      rw [run?_of_limitReached hlimit, run?_of_limitReached ((hsteps s).symm ▸ hlimit)]
      rfl
    | false =>
      rw [run?_zero hlimit, run?_zero ((hsteps s).symm ▸ hlimit)]
      rfl
  | succ fuel ih =>
    cases hlimit : limitReached limit (steps s) with
    | true =>
      rw [run?_of_limitReached hlimit, run?_of_limitReached ((hsteps s).symm ▸ hlimit)]
      rfl
    | false =>
      have hlimit' : limitReached limit (steps' (f s)) = false := (hsteps s).symm ▸ hlimit
      have hs' := hstep s
      rcases hs : step s with ⟨_ | e, t⟩ <;> rw [hs] at hs'
      · rw [run?_of_running hlimit hs, run?_of_running hlimit' hs', ih t]
      · rw [run?_of_ended hlimit hs, run?_of_ended hlimit' hs']
        rfl

/-- So it comes to an end exactly if it does there. -/
theorem ends_map_iff {e : Ending} {r : τ} (hsteps : ∀ s, steps' (f s) = steps s)
    (hstep : ∀ s, step' (f s) = ((step s).1, f (step s).2)) :
    Ends step' steps' limit (f s) e r ↔ ∃ t, Ends step steps limit s e t ∧ r = f t := by
  unfold Ends
  simp only [run?_map hsteps hstep, Option.map_eq_some_iff]
  constructor
  · rintro ⟨fuel, ⟨e', t⟩, hrun, hp⟩
    obtain ⟨rfl, rfl⟩ := Prod.mk.inj hp
    exact ⟨t, ⟨fuel, hrun⟩, rfl⟩
  · rintro ⟨t, ⟨fuel, hrun⟩, rfl⟩
    exact ⟨fuel, (e, t), hrun, rfl⟩

end

end RegisterMachine.Execution
