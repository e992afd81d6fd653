import Mathlib.Logic.Relation
import RegisterMachine.Proofs.Effects

/-!
# What a machine leads to

What a machine does next depends on the console it is given, and nothing says that it is
given the same one all the time. `Machine.StepsTo` is a step over some console, and what
holds of a machine after any number of them holds however it is driven: step by step or
in runs, with failures or without, over one console or over many. A run is no more than
its steps here, since the flush at the end of it does not reach the machine
(`Machine.RunsTo.steps`).
-/

namespace RegisterMachine

/-! ## Along a run -/

/-- What a step keeps is kept up to wherever a run gets. -/
theorem Execution.Reaches.keeps {σ : Type} {step : σ → Status × σ} {steps : σ → UInt64}
    {limit : Option UInt64} {P : σ → Prop} (hstep : ∀ s, P s → P (step s).2) {n : Nat} {s u : σ}
    (h : Reaches step steps limit n s u) (hs : P s) : P u := by
  induction h with
  | refl => exact hs
  | head _ hnext _ ih =>
    have hkept := hstep _ hs
    rw [hnext] at hkept
    exact ih hkept

namespace Session

variable {κ : Type} [Console κ] {s t : Session κ} {limit : Option UInt64} {fuel : Nat}

/-- A run is its steps, and what is made of their end. -/
theorem exists_loop_of_run? {e : Ending} (hrun : s.run? limit fuel = some (e, t)) :
    ∃ e₀ u, s.loop? limit fuel = some (e₀, u) ∧ u.close e₀ = (e, t) := by
  obtain ⟨⟨e₀, u⟩, hloop, hclose⟩ := Option.map_eq_some_iff.mp hrun
  exact ⟨e₀, u, hloop, hclose⟩

/-- What a step keeps is kept up to where the steps of a run end. -/
theorem keeps_of_loop? {P : Session κ → Prop} (hstep : ∀ s, P s → P s.step.2) {e : Ending}
    (hloop : s.loop? limit fuel = some (e, t)) (hs : P s) : P t := by
  obtain ⟨n, u, hreaches, hstops⟩ := Execution.exists_stops_of_run? hloop
  have hu : P u := hreaches.keeps hstep hs
  cases hstops with
  | atLimit _ => exact hu
  | byStep _ hlast =>
    have hkept := hstep u hu
    rw [hlast] at hkept
    exact hkept

/-- **What steps keep, and flushing does, a run keeps.** -/
theorem keeps_of_run? {P : Session κ → Prop} (hstep : ∀ s, P s → P s.step.2)
    (hflush : ∀ s, P s → P ⟨s.machine, (Console.flush s.console).2⟩) {e : Ending}
    (hrun : s.run? limit fuel = some (e, t)) (hs : P s) : P t := by
  obtain ⟨e₀, u, hloop, hclose⟩ := exists_loop_of_run? hrun
  obtain rfl : (u.close e₀).2 = t := congrArg Prod.snd hclose
  exact hflush u (keeps_of_loop? hstep hloop hs)

/-- A run that ends in a fault which is not the console's own was ended by a step. -/
theorem exists_step_of_run?_failed {fault : Fault}
    (hrun : s.run? limit fuel = some (.failed fault, t))
    (hfault : ∀ message, fault ≠ .console message) :
    ∃ n u, Execution.Reaches step (fun s : Session κ => s.machine.steps) limit n s u
      ∧ u.step.1 = .ended (.failed fault) := by
  obtain ⟨e, u, hloop, hclose⟩ := exists_loop_of_run? hrun
  obtain ⟨n, v, hreaches, hstops⟩ := Execution.exists_stops_of_run? hloop
  have hending : closeEnding e (Console.flush u.console).1 = .failed fault :=
    congrArg Prod.fst hclose
  obtain rfl : e = .failed fault := by
    cases e with
    | failed other => rwa [closeEnding_failed] at hending
    | finished outcome =>
      cases hflush : (Console.flush u.console).1 with
      | ok done =>
        rw [hflush, closeEnding_ok] at hending
        exact hending
      | error message =>
        rw [hflush] at hending
        cases hending
        exact absurd rfl (hfault message)
  cases hstops with
  | byStep _ hlast => exact ⟨n, v, hreaches, congrArg Prod.fst hlast⟩

end Session

/-! ## What a machine leads to -/

namespace Machine

/-- **A step over some console takes one machine to another**, whether or not it fails. -/
def StepsTo (m m' : Machine) : Prop :=
  ∃ (κ : Type) (_ : Console κ) (k : κ), (⟨m, k⟩ : Session κ).step.2.machine = m'

/-- **A run over some console takes one machine to another**, however it ends. -/
def RunsTo (m m' : Machine) : Prop :=
  ∃ (κ : Type) (_ : Console κ) (k : κ) (limit : Option UInt64) (fuel : Nat) (e : Ending)
    (t : Session κ), (⟨m, k⟩ : Session κ).run? limit fuel = some (e, t) ∧ t.machine = m'

/-- **What a machine leads to**: the machines it can be after any number of steps and runs,
each of them over any console. -/
def LeadsTo : Machine → Machine → Prop :=
  Relation.ReflTransGen fun m m' => m.StepsTo m' ∨ m.RunsTo m'

variable {m m' : Machine}

/-- There is always a step to make. -/
theorem exists_stepsTo (m : Machine) : ∃ m', m.StepsTo m' :=
  ⟨_, Buffer, inferInstance, .ofInput [], rfl⟩

/-- Where a rule gives the same effect over every console, every step carries it out. -/
theorem StepsTo.eq_perform {i : Instruction Word} {e : Effect} (h : m.StepsTo m')
    (hi : m.Executes i)
    (hyields : ∀ {κ : Type} [Console κ] (k : κ),
      m.marked.Yields (m.behind i) k (i.map Operand.named) e k) :
    m' = m.marked.perform e := by
  obtain ⟨κ, _, k, rfl⟩ := h
  rw [Session.step_of_yields (s := ⟨m, k⟩) hi (hyields k)]

/-- **A `call` puts the address behind it on the stack.** -/
theorem StepsTo.stack_of_call {target : Word} (h : m.StepsTo m')
    (hi : m.Executes (.call target)) : m'.stack = m.behind (.call target) :: m.stack := by
  rw [h.eq_perform hi fun _ => .call]
  rfl

/-- Where a session gets in steps, its machine gets. -/
theorem steps_of_reaches {κ : Type} [Console κ] {s u : Session κ} {limit : Option UInt64} {n : Nat}
    (h : Execution.Reaches Session.step (fun s : Session κ => s.machine.steps) limit n s u) :
    Relation.ReflTransGen StepsTo s.machine u.machine :=
  h.keeps (P := fun t => Relation.ReflTransGen StepsTo s.machine t.machine)
    (fun t ht => ht.tail ⟨κ, inferInstance, t.console, rfl⟩) .refl

/-- **To a machine a run is its steps.** -/
theorem RunsTo.steps (h : m.RunsTo m') : Relation.ReflTransGen StepsTo m m' := by
  obtain ⟨κ, _, k, limit, fuel, e, t, hrun, rfl⟩ := h
  exact Session.keeps_of_run? (P := fun t => Relation.ReflTransGen StepsTo m t.machine)
    (fun t ht => ht.tail ⟨κ, inferInstance, t.console, rfl⟩) (fun _ ht => ht) hrun .refl

/-- So whatever a machine leads to, it leads to in steps. -/
theorem leadsTo_iff : m.LeadsTo m' ↔ Relation.ReflTransGen StepsTo m m' := by
  constructor
  · intro h
    induction h with
    | refl => exact .refl
    | tail _ hlast ih => exact hlast.elim ih.tail fun hrun => ih.trans hrun.steps
  · exact Relation.ReflTransGen.mono (fun _ _ hstep => Or.inl hstep) m m'

end Machine

end RegisterMachine
