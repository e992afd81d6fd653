import RegisterMachine.Proofs.Streams
import RegisterMachine.Proofs.Verdicts

/-!
# Faults of the console cut a run short

Reading, writing and flushing may each be refused, now and then or for good and
in any combination, and a fault of the source moves the borders of what it delivers
before that. A run shows nothing of this but its end
(`Session.run_cut_short_by_faults`): up to the first call that fails it is the run
without faults, and if only the flush after it fails it is that run to the end.

The two runs are compared by `Session.Alike`, over a stream to which nothing
was refused so far and one to which nothing ever will be. What is refused to
the first is recorded, so the record of a stream at the end of the run tells
which of the cases it is.
-/

namespace RegisterMachine.Session

section

variable {κ : Type} [Console κ]

/-- **The instruction to be executed is an `in` or an `out`, and its call of the
console fails** with this message, leaving this console behind. -/
inductive CallFails (s : Session κ) (message : String) (k : κ) : Prop where
  | reading {dst : Word} : s.machine.Executes (.input dst) →
      Console.read s.console = (.error message, k) → CallFails s message k
  | writing {src : Word} : s.machine.Executes (.output src) →
      Console.write (s.machine.wordValue src).lowByte s.console = (.error message, k) →
      CallFails s message k

variable {s : Session κ} {message : String} {k : κ}

/-- An instruction whose call fails leaves the machine where it is. -/
theorem CallFails.step (h : s.CallFails message k) :
    s.step = (.ended (.failed (.console message)), ⟨s.machine.marked, k⟩) := by
  cases h with
  | reading hexecutes hread =>
    rw [step_of_executes hexecutes]
    exact make_read_error hread
  | @writing src hexecutes hwrite =>
    rw [step_of_executes hexecutes]
    rw [← Machine.value_named_marked] at hwrite
    exact make_write_error hwrite

/-- A failed call adds no output. -/
theorem CallFails.written {κ : Type} [Console.Accountable κ] {s : Session κ} {k : κ}
    (h : s.CallFails message k) : Console.written k = Console.written s.console := by
  cases h with
  | reading _ hread => exact Console.written_of_read hread
  | writing _ hwrite => exact (Console.written_of_write hwrite).trans (List.append_nil _)

/-- A failed call is the only way for a step to end in a failure of the
console. -/
theorem ConsoleFails.exists_callFails (h : s.ConsoleFails) :
    ∃ message k, s.CallFails message k := by
  obtain ⟨message, hfailed⟩ := h
  obtain ⟨status, hverdict⟩ := s.exists_verdict
  rw [step_of_verdict hverdict] at hfailed
  cases hverdict with
  | readFailed hexecutes hread => exact ⟨_, _, .reading hexecutes (Prod.ext hread rfl)⟩
  | writeFailed hexecutes hwrite => exact ⟨_, _, .writing hexecutes (Prod.ext hwrite rfl)⟩
  | _ => cases hfailed

end

/-! ## Up to the first fault -/

/-- Over a stream, a failed call is recorded. -/
theorem CallFails.refused {s : Session Stream} {message : String} {k : Stream}
    (h : s.CallFails message k) : k.refused = true := by
  cases h with
  | reading _ hread =>
    have hrefused := s.console.refused_read
    rw [show s.console.read = (.error message, k) from hread] at hrefused
    exact hrefused.trans (Bool.or_true _)
  | @writing src _ hwrite =>
    have hrefused := s.console.refused_write (s.machine.wordValue src).lowByte
    rw [show s.console.write _ = (.error message, k) from hwrite] at hrefused
    exact hrefused.trans (Bool.or_true _)

/-- **A failed call of the console cut the run of `s` off**, where that of `t`
goes on: as many steps lead both of them to an instruction whose call fails for
the first of them, and `r` has the memory and the processor from just before
that instruction, and the output from then. -/
def CutOff (limit : Option UInt64) (s t : Session Stream) (message : String)
    (r : Session Stream) : Prop :=
  ∃ n u v k, Execution.Reaches step (fun s => s.machine.steps) limit n s u
    ∧ Execution.Reaches step (fun s => s.machine.steps) limit n t v
    ∧ Execution.limitReached limit v.machine.steps = false
    ∧ u.machine = v.machine ∧ u.CallFails message k
    ∧ r.machine.memory = v.machine.memory
    ∧ r.machine.toProcessor = v.machine.toProcessor
    ∧ Console.written r.console = Console.written v.console

variable {s t : Session Stream} {limit : Option UInt64} {fuel : Nat}

/-- **The steps of a run, with faults and without**: either a call of the
console cuts them off, and that is recorded, or nothing was refused to any of
them and they are the same. -/
theorem loop?_of_alike (h : Alike Stream.Sound Stream.Reliable s t) {e : Ending}
    {r : Session Stream} (hloop : s.loop? limit fuel = some (e, r)) :
    (r.console.refused = true
        ∧ ∃ message, e = .failed (.console message) ∧ CutOff limit s t message r)
      ∨ (r.console.refused = false
        ∧ ∃ v, t.loop? limit fuel = some (e, v) ∧ Alike Stream.Sound Stream.Reliable r v) := by
  rcases h.loop Stream.honest Stream.unfailing limit fuel with
    ⟨n, u, v, hn, hu, hv, huv, hlimit, hfails⟩ | hagree
  · refine .inl ?_
    obtain ⟨message, k, hcall⟩ := hfails.exists_callFails
    have hend : s.loop? limit fuel
        = some (.failed (.console message), ⟨u.machine.marked, k⟩) :=
      Execution.run?_of_reaches_ended hu hn hlimit hcall.step
    rw [hend] at hloop
    obtain ⟨rfl, rfl⟩ := Prod.mk.inj (Option.some.inj hloop)
    refine ⟨hcall.refused, message, rfl, n, u, v, k, hu, hv, ?_, huv.machine, hcall, ?_, ?_, ?_⟩
    · rw [← huv.machine]
      exact hlimit
    · rw [← huv.machine]
      rfl
    · rw [← huv.machine]
      rfl
    · exact hcall.written.trans huv.views.written
  · refine .inr ?_
    rw [hloop] at hagree
    generalize t.loop? limit fuel = ended at hagree ⊢
    cases hagree with
    | @some _ q hends =>
      obtain ⟨e', v⟩ := q
      obtain ⟨rfl, hrv⟩ : e = e' ∧ Alike Stream.Sound Stream.Reliable r v := hends
      exact ⟨hrv.left.2, v, rfl, hrv⟩

/-! ## To the end -/

/-- What was cut off stays cut off when the console is flushed. -/
theorem CutOff.close {message : String} {r : Session Stream} (h : CutOff limit s t message r)
    (e : Ending) : CutOff limit s t message (r.close e).2 := by
  obtain ⟨n, u, v, k, hu, hv, hlimit, huv, hcall, hmemory, hprocessor, hwritten⟩ := h
  refine ⟨n, u, v, k, hu, hv, hlimit, huv, hcall, hmemory, hprocessor, ?_⟩
  exact (Console.written_flush r.console).trans hwritten

/-- Over a reliable stream the run ends the way its steps do, and what is seen
of it is seen of any session that is alike. -/
theorem Alike.run?_right {r v : Session Stream} {e : Ending}
    (h : Alike Stream.Sound Stream.Reliable r v) (hloop : t.loop? limit fuel = some (e, v)) :
    ∃ w, t.run? limit fuel = some (e, w) ∧ (r.close e).2.machine = w.machine
      ∧ Console.written (r.close e).2.console = Console.written w.console := by
  obtain ⟨l, hl⟩ := Stream.unfailing.flush_works h.right
  refine ⟨(v.close e).2, ?_, h.machine, h.views.flush.written⟩
  unfold run?
  rw [hloop]
  show some (closeEnding e (Console.flush v.console).1, (v.close e).2) = some (e, (v.close e).2)
  rw [hl, closeEnding_ok]

/-- **A fault of the console cuts a run short and changes nothing else of it.**
Let a run over a fresh stream with faults come to an end, and let `u` be where
its steps ended, so that only the flush at the end of the run was still to come.
If nothing was refused to the run, it is the run without faults. If something
was refused to its steps, a call of the console cut them off, and the run ends
with the message of that call. If only the last flush failed, all but the ending
is that of the run without faults, and so is the ending if it is a fault; an
outcome gives way to the message of the flush. -/
theorem run_cut_short_by_faults (m : Machine) (input : List Byte) (chunk : Nat) (hchunk : 0 < chunk)
    (faults : Stream.Faults) (limit : Option UInt64) (fuel : Nat) (e : Ending)
    (r : Session Stream)
    (hrun : (⟨m, .fresh input chunk faults⟩ : Session Stream).run? limit fuel = some (e, r)) :
    let faulty : Session Stream := ⟨m, .fresh input chunk faults⟩
    let clean : Session Stream := ⟨m, .fresh input chunk {}⟩
    ∃ e₀ u, faulty.loop? limit fuel = some (e₀, u) ∧ (e, r) = u.close e₀
      ∧ (r.console.refused = false →
          ∃ t, clean.run? limit fuel = some (e, t) ∧ r.machine = t.machine
            ∧ Console.written r.console = Console.written t.console)
      ∧ (u.console.refused = true →
          ∃ message, e = .failed (.console message) ∧ CutOff limit faulty clean message r)
      ∧ (u.console.refused = false → ∀ message, (Console.flush u.console).1 = .error message →
          ∃ e₁ t, clean.run? limit fuel = some (e₁, t) ∧ r.machine = t.machine
            ∧ Console.written r.console = Console.written t.console
            ∧ (∀ outcome, e₁ = .finished outcome → e = .failed (.console message))
            ∧ (∀ fault, e₁ = .failed fault → e = .failed fault)) := by
  intro faulty clean
  have halike : Alike Stream.Sound Stream.Reliable faulty clean :=
    ⟨rfl, ⟨rfl, rfl⟩, Stream.sound_fresh hchunk input faults, Stream.reliable_fresh hchunk input⟩
  obtain ⟨⟨e₀, u⟩, hloop, hclose⟩ := Option.map_eq_some_iff.mp hrun
  have hending : closeEnding e₀ (Console.flush u.console).1 = e := congrArg Prod.fst hclose
  have hr : (u.close e₀).2 = r := congrArg Prod.snd hclose
  have hrefused : r.console.refused
      = (u.console.refused || !(Console.flush u.console).1.isOk) := by
    rw [← hr]
    exact u.console.refused_flush
  refine ⟨e₀, u, hloop, hclose.symm, ?_⟩
  rcases loop?_of_alike halike hloop with ⟨hu, message, rfl, hcut⟩ | ⟨hu, v, hv, huv⟩
  · -- something was refused to the steps, so only the second case is left
    refine ⟨fun hnot => ?_, fun _ => ⟨message, ?_, ?_⟩, fun hnot => ?_⟩
    · rw [hu, Bool.true_or] at hrefused
      rw [hrefused] at hnot
      cases hnot
    · rw [← hending]
      exact closeEnding_failed _ _
    · rw [← hr]
      exact hcut.close _
    · rw [hu] at hnot
      cases hnot
  · obtain ⟨t, ht, hmachine, hwritten⟩ := huv.run?_right hv
    rw [hr] at hmachine hwritten
    refine ⟨fun hnone => ?_, fun hsome => ?_, fun _ message hflush => ?_⟩
    · rw [hnone, hu, Bool.false_or] at hrefused
      cases hflush : (Console.flush u.console).1 with
      | error message =>
        rw [hflush] at hrefused
        cases hrefused
      | ok done =>
        rw [hflush, closeEnding_ok] at hending
        rw [← hending]
        exact ⟨t, ht, hmachine, hwritten⟩
    · rw [hu] at hsome
      cases hsome
    · rw [hflush] at hending
      refine ⟨e₀, t, ht, hmachine, hwritten, fun outcome he => ?_, fun fault he => ?_⟩
      · rw [← hending, he]
        rfl
      · rw [← hending, he]
        rfl

/-- A sink that takes one byte and cannot be flushed, and a program that writes
two: the second write cuts the run off, and it is the message of that write that
the run ends with. -/
theorem run_cut_short_by_full_sink :
    let m := Machine.ofMemory ((((Memory.empty.set 0 19).set 1 65).set 2 19).set 3 66)
    let faults : Stream.Faults :=
      { write := some (.lasting 1 fun _ => "full"), flush := some (.lasting 1 fun _ => "closed") }
    let faulty : Session Stream := ⟨m, .fresh [] 1 faults⟩
    ∃ r, faulty.run? none 3 = some (.failed (.console "full"), r)
      ∧ CutOff none faulty ⟨m, .fresh [] 1 {}⟩ "full" r ∧ Console.written r.console = [65] := by
  intro m faults faulty
  have hseen : (faulty.run? none 3).map (fun p => (p.1, Console.written p.2.console))
      = some (.failed (.console "full"), [65]) := by decide
  have hsteps : (faulty.loop? none 3).map (fun p => p.2.console.refused) = some true := by decide
  obtain ⟨⟨e, r⟩, hrun, hend⟩ := Option.map_eq_some_iff.mp hseen
  obtain ⟨rfl, hwritten⟩ := Prod.mk.inj hend
  obtain ⟨e₀, u, hloop, -, -, hcut, -⟩ :=
    run_cut_short_by_faults m [] 1 (by decide) faults none 3 _ r hrun
  rw [hloop] at hsteps
  obtain ⟨message, hmessage, hcutOff⟩ := hcut (Option.some.inj hsteps)
  cases hmessage
  exact ⟨r, hrun, hcutOff, hwritten⟩

end RegisterMachine.Session
