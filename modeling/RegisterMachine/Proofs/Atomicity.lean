import RegisterMachine.Console.Stream
import RegisterMachine.Proofs.Moves

/-!
# A step happens or it does not

An instruction may take a word off the stack or a byte off the input before it
gets to its write, so a fault half-way through would leave a trace. None does.
`Session.step_failed_unchanged` says so for every machine and every console: a
step that ends in a fault leaves the memory and the processor as they were, and
neither hands out input nor adds output.

Most faults are met before the console comes into it at all. What "not asked"
means is said without looking inside a console: **the same machine would have
met the same fault over any other one**, and given it back as it got it.

The work was done when the effect of an instruction was made a value. What is
left to see here is that the console's own laws cover the faults it raises.
-/

namespace RegisterMachine.Session

variable {κ : Type} [Console.Accountable κ]

/-- A write that does not end well blames the console, and changes nothing. -/
theorem make_write_failed {s : Session κ} {b : Byte} {after : Machine} {fault : Fault}
    (h : (s.make (.write b after)).1 = .ended (.failed fault)) :
    (∃ message, fault = .console message)
      ∧ (s.make (.write b after)).2.machine = s.machine.marked
      ∧ Console.remaining (s.make (.write b after)).2.console = Console.remaining s.console
      ∧ Console.written (s.make (.write b after)).2.console = Console.written s.console := by
  rcases hc : Console.write b s.console with ⟨message | _, k⟩
  · rw [make_write_error hc] at h ⊢
    cases h
    exact ⟨⟨message, rfl⟩, rfl, Console.remaining_of_write hc,
      (Console.written_of_write hc).trans (List.append_nil _)⟩
  · rw [make_write_ok hc] at h
    cases h

/-- A read that does not end well blames the console or the end of the input,
and changes nothing. -/
theorem make_read_failed {s : Session κ} {after : Byte → Machine} {fault : Fault}
    (h : (s.make (.read after)).1 = .ended (.failed fault)) :
    ((∃ message, fault = .console message) ∨ fault = .inputExhausted s.machine.ip)
      ∧ (s.make (.read after)).2.machine = s.machine.marked
      ∧ Console.remaining (s.make (.read after)).2.console = Console.remaining s.console
      ∧ Console.written (s.make (.read after)).2.console = Console.written s.console := by
  rcases hc : Console.read s.console with ⟨message | _ | b, k⟩
  · rw [make_read_error hc] at h ⊢
    cases h
    exact ⟨.inl ⟨message, rfl⟩, rfl, (Console.remaining_of_read hc).symm,
      Console.written_of_read hc⟩
  · rw [make_read_none hc] at h ⊢
    cases h
    exact ⟨.inr rfl, rfl, (Console.remaining_of_read hc).symm, Console.written_of_read hc⟩
  · rw [make_read_some hc] at h
    cases h

/-- **A step that fails changes nothing.** Memory with the length of its image,
registers, stack, instruction pointer and step count are those from before, no
byte of input is gone and none of output is new. A fault that is not the
console's own, nor the end of the input, is met without asking the console; and
every fault that is not the console's own blames the address the step started
at, which the machine still points at. -/
theorem step_failed_unchanged (s : Session κ) (fault : Fault)
    (h : s.step.1 = .ended (.failed fault)) :
    s.step.2.machine.memory = s.machine.memory
      ∧ s.step.2.machine.toProcessor = s.machine.toProcessor
      ∧ Console.remaining s.step.2.console = Console.remaining s.console
      ∧ Console.written s.step.2.console = Console.written s.console
      ∧ ((∀ message, fault ≠ .console message) → (∀ address, fault ≠ .inputExhausted address) →
          s.step.2.console = s.console
            ∧ ∀ (κ' : Type) [Console κ'] (k : κ'), (⟨s.machine, k⟩ : Session κ').step
                = (.ended (.failed fault), ⟨s.step.2.machine, k⟩))
      ∧ ((∀ message, fault ≠ .console message) →
          fault.address? = some s.machine.ip ∧ s.step.2.machine.ip = s.machine.ip) := by
  rw [step_eq_make] at h ⊢
  cases hm : s.machine.move with
  | quiet status after =>
    rw [hm] at h
    obtain rfl : status = .ended (.failed fault) := h
    obtain ⟨hmemory, hprocessor, haddress⟩ := Machine.move_eq_quiet_failed hm
    refine ⟨hmemory, hprocessor, rfl, rfl, fun _ _ => ⟨rfl, fun κ' _ k => ?_⟩,
      fun _ => ⟨haddress, congrArg Processor.ip hprocessor⟩⟩
    rw [step_eq_make]
    show (⟨s.machine, k⟩ : Session κ').make s.machine.move = _
    rw [hm]
    rfl
  | write b after =>
    rw [hm] at h
    obtain ⟨⟨message, rfl⟩, hmachine, hremaining, hwritten⟩ := make_write_failed h
    rw [hmachine]
    exact ⟨rfl, rfl, hremaining, hwritten, fun hne => absurd rfl (hne message),
      fun hne => absurd rfl (hne message)⟩
  | read after =>
    rw [hm] at h
    obtain ⟨hfault, hmachine, hremaining, hwritten⟩ := make_read_failed h
    rw [hmachine]
    refine ⟨rfl, rfl, hremaining, hwritten, fun hne hend => ?_, fun hne => ?_⟩
    · -- the two faults a read can end in are the two left out here
      rcases hfault with ⟨message, rfl⟩ | rfl
      · exact absurd rfl (hne message)
      · exact absurd rfl (hend s.machine.ip)
    · rcases hfault with ⟨message, rfl⟩ | rfl
      · exact absurd rfl (hne message)
      · exact ⟨rfl, rfl⟩

/-- An `in` with a byte to read, over a sink that refuses the flush before
it: the byte stays where it is. -/
theorem step_failed_unchanged_refused_flush :
    let s : Session Stream := ⟨.ofMemory ((Memory.empty.set 0 20).set 1 32768),
      { source := { pending := [65] }, sink := { flushRefusal := some (.lasting 1 fun _ => "closed") } }⟩
    s.step.1 = .ended (.failed (.console "closed"))
      ∧ s.step.2.machine.memory = s.machine.memory
      ∧ s.step.2.machine.toProcessor = s.machine.toProcessor
      ∧ Console.remaining s.step.2.console = [65] := by
  intro s
  have h : s.step.1 = .ended (.failed (.console "closed")) := by decide
  obtain ⟨hmemory, hprocessor, hremaining, -⟩ := step_failed_unchanged s _ h
  exact ⟨h, hmemory, hprocessor, hremaining⟩

end RegisterMachine.Session
