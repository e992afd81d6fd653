import RegisterMachine.Proofs.Budget
import RegisterMachine.Proofs.Effects
import RegisterMachine.Proofs.Places

/-!
# What a step changes

Between them the registers and the memory hold 32776 words, and executing an instruction
changes one of them at most: the one its destination names or, for a `wmem`, the memory word
at the address it computed (`Machine.Targets`). The stack gets one word higher or lower, or
stays. The instruction pointer moves behind the instruction or to where the instruction says
(`Machine.nextPointer`), and one more step is counted. **That is all**
(`Session.step_changes`).

All of this is said of the machine before the step, as are the values that decide it. What
the instruction writes comes afterwards, and it makes no difference whether it writes to one
of its own sources, or to the memory words it stands in itself.
-/

namespace RegisterMachine

namespace Machine

/-! ## What an instruction may change -/

/-- **An instruction may change the word at a place**: the place that its destination names
and, for a `wmem`, the memory word at the address it computes. -/
def Targets (m : Machine) (i : Instruction Word) (place : Place) : Prop :=
  match i with
  | .set dst _ | .pop dst | .binary _ dst _ _ | .not dst _ | .rmem dst _ | .input dst =>
    dst.Names place
  | .wmem address _ => ∃ a : Address, place = .cell a ∧ (m.wordValue address).toNat = a.val
  | .halt | .push _ | .jmp _ | .jt .. | .jf .. | .call _ | .ret | .output _ | .noop => False

/-- **An instruction may leave the stack like this**: with one word more on it, with one
word less, or as it is. A `ret` that finds nothing on it leaves it alone. -/
def Restacks (m : Machine) (i : Instruction Word) (stack : List Word) : Prop :=
  match i with
  | .push _ | .call _ => ∃ w, stack = w :: m.stack
  | .pop _ => ∃ w, m.stack = w :: stack
  | .ret => stack = m.stack.tail
  | .halt | .set .. | .binary .. | .jmp _ | .jt .. | .jf .. | .not .. | .rmem .. | .wmem ..
  | .output _ | .input _ | .noop => stack = m.stack

/-- **Where the program goes on after an instruction**, as a number: behind it, unless it
jumps. -/
def nextPointer (m : Machine) (i : Instruction Word) : Nat :=
  match i with
  | .jmp target | .call target => (m.wordValue target).toNat
  | .jt condition target =>
    if m.wordValue condition ≠ 0 then (m.wordValue target).toNat
    else m.ip.toNat + 1 + i.opcode.arity
  | .jf condition target =>
    if m.wordValue condition = 0 then (m.wordValue target).toNat
    else m.ip.toNat + 1 + i.opcode.arity
  | .ret =>
    match m.stack with
    | [] => m.ip.toNat + 1 + i.opcode.arity
    | target :: _ => target.toNat
  | .halt | .set .. | .push _ | .pop _ | .binary .. | .not .. | .rmem .. | .wmem .. | .output _
  | .input _ | .noop => m.ip.toNat + 1 + i.opcode.arity

variable {m : Machine} {i : Instruction Word}

/-- An instruction may change one place at most. -/
theorem Targets.unique {place other : Place} (h : m.Targets i place)
    (hother : m.Targets i other) : place = other := by
  cases i with
  | set | pop | binary | not | rmem | input => exact Word.Names.unique h hother
  | wmem address src =>
    obtain ⟨a, rfl, ha⟩ := h
    obtain ⟨b, rfl, hb⟩ := hother
    rw [Fin.ext (ha.symm.trans hb)]
  | _ => exact h.elim

/-- The destination of an instruction that is executed names the place its operand is
written at. -/
theorem Executes.names {dst : Word} (h : m.Executes i) (hdst : i.destination = some dst) :
    dst.Names (Operand.named dst).place := by
  refine Operand.names_named (Instruction.firstInvalid?_eq_none_iff.mp h.2 dst ?_)
  rw [Instruction.operands, hdst]
  exact List.mem_cons_self

end Machine

/-! ## What an effect changes -/

/-- **An effect keeps to an instruction**: it writes where the instruction may, does to the
stack what the instruction does, and goes on where the instruction says. -/
structure Effect.KeepsTo (e : Effect) (m : Machine) (i : Instruction Word) : Prop where
  write : ∀ {w place}, e.write = some (w, place) → m.Targets i place
  stack : m.Restacks i e.stack
  ip : e.ip.toNat = m.nextPointer i

namespace Machine

/-- **What a rule gives for an instruction keeps to it.** -/
theorem Yields.keepsTo {κ : Type} [Console κ] {m : Machine} {k k' : κ} {i : Instruction Word}
    {e : Effect} (h : m.marked.Yields (m.behind i) k (i.map Operand.named) e k')
    (hi : m.Executes i) : e.KeepsTo m i := by
  have hbehind : (m.behind i).toNat = m.ip.toNat + 1 + i.opcode.arity := hi.1.toNat_behind
  have hvalue : ∀ w, m.marked.value (Operand.named w) = m.wordValue w := m.value_named_marked
  have hassign : ∀ {dst : Word} {w : Word}, i.destination = some dst →
      ∀ {v place}, (m.marked.assign (m.behind i) (Operand.named dst) w).write = some (v, place) →
        dst.Names place := by
    intro dst w hdst v place hwrite
    cases hwrite
    exact hi.names hdst
  cases i with
  | halt | noop | output src =>
    cases h
    exact ⟨nofun, rfl, hbehind⟩
  | set dst src | not dst src | binary op dst lhs rhs | rmem dst address | input dst =>
    cases h
    exact ⟨hassign rfl, rfl, hbehind⟩
  | push src =>
    cases h
    exact ⟨nofun, ⟨_, rfl⟩, hbehind⟩
  | pop dst =>
    cases h with
    | pop hstack => exact ⟨hassign rfl, ⟨_, hstack⟩, hbehind⟩
  | wmem address src =>
    cases h with
    | @wmem _ _ a ha =>
      rw [hvalue] at ha
      refine ⟨fun hwrite => ?_, rfl, hbehind⟩
      cases hwrite
      exact ⟨a, rfl, Address.toNat_of_ofWord? ha⟩
  -- what goes on elsewhere does so at a value, or at the top of the stack
  | jmp target =>
    cases h
    exact ⟨nofun, rfl, congrArg UInt16.toNat (hvalue target)⟩
  | call target =>
    cases h
    exact ⟨nofun, ⟨_, rfl⟩, congrArg UInt16.toNat (hvalue target)⟩
  | jt condition target =>
    cases h with
    | jtTaken hcondition =>
      rw [hvalue] at hcondition
      refine ⟨nofun, rfl, ?_⟩
      rw [nextPointer, if_pos hcondition, ← hvalue]
      rfl
    | jtPassed hcondition =>
      rw [hvalue] at hcondition
      refine ⟨nofun, rfl, ?_⟩
      rw [nextPointer, if_neg (not_not_intro hcondition)]
      exact hbehind
  | jf condition target =>
    cases h with
    | jfTaken hcondition =>
      rw [hvalue] at hcondition
      refine ⟨nofun, rfl, ?_⟩
      rw [nextPointer, if_pos hcondition, ← hvalue]
      rfl
    | jfPassed hcondition =>
      rw [hvalue] at hcondition
      refine ⟨nofun, rfl, ?_⟩
      rw [nextPointer, if_neg hcondition]
      exact hbehind
  | ret =>
    cases h with
    | ret hstack =>
      rw [marked_toProcessor] at hstack
      refine ⟨nofun, ?_, ?_⟩
      · rw [Restacks, hstack]
        rfl
      · rw [nextPointer, hstack]
        rfl
    | returned hstack =>
      rw [marked_toProcessor] at hstack
      refine ⟨nofun, ?_, ?_⟩
      · rw [Restacks, hstack]
        exact hstack
      · rw [nextPointer, hstack]
        exact hbehind

/-- A write leaves the length of the image alone, wherever it goes. -/
theorem imageLength_perform (m : Machine) (e : Effect) :
    (m.perform e).memory.imageLength = m.memory.imageLength := by
  show (m.store e.write).memory.imageLength = m.memory.imageLength
  rcases e.write with _ | ⟨w, _ | _⟩ <;> rfl

end Machine

namespace Session

variable {κ : Type} [Console κ]

/-- **What a step changes.** A step that does not fail executes an instruction, and of all
registers and memory words it changes one at most: the one that the instruction targets, if
it targets any. The stack is left as this instruction leaves it, the length of the image as
it was; one more step is counted, as far as the count reaches; and the program goes on where
the instruction says, by the values from before the step. -/
theorem step_changes (s : Session κ) (h : ∀ fault, s.step.1 ≠ .ended (.failed fault)) :
    ∃ i, s.machine.Executes i
      ∧ (∀ place other, s.machine.Targets i place → s.machine.Targets i other → place = other)
      ∧ (∀ place, ¬ s.machine.Targets i place →
          s.step.2.machine.wordAt place = s.machine.wordAt place)
      ∧ s.machine.Restacks i s.step.2.machine.stack
      ∧ s.step.2.machine.memory.imageLength = s.machine.memory.imageLength
      ∧ s.step.2.machine.steps.toNat = min (s.machine.steps.toNat + 1) (2 ^ 64 - 1)
      ∧ s.step.2.machine.ip.toNat = s.machine.nextPointer i := by
  rcases s.step_effect with ⟨fault, hfailed, -, -⟩ | ⟨i, e, k, hi, hyields, hstep⟩
  · exact absurd hfailed (h fault)
  have hkeeps : e.KeepsTo s.machine i := hyields.keepsTo hi
  refine ⟨i, hi, fun _ _ => Machine.Targets.unique, fun place hplace => ?_, ?_, ?_, ?_, ?_⟩ <;>
    rw [hstep]
  · exact Machine.wordAt_perform_of_ne fun w hwrite => hplace (hkeeps.write hwrite)
  · exact hkeeps.stack
  · exact s.machine.marked.imageLength_perform e
  · rw [Machine.steps_perform, Processor.toNat_nextCount_eq_min]
    rfl
  · exact hkeeps.ip

/-- An `add` whose destination is the word of its own opcode: the other words are as they
were, and the program goes on behind it. -/
theorem step_changes_own_opcode :
    let program := (((Memory.empty.set 0 9).set 1 0).set 2 32768).set 3 32768
    let s : Session Buffer := ⟨(Machine.ofMemory program).write 65535 (.register 0), .ofInput []⟩
    (∀ fault, s.step.1 ≠ .ended (.failed fault))
      ∧ (∀ place, place ≠ .cell 0 → s.step.2.machine.wordAt place = s.machine.wordAt place)
      ∧ s.step.2.machine.ip.toNat = 4 ∧ s.step.2.machine.steps.toNat = 1 := by
  intro program s
  have hrunning : s.step.1 = .running := by decide
  have hfine : ∀ fault, s.step.1 ≠ .ended (.failed fault) := by
    rw [hrunning]
    exact nofun
  have hadd : s.machine.Fetches (.binary .add 0 32768 32768) :=
    (Memory.decode_eq_ok_iff.mp
      (rfl : program.decode 0 = .ok (.binary .add 0 32768 32768, 4))).1
  obtain ⟨i, hi, -, hplaces, -, -, hsteps, hip⟩ := step_changes s hfine
  obtain rfl : i = .binary .add 0 32768 32768 := hi.1.unique hadd
  refine ⟨hfine, fun place hne => hplaces place fun htarget => hne ?_, hip, hsteps⟩
  exact Word.Names.unique htarget (rfl : Word.Names 0 (.cell 0))

end Session

end RegisterMachine
