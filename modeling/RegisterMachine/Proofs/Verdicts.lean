import RegisterMachine.Proofs.Checking
import RegisterMachine.Proofs.Fetching
import RegisterMachine.Proofs.Moves

/-!
# What a step returns

A step goes on, stops well in one of two ways, or fails in one of eight, and
which of these it is can be read off the words at the instruction pointer, the
stack and the answer of the console. `Session.Verdict` has one rule for each way
to get there, and **a step returns a status exactly when a rule gives it**
(`Session.step_status_iff`).

Several things may be wrong with an instruction at once, and the rules say
which of them counts. What is wrong with the place comes before what is wrong
with an operand word, since an instruction has to be there to have operands; a
bad operand word comes before everything else, since each rule behind it asks
for an instruction without one. In particular a jump that would not be taken,
a zero divisor, an empty stack, an address out of range and an exhausted input
do not hide it.
-/

namespace RegisterMachine

namespace Machine

/-- **An instruction stands at the instruction pointer**, whatever its operand
words may be. -/
def Fetches (m : Machine) (i : Instruction Word) : Prop := m.memory.Holds m.ip.toNat i.words

/-- An instruction stands at the instruction pointer, and every operand word of
it names an operand. -/
def Executes (m : Machine) (i : Instruction Word) : Prop := m.Fetches i ∧ i.firstInvalid? = none

/-- The move of an instruction without a bad operand word. -/
theorem move_of_executes {m : Machine} {i : Instruction Word} (h : m.Executes i) :
    m.move = m.marked.moveOf (.ofNat (m.ip.toNat + 1 + i.opcode.arity))
      (i.map Operand.named) := by
  unfold move
  rw [Memory.decode_of_holds h.1]
  dsimp only
  rw [Instruction.resolve_of_valid h.2]

/-- What was decoded last is no part of a value. -/
theorem value_named_marked (m : Machine) (w : Word) :
    m.marked.value (Operand.named w) = m.wordValue w :=
  value_named m.marked w

end Machine

namespace Session

variable {κ : Type} [Console κ]

/-- **The program goes on behind this instruction**: it is no end, and what it
needs of the stack, of a divisor, of an address or of the console is there. -/
def Proceeds (s : Session κ) : Instruction Word → Prop
  | .halt => False
  | .ret | .pop _ => s.machine.stack ≠ []
  | .binary .mod _ _ rhs => s.machine.wordValue rhs ≠ 0
  | .rmem _ address | .wmem address _ => (s.machine.wordValue address).toNat < memoryWords
  | .output src => (Console.write (s.machine.wordValue src).lowByte s.console).1 = .ok ()
  | .input _ => ∃ b, (Console.read s.console).1 = .ok (some b)
  | .set .. | .push _ | .binary .. | .jmp _ | .jt .. | .jf .. | .not .. | .call _ | .noop => True

/-- **What a step of this session has to return.** -/
inductive Verdict (s : Session κ) : Status → Prop where
  /-- The memory ends before the instruction pointer. -/
  | beyond : memoryWords ≤ s.machine.ip.toNat →
      Verdict s (.ended (.failed (.pointerOutOfRange s.machine.ip)))
  /-- The memory ends before the last operand word. -/
  | cutOff {o : Opcode} : s.machine.memory.load? s.machine.ip = some o.number →
      memoryWords ≤ s.machine.ip.toNat + o.arity →
      Verdict s (.ended (.failed (.pointerOutOfRange s.machine.ip)))
  /-- The word at the instruction pointer is beyond the last opcode. -/
  | noOpcode {w : Word} : s.machine.memory.load? s.machine.ip = some w →
      Opcode.count ≤ w.toNat → Verdict s (.ended (.failed (.invalidOpcode w s.machine.ip)))
  /-- Some operand word names no operand, and this is the first. -/
  | noOperand {i : Instruction Word} {w : Word} : s.machine.Fetches i →
      i.firstInvalid? = some w → Verdict s (.ended (.failed (.invalidOperand w s.machine.ip)))
  /-- The divisor of a remainder is zero. -/
  | zeroDivisor {dst lhs rhs : Word} : s.machine.Executes (.binary .mod dst lhs rhs) →
      s.machine.wordValue rhs = 0 → Verdict s (.ended (.failed (.divisionByZero s.machine.ip)))
  /-- There is nothing to pop. -/
  | emptyStack {dst : Word} : s.machine.Executes (.pop dst) → s.machine.stack = [] →
      Verdict s (.ended (.failed (.stackUnderflow s.machine.ip)))
  /-- The value to read from is no address. -/
  | readOutOfRange {dst address : Word} : s.machine.Executes (.rmem dst address) →
      memoryWords ≤ (s.machine.wordValue address).toNat →
      Verdict s (.ended (.failed
        (.offsetOutOfRange (s.machine.wordValue address) s.machine.ip)))
  /-- The value to write to is no address. -/
  | writeOutOfRange {address src : Word} : s.machine.Executes (.wmem address src) →
      memoryWords ≤ (s.machine.wordValue address).toNat →
      Verdict s (.ended (.failed
        (.offsetOutOfRange (s.machine.wordValue address) s.machine.ip)))
  /-- The console has come to the end of the input. -/
  | noInput {dst : Word} : s.machine.Executes (.input dst) →
      (Console.read s.console).1 = .ok none →
      Verdict s (.ended (.failed (.inputExhausted s.machine.ip)))
  /-- The console fails to read. -/
  | readFailed {dst : Word} {message : String} : s.machine.Executes (.input dst) →
      (Console.read s.console).1 = .error message →
      Verdict s (.ended (.failed (.console message)))
  /-- The console fails to write. -/
  | writeFailed {src : Word} {message : String} : s.machine.Executes (.output src) →
      (Console.write (s.machine.wordValue src).lowByte s.console).1 = .error message →
      Verdict s (.ended (.failed (.console message)))
  /-- A `halt` is executed. -/
  | halted : s.machine.Executes .halt → Verdict s (.ended (.finished .halted))
  /-- A `ret` is executed on an empty stack. -/
  | returned : s.machine.Executes .ret → s.machine.stack = [] →
      Verdict s (.ended (.finished .returned))
  /-- None of all this happens. -/
  | proceeds {i : Instruction Word} : s.machine.Executes i → s.Proceeds i → Verdict s .running

variable {s : Session κ} {status : Status}

/-- An instruction without a bad operand word makes its move. -/
theorem step_of_executes {i : Instruction Word} (h : s.machine.Executes i) :
    s.step = s.make (s.machine.marked.moveOf (.ofNat (s.machine.ip.toNat + 1 + i.opcode.arity))
      (i.map Operand.named)) := by
  rw [step_eq_make, Machine.move_of_executes h]

/-- The status of an instruction that writes to the console is the console's
answer. -/
theorem step_of_executes_output {src : Word} (h : s.machine.Executes (.output src)) :
    s.step.1 = match (Console.write (s.machine.wordValue src).lowByte s.console).1 with
      | .error message => .ended (.failed (.console message))
      | .ok () => .running := by
  rw [step_of_executes h]
  show (s.make (.write (s.machine.marked.value (Operand.named src)).lowByte _)).1 = _
  rw [Machine.value_named_marked]
  rcases hc : Console.write (s.machine.wordValue src).lowByte s.console with ⟨message | _, k⟩
  · rw [make_write_error hc]
  · rw [make_write_ok hc]

/-- The status of an instruction that reads from the console is the console's
answer. -/
theorem step_of_executes_input {dst : Word} (h : s.machine.Executes (.input dst)) :
    s.step.1 = match (Console.read s.console).1 with
      | .error message => .ended (.failed (.console message))
      | .ok none => .ended (.failed (.inputExhausted s.machine.ip))
      | .ok (some _) => .running := by
  rw [step_of_executes h]
  show (s.make (.read _)).1 = _
  rcases hc : Console.read s.console with ⟨message | _ | b, k⟩
  · rw [make_read_error hc]
  · rw [make_read_none hc]
  · rw [make_read_some hc]

/-- An instruction that finds what it needs leaves the machine running. -/
theorem step_of_proceeds {i : Instruction Word} (h : s.machine.Executes i)
    (hproceeds : s.Proceeds i) : s.step.1 = .running := by
  cases i with
  | halt => exact hproceeds.elim
  | output src => rw [step_of_executes_output h, show (Console.write _ _).1 = _ from hproceeds]
  | input dst =>
    obtain ⟨b, hread⟩ := hproceeds
    rw [step_of_executes_input h, hread]
  | pop dst =>
    obtain ⟨w, rest, hstack⟩ := List.exists_cons_of_ne_nil hproceeds
    rw [step_of_executes h]
    simp only [Instruction.map, Machine.moveOf, Machine.effect, Machine.marked_toProcessor, hstack]
    rfl
  | ret =>
    obtain ⟨w, rest, hstack⟩ := List.exists_cons_of_ne_nil hproceeds
    rw [step_of_executes h]
    simp only [Instruction.map, Machine.moveOf, Machine.effect, Machine.marked_toProcessor, hstack]
    rfl
  | binary op dst lhs rhs =>
    rw [step_of_executes h]
    cases op with
    | mod =>
      have hne : s.machine.wordValue rhs ≠ 0 := hproceeds
      simp only [Instruction.map, Machine.moveOf, Machine.effect, Machine.value_named_marked,
        BinaryOp.apply, if_neg hne]
      rfl
    | _ => rfl
  | rmem dst address =>
    have hload : s.machine.memory.load? (s.machine.wordValue address)
        = some (s.machine.memory.get ⟨_, hproceeds⟩) :=
      Memory.load?_eq_some_iff.mpr ⟨hproceeds, rfl⟩
    rw [step_of_executes h]
    simp only [Instruction.map, Machine.moveOf, Machine.effect, Machine.value_named_marked,
      Machine.marked_memory, hload]
    rfl
  | wmem address src =>
    have hlt : (s.machine.wordValue address).toNat < memoryWords := hproceeds
    rw [step_of_executes h]
    simp only [Instruction.map, Machine.moveOf, Machine.effect, Machine.value_named_marked,
      Address.ofWord?, dif_pos hlt]
    rfl
  | _ =>
    rw [step_of_executes h]
    rfl

/-- **What the rules say is what a step returns.** -/
theorem step_of_verdict (h : s.Verdict status) : s.step.1 = status := by
  cases h with
  | beyond hbeyond =>
    rw [step_eq]
    rw [Memory.decode_of_beyond hbeyond]
  | cutOff hload hcut =>
    rw [step_eq]
    rw [Memory.decode_of_cut_off hload hcut]
  | noOpcode hload hw =>
    rw [step_eq]
    rw [Memory.decode_of_no_opcode hload hw]
  | noOperand hfetches hw =>
    rw [step_eq]
    rw [Memory.decode_of_holds hfetches]
    dsimp only
    unfold carryOut
    rw [Instruction.resolve_of_invalid hw]
  | noInput hexecutes hread => rw [step_of_executes_input hexecutes, hread]
  | readFailed hexecutes hread => rw [step_of_executes_input hexecutes, hread]
  | writeFailed hexecutes hwrite => rw [step_of_executes_output hexecutes, hwrite]
  | zeroDivisor hexecutes hzero =>
    rw [step_of_executes hexecutes]
    simp only [Instruction.map, Machine.moveOf, Machine.effect, Machine.value_named_marked,
      BinaryOp.apply, if_pos hzero]
    rfl
  | emptyStack hexecutes hstack =>
    rw [step_of_executes hexecutes]
    simp only [Instruction.map, Machine.moveOf, Machine.effect, Machine.marked_toProcessor, hstack]
    rfl
  | @readOutOfRange dst address hexecutes hrange =>
    have hload : s.machine.memory.load? (s.machine.wordValue address) = none :=
      Memory.load?_eq_none_iff.mpr hrange
    rw [step_of_executes hexecutes]
    simp only [Instruction.map, Machine.moveOf, Machine.effect, Machine.value_named_marked,
      Machine.marked_memory, hload]
    rfl
  | writeOutOfRange hexecutes hrange =>
    rw [step_of_executes hexecutes]
    simp only [Instruction.map, Machine.moveOf, Machine.effect, Machine.value_named_marked,
      Address.ofWord?, dif_neg (Nat.not_lt.mpr hrange)]
    rfl
  | halted hexecutes =>
    rw [step_of_executes hexecutes]
    rfl
  | returned hexecutes hstack =>
    rw [step_of_executes hexecutes]
    simp only [Instruction.map, Machine.moveOf, Machine.effect, Machine.marked_toProcessor, hstack]
    rfl
  | proceeds hexecutes hproceeds => exact step_of_proceeds hexecutes hproceeds

/-- An instruction without a bad operand word has a verdict: what it needs is
there, or one of the rules says what is missing. -/
theorem exists_verdict_of_executes {i : Instruction Word} (h : s.machine.Executes i) :
    ∃ status, s.Verdict status := by
  by_cases hproceeds : s.Proceeds i
  · exact ⟨_, .proceeds h hproceeds⟩
  cases i with
  | halt => exact ⟨_, .halted h⟩
  | ret => exact ⟨_, .returned h (Decidable.of_not_not hproceeds)⟩
  | pop dst => exact ⟨_, .emptyStack h (Decidable.of_not_not hproceeds)⟩
  | binary op dst lhs rhs =>
    cases op with
    | mod => exact ⟨_, .zeroDivisor h (Decidable.of_not_not hproceeds)⟩
    | _ => exact absurd trivial hproceeds
  | rmem dst address => exact ⟨_, .readOutOfRange h (Nat.not_lt.mp hproceeds)⟩
  | wmem address src => exact ⟨_, .writeOutOfRange h (Nat.not_lt.mp hproceeds)⟩
  | output src =>
    cases hwrite : (Console.write (s.machine.wordValue src).lowByte s.console).1 with
    | error message => exact ⟨_, .writeFailed h hwrite⟩
    | ok done => exact absurd hwrite hproceeds
  | input dst =>
    cases hread : (Console.read s.console).1 with
    | error message => exact ⟨_, .readFailed h hread⟩
    | ok got =>
      cases got with
      | none => exact ⟨_, .noInput h hread⟩
      | some b => exact absurd ⟨b, hread⟩ hproceeds
  | _ => exact absurd trivial hproceeds

/-- **Every session has a verdict.** -/
theorem exists_verdict (s : Session κ) : ∃ status, s.Verdict status := by
  rcases s.machine.memory.found_at s.machine.ip with
    ⟨i, hfetches⟩ | ⟨w, hload, hw⟩ | hbeyond | ⟨o, hload, hcut⟩
  · cases hinvalid : i.firstInvalid? with
    | some w => exact ⟨_, .noOperand hfetches hinvalid⟩
    | none => exact exists_verdict_of_executes ⟨hfetches, hinvalid⟩
  · exact ⟨_, .noOpcode hload hw⟩
  · exact ⟨_, .beyond hbeyond⟩
  · exact ⟨_, .cutOff hload hcut⟩

/-- **A step returns a status exactly when a rule gives it**: each of the eight
faults and each of the three ways to do without one arises under the conditions
of its rules and under no others. -/
theorem step_status_iff (s : Session κ) (status : Status) :
    s.step.1 = status ↔ s.Verdict status := by
  constructor
  · rintro rfl
    obtain ⟨status, h⟩ := s.exists_verdict
    rw [step_of_verdict h]
    exact h
  · exact step_of_verdict

end Session

end RegisterMachine
