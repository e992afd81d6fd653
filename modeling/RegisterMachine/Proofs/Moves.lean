import RegisterMachine.Console.Buffer
import RegisterMachine.Proofs.Refinement

/-!
# What a step asks of its console

A step talks to its console at most once, and everything around that one call
is settled by the machine alone. `Machine.move` is what the machine settles: it
is computed without a console, and says whether a byte is to be written, a byte
is to be read, or nothing is asked at all. `Session.make` adds the console, and
`Session.step_eq_make` says that a step is nothing but its move being made.

The twenty-two instructions are looked at once, for that equation. What
compares steps over two consoles, or follows the console through a step, has
three cases instead.
-/

namespace RegisterMachine

/-- **What a machine makes of its next step**, as far as it can say without a
console. -/
inductive Move where
  /-- The console is not asked. -/
  | quiet (status : Status) (after : Machine)
  /-- A byte is written, and `after` is the machine if that works. -/
  | write (b : Byte) (after : Machine)
  /-- A byte is read, and `after` is the machine if there is one. -/
  | read (after : Byte → Machine)

namespace Console

/-! The laws of consoles, for a call whose answer is known. -/

variable {κ : Type} [Accountable κ] {k k' : κ} {b : Byte}

theorem remaining_of_read {answer : Answer (Option Byte)} (h : read k = (answer, k')) :
    remaining k = answer.bytesRead ++ remaining k' := by
  rw [remaining_read k, h]

theorem written_of_read {answer : Answer (Option Byte)} (h : read k = (answer, k')) :
    written k' = written k := by
  rw [← written_read k, h]

theorem remaining_of_write {answer : Answer Unit} (h : write b k = (answer, k')) :
    remaining k' = remaining k := by
  rw [← remaining_write b k, h]

theorem written_of_write {answer : Answer Unit} (h : write b k = (answer, k')) :
    written k' = written k ++ answer.bytesWritten b := by
  have hwritten := written_write b k
  rw [h] at hwritten
  exact hwritten

end Console

namespace Machine

/-- The move of an instruction whose operands were checked. The two that need a
console are told apart here; to the others any console will do, and an empty
one is at hand. -/
def moveOf (m : Machine) (next : Word) : Instruction Operand → Move
  | .output src => .write (m.value src).lowByte (m.perform (m.goOn next))
  | .input dst => .read fun b => m.perform (m.assign next dst b.toUInt16)
  | i =>
    match (m.effect next ({} : Buffer) i).1 with
    | .error fault => .quiet (.ended (.failed fault)) m
    | .ok e => .quiet e.status (m.perform e)

/-- **The move of the instruction at the instruction pointer.** -/
def move (m : Machine) : Move :=
  match m.memory.decode m.ip with
  | .error fault => .quiet (.ended (.failed fault)) m
  | .ok (raw, next) =>
    match raw.resolve with
    | .error w => .quiet (.ended (.failed (.invalidOperand w m.ip))) m.marked
    | .ok i => m.marked.moveOf next i

end Machine

namespace Session

variable {κ : Type} [Console κ]

/-- **A move, made over a console.** When the console fails, or has no byte to
give, the machine is left as it was found. -/
def make (s : Session κ) : Move → Status × Session κ
  | .quiet status after => (status, ⟨after, s.console⟩)
  | .write b after =>
    match Console.write b s.console with
    | (.error message, k) => (.ended (.failed (.console message)), ⟨s.machine.marked, k⟩)
    | (.ok (), k) => (.running, ⟨after, k⟩)
  | .read after =>
    match Console.read s.console with
    | (.error message, k) => (.ended (.failed (.console message)), ⟨s.machine.marked, k⟩)
    | (.ok none, k) => (.ended (.failed (.inputExhausted s.machine.ip)), ⟨s.machine.marked, k⟩)
    | (.ok (some b), k) => (.running, ⟨after b, k⟩)

/-! One equation per answer the console can give. -/

section

variable {s : Session κ} {after : Machine} {afterRead : Byte → Machine} {b : Byte} {k : κ}
  {message : String}

theorem make_write_error (h : Console.write b s.console = (.error message, k)) :
    s.make (.write b after) = (.ended (.failed (.console message)), ⟨s.machine.marked, k⟩) := by
  simp only [make, h]

theorem make_write_ok (h : Console.write b s.console = (.ok (), k)) :
    s.make (.write b after) = (.running, ⟨after, k⟩) := by
  simp only [make, h]

theorem make_read_error (h : Console.read s.console = (.error message, k)) :
    s.make (.read afterRead) = (.ended (.failed (.console message)), ⟨s.machine.marked, k⟩) := by
  simp only [make, h]

theorem make_read_none (h : Console.read s.console = (.ok none, k)) :
    s.make (.read afterRead)
      = (.ended (.failed (.inputExhausted s.machine.ip)), ⟨s.machine.marked, k⟩) := by
  simp only [make, h]

theorem make_read_some (h : Console.read s.console = (.ok (some b), k)) :
    s.make (.read afterRead) = (.running, ⟨afterRead b, k⟩) := by
  simp only [make, h]

end

/-- Carrying out a checked instruction is making its move. -/
theorem make_moveOf (m : Machine) (next : Word) (i : Instruction Operand) (k : κ) :
    (match m.marked.effect next k i with
      | (.error fault, k) => (.ended (.failed fault), (⟨m.marked, k⟩ : Session κ))
      | (.ok e, k) => (e.status, ⟨m.marked.perform e, k⟩))
      = (⟨m, k⟩ : Session κ).make (m.marked.moveOf next i) := by
  cases i with
  | output src =>
    simp only [Machine.effect, Machine.moveOf, make]
    rcases Console.write (m.marked.value src).lowByte k with ⟨_ | _, k'⟩ <;> rfl
  | input dst =>
    simp only [Machine.effect, Machine.moveOf, make]
    rcases Console.read k with ⟨_ | _ | b, k'⟩ <;> rfl
  -- the others that can fail, or can go on in two ways, branch on the machine
  | pop dst =>
    simp only [Machine.effect, Machine.moveOf]
    cases m.marked.stack <;> rfl
  | binary op dst lhs rhs =>
    simp only [Machine.effect, Machine.moveOf]
    cases op.apply (m.marked.value lhs) (m.marked.value rhs) <;> rfl
  | rmem dst address =>
    simp only [Machine.effect, Machine.moveOf]
    cases m.marked.memory.load? (m.marked.value address) <;> rfl
  | wmem address src =>
    simp only [Machine.effect, Machine.moveOf]
    cases Address.ofWord? (m.marked.value address) <;> rfl
  | ret =>
    simp only [Machine.effect, Machine.moveOf]
    cases m.marked.stack <;> rfl
  | _ => rfl

/-- **A step is the machine's move, made.** -/
theorem step_eq_make (s : Session κ) : s.step = s.make s.machine.move := by
  rw [step_eq]
  unfold Machine.move
  cases s.machine.memory.decode s.machine.ip with
  | error fault => rfl
  | ok found =>
    obtain ⟨raw, next⟩ := found
    dsimp only
    unfold carryOut
    cases raw.resolve with
    | error w => rfl
    | ok i => exact make_moveOf s.machine next i s.console

/-- To carry out an instruction whose operands pass is to perform its effect, if it has
one. -/
theorem carryOut_of_resolve {raw : Instruction Word} {i : Instruction Operand}
    (h : raw.resolve = .ok i) (next : Word) (s : Session κ) :
    s.carryOut raw next = match s.machine.marked.effect next s.console i with
      | (.error fault, k) => (.ended (.failed fault), ⟨s.machine.marked, k⟩)
      | (.ok e, k) => (e.status, ⟨s.machine.marked.perform e, k⟩) := by
  unfold carryOut
  exact h ▸ rfl

/-- **A step fails or carries out an effect.** Where it fails, the processor and
the memory are what they were. -/
theorem step_cases (s : Session κ) :
    (∃ fault, s.step.1 = .ended (.failed fault)
        ∧ s.step.2.machine.toProcessor = s.machine.toProcessor
        ∧ s.step.2.machine.memory = s.machine.memory)
      ∨ ∃ e : Effect, s.step.1 = e.status ∧ s.step.2.machine = s.machine.marked.perform e := by
  rw [step_eq]
  cases s.machine.memory.decode s.machine.ip with
  | error fault => exact .inl ⟨fault, rfl, rfl, rfl⟩
  | ok found =>
    obtain ⟨raw, next⟩ := found
    dsimp only
    cases hr : raw.resolve with
    | error w =>
      rw [carryOut, hr]
      exact .inl ⟨_, rfl, rfl, rfl⟩
    | ok i =>
      rw [carryOut_of_resolve hr]
      rcases s.machine.marked.effect next s.console i with ⟨fault | e, k⟩
      · exact .inl ⟨fault, rfl, rfl, rfl⟩
      · exact .inr ⟨e, rfl, rfl⟩

end Session

/-- Carrying out an effect is no failure. -/
theorem Effect.status_ne_failed (e : Effect) (fault : Fault) :
    e.status ≠ .ended (.failed fault) := by
  unfold Effect.status
  cases e.stop <;> simp

/-! ## Moves that fail without the console

A fault met before the console was asked blames the instruction at the
instruction pointer, and the machine it leaves differs in what it remembers of
decoding, and in nothing else. -/

/-- Where there is no instruction to decode, the address asked about is to
blame. -/
theorem Memory.address_of_decode_eq_error {memory : Memory} {a : Word} {fault : Fault}
    (h : memory.decode a = .error fault) : fault.address? = some a := by
  unfold Memory.decode at h
  split at h
  · cases h; rfl
  · split at h
    · cases h; rfl
    · dsimp only at h
      split at h
      · cases h
      · cases h; rfl

namespace Machine

/-- A checked instruction that fails on its own leaves the machine alone. -/
theorem moveOf_eq_quiet_failed {m after : Machine} {next : Word} {i : Instruction Operand}
    {fault : Fault} (h : m.moveOf next i = .quiet (.ended (.failed fault)) after) :
    after = m ∧ fault.address? = some m.ip := by
  have hdone : ∀ (e : Effect), Move.quiet e.status (m.perform e)
      ≠ .quiet (.ended (.failed fault)) after := by
    intro e he
    exact e.status_ne_failed fault (Move.quiet.inj he).1
  cases i with
  | output src => cases h
  | input dst => cases h
  | pop dst =>
    simp only [moveOf, effect] at h
    cases hs : m.stack with
    | nil => rw [hs] at h; cases h; exact ⟨rfl, rfl⟩
    | cons w rest => rw [hs] at h; exact absurd h (hdone _)
  | binary op dst lhs rhs =>
    simp only [moveOf, effect] at h
    cases ha : op.apply (m.value lhs) (m.value rhs) with
    | none => rw [ha] at h; cases h; exact ⟨rfl, rfl⟩
    | some w => rw [ha] at h; exact absurd h (hdone _)
  | rmem dst address =>
    simp only [moveOf, effect] at h
    cases ha : m.memory.load? (m.value address) with
    | none => rw [ha] at h; cases h; exact ⟨rfl, rfl⟩
    | some w => rw [ha] at h; exact absurd h (hdone _)
  | wmem address src =>
    simp only [moveOf, effect] at h
    cases ha : Address.ofWord? (m.value address) with
    | none => rw [ha] at h; cases h; exact ⟨rfl, rfl⟩
    | some a => rw [ha] at h; exact absurd h (hdone _)
  | ret =>
    simp only [moveOf, effect] at h
    cases hs : m.stack with
    | nil => rw [hs] at h; exact absurd h (hdone _)
    | cons w rest => rw [hs] at h; exact absurd h (hdone _)
  | _ => exact absurd h (hdone _)

/-- **A quiet failure changes neither memory nor processor**, and blames the
instruction at the instruction pointer. -/
theorem move_eq_quiet_failed {m after : Machine} {fault : Fault}
    (h : m.move = .quiet (.ended (.failed fault)) after) :
    after.memory = m.memory ∧ after.toProcessor = m.toProcessor ∧ fault.address? = some m.ip := by
  unfold move at h
  cases hd : m.memory.decode m.ip with
  | error found =>
    rw [hd] at h
    cases h
    exact ⟨rfl, rfl, Memory.address_of_decode_eq_error hd⟩
  | ok found =>
    obtain ⟨raw, next⟩ := found
    cases hr : raw.resolve with
    | error w =>
      simp only [hd, hr] at h
      cases h
      exact ⟨rfl, rfl, rfl⟩
    | ok i =>
      simp only [hd, hr] at h
      obtain ⟨rfl, haddress⟩ := moveOf_eq_quiet_failed h
      exact ⟨rfl, rfl, haddress⟩

end Machine

end RegisterMachine
