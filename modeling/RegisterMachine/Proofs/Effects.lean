import RegisterMachine.Proofs.Locality

/-!
# What an instruction can do

`Machine.effect` works the effect of an instruction out, and whoever wants to know something
of all effects has to follow it through every instruction and every way to fail.
`Machine.Yields` has a rule for each way to succeed instead, and **there is an effect exactly
if a rule gives it** (`Machine.yields_iff`). So a step fails and leaves processor and memory
alone, or carries out what a rule gives for the instruction at the instruction pointer
(`Session.step_effect`), and a fact about steps is one short case for each rule.
-/

namespace RegisterMachine

namespace Machine

/-! ## The rules -/

section

variable {κ : Type} [Console κ]

/-- **An instruction has this effect**, followed by address `next`, on this machine over this
console, and leaves the console like that. All values are those before the instruction. -/
inductive Yields (m : Machine) (next : Word) (k : κ) : Instruction Operand → Effect → κ → Prop where
  | halt : Yields m next k .halt { m.goOn next with stop := some .halted } k
  | set {dst src : Operand} : Yields m next k (.set dst src) (m.assign next dst (m.value src)) k
  | push {src : Operand} :
      Yields m next k (.push src) { m.goOn next with stack := m.value src :: m.stack } k
  | pop {dst : Operand} {w : Word} {rest : List Word} : m.stack = w :: rest →
      Yields m next k (.pop dst) { m.assign next dst w with stack := rest } k
  | binary {op : BinaryOp} {dst lhs rhs : Operand} {w : Word} :
      op.apply (m.value lhs) (m.value rhs) = some w →
      Yields m next k (.binary op dst lhs rhs) (m.assign next dst w) k
  | jmp {target : Operand} : Yields m next k (.jmp target) (m.goOn (m.value target)) k
  | jtTaken {condition target : Operand} : m.value condition ≠ 0 →
      Yields m next k (.jt condition target) (m.goOn (m.value target)) k
  | jtPassed {condition target : Operand} : m.value condition = 0 →
      Yields m next k (.jt condition target) (m.goOn next) k
  | jfTaken {condition target : Operand} : m.value condition = 0 →
      Yields m next k (.jf condition target) (m.goOn (m.value target)) k
  | jfPassed {condition target : Operand} : m.value condition ≠ 0 →
      Yields m next k (.jf condition target) (m.goOn next) k
  | not {dst src : Operand} :
      Yields m next k (.not dst src) (m.assign next dst (~~~ m.value src &&& Word.valueMask)) k
  | rmem {dst address : Operand} {w : Word} : m.memory.load? (m.value address) = some w →
      Yields m next k (.rmem dst address) (m.assign next dst w) k
  | wmem {address src : Operand} {a : Address} : Address.ofWord? (m.value address) = some a →
      Yields m next k (.wmem address src)
        { m.goOn next with write := some (m.value src, .cell a) } k
  | call {target : Operand} :
      Yields m next k (.call target) { m.goOn (m.value target) with stack := next :: m.stack } k
  /-- A `ret` goes where the top of the stack says. -/
  | ret {target : Word} {rest : List Word} : m.stack = target :: rest →
      Yields m next k .ret { m.goOn target with stack := rest } k
  /-- There is nothing on the stack to return to. -/
  | returned : m.stack = [] → Yields m next k .ret { m.goOn next with stop := some .returned } k
  | output {src : Operand} {k' : κ} : Console.write (m.value src).lowByte k = (.ok (), k') →
      Yields m next k (.output src) (m.goOn next) k'
  | input {dst : Operand} {b : Byte} {k' : κ} : Console.read k = (.ok (some b), k') →
      Yields m next k (.input dst) (m.assign next dst b.toUInt16) k'
  | noop : Yields m next k .noop (m.goOn next) k

variable {m : Machine} {next : Word} {k k' : κ} {i : Instruction Operand} {e : Effect}

/-- What is worked out a rule gives. -/
theorem yields_of_effect (h : m.effect next k i = (.ok e, k')) : m.Yields next k i e k' := by
  cases i with
  | halt => cases h; exact .halt
  | set dst src => cases h; exact .set
  | push src => cases h; exact .push
  | jmp target => cases h; exact .jmp
  | not dst src => cases h; exact .not
  | call target => cases h; exact .call
  | noop => cases h; exact .noop
  | jt condition target =>
    cases h
    split
    · exact .jtPassed ‹_›
    · exact .jtTaken ‹_›
  | jf condition target =>
    cases h
    split
    · exact .jfTaken ‹_›
    · exact .jfPassed ‹_›
  -- the others can fail, or can stop
  | pop dst =>
    simp only [effect] at h
    split at h
    · cases h
    · cases h; exact .pop ‹_›
  | binary op dst lhs rhs =>
    simp only [effect] at h
    split at h
    · cases h
    · cases h; exact .binary ‹_›
  | rmem dst address =>
    simp only [effect] at h
    split at h
    · cases h
    · cases h; exact .rmem ‹_›
  | wmem address src =>
    simp only [effect] at h
    split at h
    · cases h
    · cases h; exact .wmem ‹_›
  | ret =>
    simp only [effect] at h
    split at h
    · cases h; exact .returned ‹_›
    · cases h; exact .ret ‹_›
  | output src =>
    simp only [effect] at h
    split at h
    · cases h
    · cases h; exact .output ‹_›
  | input dst =>
    simp only [effect] at h
    split at h
    · cases h
    · cases h
    · cases h; exact .input ‹_›

/-- **There is an effect exactly if a rule gives it.** -/
theorem yields_iff : m.effect next k i = (.ok e, k') ↔ m.Yields next k i e k' := by
  refine ⟨yields_of_effect, fun h => ?_⟩
  cases h with
  | jtTaken h | jfPassed h => simp only [effect, if_neg h]
  | pop h | binary h | jtPassed h | jfTaken h | rmem h | wmem h | ret h | returned h | output h
    | input h => simp [effect, h]
  | _ => rfl

end

/-! ## Behind an instruction -/

/-- The address behind an instruction at the instruction pointer. -/
def behind (m : Machine) (i : Instruction Word) : Word := .ofNat (m.ip.toNat + 1 + i.opcode.arity)

/-- An instruction ends inside the memory. -/
theorem Fetches.le_memoryWords {m : Machine} {i : Instruction Word} (h : m.Fetches i) :
    m.ip.toNat + 1 + i.opcode.arity ≤ memoryWords :=
  Memory.end_le_of_holds h

/-- So the address behind it does not wrap. -/
theorem Fetches.toNat_behind {m : Machine} {i : Instruction Word} (h : m.Fetches i) :
    (m.behind i).toNat = m.ip.toNat + 1 + i.opcode.arity :=
  Memory.toNat_ofNat_of_le h.le_memoryWords

end Machine

/-! ## Steps -/

namespace Session

variable {κ : Type} [Console κ]

/-- **A step fails and leaves processor and memory alone, or carries out what a rule gives**
for the instruction at the instruction pointer. -/
theorem step_effect (s : Session κ) :
    (∃ fault, s.step.1 = .ended (.failed fault)
        ∧ s.step.2.machine.toProcessor = s.machine.toProcessor
        ∧ s.step.2.machine.memory = s.machine.memory)
      ∨ ∃ i e k, s.machine.Executes i
        ∧ s.machine.marked.Yields (s.machine.behind i) s.console (i.map Operand.named) e k
        ∧ s.step = (e.status, ⟨s.machine.marked.perform e, k⟩) := by
  rw [step_eq]
  cases hdecode : s.machine.memory.decode s.machine.ip with
  | error fault => exact .inl ⟨fault, rfl, rfl, rfl⟩
  | ok found =>
    obtain ⟨i, next⟩ := found
    dsimp only
    cases hresolve : i.resolve with
    | error w =>
      unfold carryOut
      rw [hresolve]
      exact .inl ⟨_, rfl, rfl, rfl⟩
    | ok resolved =>
      obtain ⟨hexecutes, rfl⟩ := Machine.executes_of_resolve hdecode hresolve
      obtain rfl : next = s.machine.behind i := (Memory.decode_eq_ok_iff.mp hdecode).2
      rw [carryOut_of_resolve hresolve]
      rcases heffect : s.machine.marked.effect (s.machine.behind i) s.console
        (i.map Operand.named) with ⟨fault | e, k⟩
      · exact .inl ⟨fault, rfl, rfl, rfl⟩
      · exact .inr ⟨i, e, k, hexecutes, Machine.yields_of_effect heffect, rfl⟩

/-- **What a rule gives is what the step does.** -/
theorem step_of_yields {s : Session κ} {i : Instruction Word} {e : Effect} {k : κ}
    (hi : s.machine.Executes i)
    (h : s.machine.marked.Yields (s.machine.behind i) s.console (i.map Operand.named) e k) :
    s.step = (e.status, ⟨s.machine.marked.perform e, k⟩) := by
  have hdecode : s.machine.memory.decode s.machine.ip = .ok (i, s.machine.behind i) :=
    Memory.decode_of_holds hi.1
  rw [step_eq]
  rw [hdecode]
  dsimp only
  rw [carryOut_of_resolve (Instruction.resolve_of_valid hi.2), Machine.yields_iff.mpr h]

end Session

end RegisterMachine
