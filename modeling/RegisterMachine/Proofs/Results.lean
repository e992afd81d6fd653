import RegisterMachine.Proofs.Arithmetic
import RegisterMachine.Proofs.Changes

/-!
# What a step computes

What an instruction computes is a matter of arithmetic in words (`BinaryOp.toNat_apply`), and
what is only moved is not touched, whatever its width. So a step leaves, at the place that
its destination names or on the stack, the number which the values from before it determine
(`Session.step_computes`), also where the destination is one of the sources.
-/

namespace RegisterMachine

namespace Machine

/-- The value of an operand word, as a number. -/
def number (m : Machine) (w : Word) : Nat := (m.wordValue w).toNat

/-- **A number is found at the place that a destination word names.** -/
def HasAt (m : Machine) (dst : Word) (n : Nat) : Prop :=
  ∃ place, dst.Names place ∧ (m.wordAt place).toNat = n

/-- What an executed instruction writes to its destination is found there. -/
theorem Executes.hasAt {m : Machine} {i : Instruction Word} {dst w : Word} {e : Effect}
    (hi : m.Executes i) (hdst : i.destination = some dst)
    (hwrite : e.write = some (w, (Operand.named dst).place)) :
    (m.marked.perform e).HasAt dst w.toNat :=
  ⟨_, hi.names hdst, congrArg UInt16.toNat (wordAt_perform hwrite)⟩

end Machine

namespace Session

variable {κ : Type} [Console κ]

/-! ## What is left behind -/

/-- **The numbers an instruction has to leave behind**, by the machine and the console from
before it. What is moved is left as it is. What is computed is the exact result modulo 32768;
no divisor is zero, and computed in 32 bits the result would not have been cut off before. -/
def Computes (s : Session κ) (after : Machine) (i : Instruction Word) : Prop :=
  match i with
  | .binary op dst lhs rhs =>
    (op = .mod → s.machine.number rhs ≠ 0)
      ∧ op.compute (s.machine.number lhs) (s.machine.number rhs) ≤ 2 ^ 32 - 1
      ∧ (op.compute (s.machine.wordValue lhs).toUInt32 (s.machine.wordValue rhs).toUInt32).toNat
        = op.compute (s.machine.number lhs) (s.machine.number rhs)
      ∧ ∃ n ≤ 32767, n = op.compute (s.machine.number lhs) (s.machine.number rhs) % 32768
        ∧ after.HasAt dst n
  | .not dst src =>
    ∃ n ≤ 32767, n = 32767 - s.machine.number src % 32768 ∧ after.HasAt dst n
  | .set dst src => after.HasAt dst (s.machine.number src)
  | .rmem dst address =>
    ∃ h : s.machine.number address < memoryWords,
      after.HasAt dst (s.machine.memory.get ⟨s.machine.number address, h⟩).toNat
  | .wmem address src =>
    ∃ h : s.machine.number address < memoryWords,
      (after.memory.get ⟨s.machine.number address, h⟩).toNat = s.machine.number src
  | .pop dst => ∃ w, s.machine.stack.head? = some w ∧ after.HasAt dst w.toNat
  | .input dst =>
    ∃ b : Byte, (Console.read s.console).1 = .ok (some b) ∧ after.HasAt dst b.toNat
  | .push src => ∃ w, after.stack = w :: s.machine.stack ∧ w.toNat = s.machine.number src
  | .call _ => ∃ w, after.stack = w :: s.machine.stack ∧ w.toNat = s.machine.ip.toNat + 2
  | .halt | .jmp _ | .jt .. | .jf .. | .ret | .output _ | .noop => True

variable {s : Session κ}

/-- **Carrying out what a rule gives leaves these numbers behind.** -/
theorem computes_perform {i : Instruction Word} {e : Effect} {k : κ} (hi : s.machine.Executes i)
    (h : s.machine.marked.Yields (s.machine.behind i) s.console (i.map Operand.named) e k) :
    s.Computes (s.machine.marked.perform e) i := by
  have hvalue : ∀ w, s.machine.marked.value (Operand.named w) = s.machine.wordValue w :=
    s.machine.value_named_marked
  cases i with
  | halt | jmp | jt | jf | ret | output | noop => exact trivial
  | set dst src =>
    cases h
    show (s.machine.marked.perform _).HasAt dst (s.machine.wordValue src).toNat
    rw [← hvalue]
    exact hi.hasAt rfl rfl
  | not dst src =>
    cases h
    refine ⟨_, Nat.sub_le _ _, rfl, ?_⟩
    rw [Machine.number, ← Word.toNat_complement, ← hvalue]
    exact hi.hasAt rfl rfl
  | binary op dst lhs rhs =>
    cases h with
    | binary happly =>
      rw [hvalue, hvalue] at happly
      have hwide := op.toNat_compute (s.machine.wordValue lhs) (s.machine.wordValue rhs)
      refine ⟨?_, ?_, hwide, _, Nat.le_of_lt_succ (Nat.mod_lt _ (by decide)), rfl, ?_⟩
      · rintro rfl hzero
        exact BinaryOp.ne_zero_of_apply_mod happly (UInt16.toNat_inj.mp hzero)
      · exact hwide ▸ Nat.le_of_lt_succ (UInt32.toNat_lt _)
      · rw [Machine.number, Machine.number, ← BinaryOp.toNat_apply happly]
        exact hi.hasAt rfl rfl
  | rmem dst address =>
    cases h with
    | rmem hload =>
      rw [hvalue] at hload
      obtain ⟨hlt, rfl⟩ := Memory.load?_eq_some_iff.mp hload
      exact ⟨hlt, hi.hasAt rfl rfl⟩
  | wmem address src =>
    obtain ⟨a, ha, hwrite⟩ : ∃ a, Address.ofWord? (s.machine.marked.value (.named address)) = some a
        ∧ e.write = some (s.machine.marked.value (.named src), .cell a) := by
      cases h with
      | wmem ha => exact ⟨_, ha, rfl⟩
    rw [hvalue] at ha hwrite
    have haddress : s.machine.number address = a.val := Address.toNat_of_ofWord? ha
    have hlt : s.machine.number address < memoryWords := haddress ▸ a.isLt
    obtain rfl : ⟨s.machine.number address, hlt⟩ = a := Fin.ext haddress
    exact ⟨hlt, congrArg UInt16.toNat (Machine.wordAt_perform hwrite)⟩
  | pop dst =>
    cases h with
    | pop hstack => exact ⟨_, congrArg List.head? hstack, hi.hasAt rfl rfl⟩
  | input dst =>
    cases h with
    | @input _ b _ hread =>
      refine ⟨b, congrArg Prod.fst hread, ?_⟩
      rw [← UInt8.toNat_toUInt16]
      exact hi.hasAt rfl rfl
  | push src =>
    cases h
    exact ⟨_, rfl, congrArg UInt16.toNat (hvalue src)⟩
  | call target =>
    cases h
    exact ⟨_, rfl, hi.1.toNat_behind⟩

/-- **What a step computes is what the numbers say.** A step that does not fail executes an
instruction, and leaves behind the numbers that this instruction has to leave behind, by the
values from before the step and whatever their width. -/
theorem step_computes (s : Session κ) (h : ∀ fault, s.step.1 ≠ .ended (.failed fault)) :
    ∃ i, s.machine.Executes i ∧ s.Computes s.step.2.machine i := by
  rcases s.step_effect with ⟨fault, hfailed, -, -⟩ | ⟨i, e, k, hi, hyields, hstep⟩
  · exact absurd hfailed (h fault)
  · rw [hstep]
    exact ⟨i, hi, computes_perform hi hyields⟩

/-- A `mult` of the greatest word by itself, in the register it goes back to: the product
just fits in 32 bits. -/
theorem step_computes_greatest_product :
    let program := (((Memory.empty.set 0 10).set 1 32768).set 2 32768).set 3 32768
    let s : Session Buffer := ⟨(Machine.ofMemory program).write 65535 (.register 0), .ofInput []⟩
    (∀ fault, s.step.1 ≠ .ended (.failed fault))
      ∧ s.step.2.machine.HasAt 32768 (65535 * 65535 % 32768) ∧ 65535 * 65535 % 32768 = 1 := by
  intro program s
  have hrunning : s.step.1 = .running := by decide
  have hfine : ∀ fault, s.step.1 ≠ .ended (.failed fault) := by
    rw [hrunning]
    exact nofun
  have hmult : s.machine.Fetches (.binary .mult 32768 32768 32768) :=
    (Memory.decode_eq_ok_iff.mp
      (rfl : program.decode 0 = .ok (.binary .mult 32768 32768 32768, 4))).1
  have hvalue : s.machine.number 32768 = 65535 := by decide
  obtain ⟨i, hi, hcomputes⟩ := step_computes s hfine
  obtain rfl : i = .binary .mult 32768 32768 32768 := hi.1.unique hmult
  obtain ⟨-, -, -, n, -, hn, hfound⟩ := hcomputes
  rw [hvalue] at hn
  exact ⟨hfine, hn ▸ hfound, by decide⟩

end Session

end RegisterMachine
