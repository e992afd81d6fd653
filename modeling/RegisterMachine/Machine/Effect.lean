import RegisterMachine.Console
import RegisterMachine.Instruction
import RegisterMachine.Machine

/-!
# What an instruction does

A step does one thing after the other. What it comes to is said here at once:
the effect of an instruction is worked out before anything is changed, and
says whether to go on, where, what the stack will be, and at most one word to
write; `Machine.perform` then carries it out, and cannot fail. So an
instruction that meets a fault leaves no trace in the machine, and what an
instruction can change at all is read off the fields of `Effect`. That a step
comes to this is `Session.step_eq`.

`Machine.effect` is the meaning of the instruction set. All values are those
before the instruction, and the console is called by the two instructions
that exist for it, after everything else that could go wrong.
-/

namespace RegisterMachine

/-- **All that an instruction changes.** -/
structure Effect where
  /-- Why the program stops here, if it does. -/
  stop : Option Outcome := none
  /-- The next instruction. -/
  ip : Word
  /-- The stack afterwards. -/
  stack : List Word
  /-- The word that is written and where to. -/
  write : Option (Word × Place) := none

namespace Machine

/-- The effect of doing nothing but going on at an address. -/
def goOn (m : Machine) (ip : Word) : Effect := { ip, stack := m.stack }

/-- The effect of writing a word to a destination. -/
def assign (m : Machine) (next : Word) (dst : Operand) (w : Word) : Effect :=
  { m.goOn next with write := some (w, dst.place) }

/-- **The effect of an instruction** that is followed by address `next`, and
the console after it. -/
def effect {κ : Type} [Console κ] (m : Machine) (next : Word) (k : κ) :
    Instruction Operand → Except Fault Effect × κ
  | .halt => (.ok { m.goOn next with stop := some .halted }, k)
  | .set dst src => (.ok (m.assign next dst (m.value src)), k)
  | .push src => (.ok { m.goOn next with stack := m.value src :: m.stack }, k)
  | .pop dst =>
    match m.stack with
    | [] => (.error (.stackUnderflow m.ip), k)
    | w :: rest => (.ok { m.assign next dst w with stack := rest }, k)
  | .binary op dst lhs rhs =>
    match op.apply (m.value lhs) (m.value rhs) with
    | none => (.error (.divisionByZero m.ip), k)
    | some w => (.ok (m.assign next dst w), k)
  | .jmp target => (.ok (m.goOn (m.value target)), k)
  | .jt condition target =>
    (.ok (m.goOn (if m.value condition = 0 then next else m.value target)), k)
  | .jf condition target =>
    (.ok (m.goOn (if m.value condition = 0 then m.value target else next)), k)
  | .not dst src => (.ok (m.assign next dst (~~~ m.value src &&& Word.valueMask)), k)
  | .rmem dst address =>
    match m.memory.load? (m.value address) with
    | none => (.error (.offsetOutOfRange (m.value address) m.ip), k)
    | some w => (.ok (m.assign next dst w), k)
  | .wmem address src =>
    match Address.ofWord? (m.value address) with
    | none => (.error (.offsetOutOfRange (m.value address) m.ip), k)
    | some a => (.ok { m.goOn next with write := some (m.value src, .cell a) }, k)
  | .call target => (.ok { m.goOn (m.value target) with stack := next :: m.stack }, k)
  | .ret =>
    match m.stack with
    | [] => (.ok { m.goOn next with stop := some .returned }, k)
    | target :: rest => (.ok { m.goOn target with stack := rest }, k)
  | .output src =>
    match Console.write (m.value src).lowByte k with
    | (.error message, k) => (.error (.console message), k)
    | (.ok (), k) => (.ok (m.goOn next), k)
  | .input dst =>
    match Console.read k with
    | (.error message, k) => (.error (.console message), k)
    | (.ok none, k) => (.error (.inputExhausted m.ip), k)
    | (.ok (some b), k) => (.ok (m.assign next dst b.toUInt16), k)
  | .noop => (.ok (m.goOn next), k)

/-- The machine after the write of an effect. -/
def store (m : Machine) : Option (Word × Place) → Machine
  | none => m
  | some (w, place) => m.write w place

/-- **The machine after an effect**, with the instruction counted. -/
def perform (m : Machine) (e : Effect) : Machine :=
  let m := m.store e.write
  { m with ip := e.ip, stack := e.stack, steps := Processor.nextCount m.steps }

end Machine

/-- Whether there is anything left to run after an effect. -/
def Effect.status (e : Effect) : Status :=
  match e.stop with
  | none => .running
  | some outcome => .ended (.finished outcome)

end RegisterMachine
