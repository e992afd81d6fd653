import RegisterMachine.Fault
import RegisterMachine.Memory
import RegisterMachine.Operand

/-!
# The machine

A machine is a `Processor` with a memory. It also remembers the address of
the instruction it decoded last, which is what an operand that is looked up
from outside, between two steps, is blamed on.

Reading and writing through an `Operand` or a `Place` always works, since
both were checked when they were made. `Machine.resolveValue` and
`Machine.resolvePlace` are the same two readings for a raw word, which may
be refused.
-/

namespace RegisterMachine

/-- **The part of the machine that is not memory.** -/
structure Processor where
  /-- The contents of the registers. -/
  registers : Vector Word registerCount := .replicate registerCount 0
  /-- The stack, with its top in front. -/
  stack : List Word := []
  /-- The instruction pointer: the address of the next instruction. -/
  ip : Word := 0
  /-- How many instructions were executed. -/
  steps : UInt64 := 0

namespace Processor

/-- The content of a register. -/
def get (p : Processor) (r : Register) : Word := p.registers[r.val]

/-- The processor with another word in a register. -/
def set (p : Processor) (r : Register) (w : Word) : Processor :=
  { p with registers := p.registers.set r.val w }

/-- The processor with one more word on its stack. -/
def push (p : Processor) (w : Word) : Processor := { p with stack := w :: p.stack }

/-- The top of the stack, and the processor without it. -/
def pop (p : Processor) : Option Word × Processor :=
  match p.stack with
  | [] => (none, p)
  | w :: rest => (some w, { p with stack := rest })

/-- The number after this one, or this one if it is the greatest there is.
The count of steps must not start again from zero. -/
def nextCount (n : UInt64) : UInt64 := if n + 1 = 0 then n else n + 1

/-- The processor with one more step counted. -/
def countStep (p : Processor) : Processor := { p with steps := nextCount p.steps }

end Processor

/-- **A machine**: a processor with its memory. -/
structure Machine extends Processor where
  /-- Program and data. -/
  memory : Memory
  /-- The address of the instruction decoded last. -/
  lastDecoded : Word := 0

namespace Machine

/-- The machine that is about to run the program in a memory. -/
def ofMemory (memory : Memory) : Machine := { memory }

/-- The value of an operand: a literal, or the content of a register. -/
def value (m : Machine) : Operand → Word
  | .literal n => n.toWord
  | .register r => m.get r

/-- The machine with another word at a place. -/
def write (m : Machine) (w : Word) : Place → Machine
  | .cell a => { m with memory := m.memory.set a w }
  | .register r => { m with toProcessor := m.toProcessor.set r w }

/-- The operand a word encodes, where a word that encodes none is blamed on
the instruction decoded last. -/
def operand (m : Machine) (w : Word) : Except Fault Operand :=
  (Operand.ofWord w).mapError fun w => .invalidOperand w m.lastDecoded

/-- The value of an operand word. -/
def resolveValue (m : Machine) (w : Word) : Except Fault Word := (m.operand w).map m.value

/-- The place an operand word names. -/
def resolvePlace (m : Machine) (w : Word) : Except Fault Place := (m.operand w).map Operand.place

end Machine

end RegisterMachine
