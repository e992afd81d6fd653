import RegisterMachine.Word

/-!
# How a step or a run can end

A run ends well in one of three ways, its `Outcome`, or badly, with a
`Fault`. A fault is a cause and not a text: `Fault.message` words it and
`Fault.exitCode` sorts it, and nothing else in the library does either. The
address a fault carries is that of the opcode word of the instruction that
could not be executed.
-/

namespace RegisterMachine

/-- **How a run ends without a fault.** -/
inductive Outcome where
  /-- A `halt` was executed. -/
  | halted
  /-- A `ret` was executed on an empty stack. -/
  | returned
  /-- As many steps were counted as the run was allowed. -/
  | stepLimit
  deriving DecidableEq, Repr

/-- The name of an outcome in the log. -/
def Outcome.text : Outcome → String
  | .halted => "Halted"
  | .returned => "Returned"
  | .stepLimit => "StepLimit"

/-- **Why an instruction could not be executed.** -/
inductive Fault where
  /-- The word at the instruction pointer is no opcode. -/
  | invalidOpcode (opcode address : Word)
  /-- An operand word is neither a literal nor a register. -/
  | invalidOperand (word address : Word)
  /-- The instruction does not lie inside the memory. -/
  | pointerOutOfRange (address : Word)
  /-- The value used as a memory address is none. -/
  | offsetOutOfRange (offset address : Word)
  /-- There was nothing to pop. -/
  | stackUnderflow (address : Word)
  /-- The divisor was zero. -/
  | divisionByZero (address : Word)
  /-- There was no input left to read. -/
  | inputExhausted (address : Word)
  /-- The console failed, with this message. -/
  | console (message : String)
  deriving DecidableEq, Repr

namespace Fault

/-- The wording of a fault. -/
def message : Fault → String
  | .invalidOpcode opcode address => s!"invalid opcode {opcode.toNat} at {address.toNat}"
  | .invalidOperand word address => s!"invalid operand {word.toNat} at {address.toNat}"
  | .pointerOutOfRange address => s!"instruction at {address.toNat} runs past program memory"
  | .offsetOutOfRange offset address =>
    s!"memory offset {offset.toNat} at {address.toNat} is outside program memory"
  | .stackUnderflow address => s!"stack underflow at {address.toNat}"
  | .divisionByZero address => s!"division by zero at {address.toNat}"
  | .inputExhausted address => s!"input exhausted at {address.toNat}"
  | .console message => message

/-- Where the instruction stands that could not be executed. The failure of
a console is the only fault that does not say. -/
def address? : Fault → Option Word
  | .invalidOpcode _ address | .invalidOperand _ address | .pointerOutOfRange address
  | .offsetOutOfRange _ address | .stackUnderflow address | .divisionByZero address
  | .inputExhausted address => some address
  | .console _ => none

/-- **The exit status a fault leads to**: 2 for a program that is not well
formed, 3 and 4 for the two ways to compute wrongly, 5 for the console. -/
def exitCode : Fault → Nat
  | .invalidOpcode .. | .invalidOperand .. | .pointerOutOfRange .. | .offsetOutOfRange .. => 2
  | .stackUnderflow .. => 3
  | .divisionByZero .. => 4
  | .inputExhausted .. | .console .. => 5

end Fault

/-- **The end of a run.** -/
inductive Ending where
  | finished (outcome : Outcome)
  | failed (fault : Fault)
  deriving DecidableEq, Repr

/-- **What a step leaves behind**: a machine that can go on, or an ending. -/
inductive Status where
  | running
  | ended (ending : Ending)
  deriving DecidableEq, Repr

end RegisterMachine
