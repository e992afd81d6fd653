import RegisterMachine.Word

/-!
# The opcode table

Every instruction starts with a word that says which one it is. `Opcode.all`
lists the opcodes in the order of those numbers, so reading a number is
looking it up in the list and `Opcode.ofNumber?_number` says that the numbers
written beside the names agree with the list.
-/

namespace RegisterMachine

/-- **What an instruction does.** -/
inductive Opcode where
  /-- Stop. -/
  | halt
  /-- Copy a value. -/
  | set
  /-- Put a value on the stack. -/
  | push
  /-- Take the top of the stack. -/
  | pop
  /-- Whether two values are equal. -/
  | eq
  /-- Whether one value is greater than the other. -/
  | gt
  /-- Jump. -/
  | jmp
  /-- Jump if a value is not zero. -/
  | jt
  /-- Jump if a value is zero. -/
  | jf
  /-- The sum of two values. -/
  | add
  /-- The product of two values. -/
  | mult
  /-- The remainder of a division. -/
  | mod
  /-- The bits two values share. -/
  | and
  /-- The bits of either value. -/
  | or
  /-- The 15-bit complement of a value. -/
  | not
  /-- Read the memory word at an address. -/
  | rmem
  /-- Write the memory word at an address. -/
  | wmem
  /-- Put the address of the next instruction on the stack and jump. -/
  | call
  /-- Jump to the top of the stack; stop when it is empty. -/
  | ret
  /-- Write a byte to the console. -/
  | output
  /-- Read a byte from the console. -/
  | input
  /-- Nothing. -/
  | noop
  deriving DecidableEq, Repr

namespace Opcode

/-- Every opcode, in the order of the numbers. -/
def all : List Opcode :=
  [.halt, .set, .push, .pop, .eq, .gt, .jmp, .jt, .jf, .add, .mult, .mod, .and, .or, .not,
    .rmem, .wmem, .call, .ret, .output, .input, .noop]

/-- How many opcodes there are. -/
def count : Nat := 22

/-- The word that encodes an opcode. -/
def number : Opcode → Word
  | .halt => 0
  | .set => 1
  | .push => 2
  | .pop => 3
  | .eq => 4
  | .gt => 5
  | .jmp => 6
  | .jt => 7
  | .jf => 8
  | .add => 9
  | .mult => 10
  | .mod => 11
  | .and => 12
  | .or => 13
  | .not => 14
  | .rmem => 15
  | .wmem => 16
  | .call => 17
  | .ret => 18
  | .output => 19
  | .input => 20
  | .noop => 21

/-- The opcode a word encodes, if it encodes one. -/
def ofNumber? (w : Word) : Option Opcode := all[w.toNat]?

/-- The name of an opcode in the text of an instruction. -/
def mnemonic : Opcode → String
  | .halt => "halt"
  | .set => "set"
  | .push => "push"
  | .pop => "pop"
  | .eq => "eq"
  | .gt => "gt"
  | .jmp => "jmp"
  | .jt => "jt"
  | .jf => "jf"
  | .add => "add"
  | .mult => "mult"
  | .mod => "mod"
  | .and => "and"
  | .or => "or"
  | .not => "not"
  | .rmem => "rmem"
  | .wmem => "wmem"
  | .call => "call"
  | .ret => "ret"
  | .output => "out"
  | .input => "in"
  | .noop => "noop"

/-- How many operand words follow the opcode. -/
def arity : Opcode → Nat
  | .halt | .ret | .noop => 0
  | .push | .pop | .jmp | .call | .output | .input => 1
  | .set | .jt | .jf | .not | .rmem | .wmem => 2
  | .eq | .gt | .add | .mult | .mod | .and | .or => 3

/-- The number of an opcode leads back to it. -/
@[simp] theorem ofNumber?_number (o : Opcode) : ofNumber? o.number = some o := by
  cases o <;> rfl

/-- The list has one entry per number below `count`. -/
theorem length_all : all.length = count := rfl

end Opcode

end RegisterMachine
