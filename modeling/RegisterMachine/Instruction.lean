import RegisterMachine.Opcode
import RegisterMachine.Operand

/-!
# Instructions

An instruction is a shape with operands in it, and `Instruction α` leaves
open what an operand is. Fetched from memory it holds raw words, of which
nothing has been checked; `Instruction.resolve` makes an instruction over
`Operand`, or names a word that is no operand. Executing only ever sees the
second kind, so every complaint about an operand comes before any effect.

The seven instructions that compute a word from two values differ in nothing
else and share one shape, `Instruction.binary`.

An instruction reads some operands and writes to at most one. `sources` and
`destination` say which, and the two orders in use are both made of them: an
instruction is encoded and written down with the destination first, and
checked with the destination last.
-/

namespace RegisterMachine

/-- **A word computed from two values.** -/
inductive BinaryOp where
  | eq
  | gt
  | add
  | mult
  | mod
  | and
  | or
  deriving DecidableEq, Repr

namespace BinaryOp

/-- The opcode of the instruction that computes this. -/
def opcode : BinaryOp → Opcode
  | .eq => .eq
  | .gt => .gt
  | .add => .add
  | .mult => .mult
  | .mod => .mod
  | .and => .and
  | .or => .or

/-- **An operation in numbers of any kind**, without any reduction at the end. In `Nat` it is
exact, in words it wraps. -/
def compute {α : Type} [DecidableEq α] [LT α] [DecidableLT α] [Add α] [Mul α] [Mod α] [AndOp α]
    [OrOp α] [OfNat α 0] [OfNat α 1] : BinaryOp → α → α → α
  | .eq, x, y => if x = y then 1 else 0
  | .gt, x, y => if y < x then 1 else 0
  | .add, x, y => x + y
  | .mult, x, y => x * y
  | .mod, x, y => x % y
  | .and, x, y => x &&& y
  | .or, x, y => x ||| y

/-- An operation on words in 32 bits, where no sum and no product of two words is cut off. What
the bitwise operations give is masked to 15 bits at once. -/
def wide (op : BinaryOp) (x y : Word) : UInt32 :=
  let result := op.compute x.toUInt32 y.toUInt32
  match op with
  | .and | .or => result &&& Word.valueMask.toUInt32
  | _ => result

/-- **The word an operation computes**, or nothing for a remainder by zero.
Comparisons look at all 16 bits of their values; everything is reduced to 15
bits at the end. A remainder needs no more than the 16 bits of its values,
and is computed in them. -/
def apply (op : BinaryOp) (x y : Word) : Option Word :=
  match op with
  | .mod => if y = 0 then none else some (x % y % Word.modulus)
  | op => some (op.wide x y % Word.modulus.toUInt32).toUInt16

end BinaryOp

/-- **An instruction** over operands of type `α`. -/
inductive Instruction (α : Type) where
  /-- Stop. -/
  | halt
  /-- Copy `src` to `dst`. -/
  | set (dst src : α)
  /-- Put `src` on the stack. -/
  | push (src : α)
  /-- Move the top of the stack to `dst`. -/
  | pop (dst : α)
  /-- Compute from `lhs` and `rhs` into `dst`. -/
  | binary (op : BinaryOp) (dst lhs rhs : α)
  /-- Jump to `target`. -/
  | jmp (target : α)
  /-- Jump to `target` if `condition` is not zero. -/
  | jt (condition target : α)
  /-- Jump to `target` if `condition` is zero. -/
  | jf (condition target : α)
  /-- The 15-bit complement of `src` into `dst`. -/
  | not (dst src : α)
  /-- The memory word at `address` into `dst`. -/
  | rmem (dst address : α)
  /-- The value `src` into the memory word at `address`. -/
  | wmem (address src : α)
  /-- Put the address of the next instruction on the stack and jump to
  `target`. -/
  | call (target : α)
  /-- Jump to the top of the stack, or stop when it is empty. -/
  | ret
  /-- Write the low byte of `src` to the console. -/
  | output (src : α)
  /-- Read a byte of the console into `dst`. -/
  | input (dst : α)
  /-- Nothing. -/
  | noop
  deriving DecidableEq, Repr

namespace Instruction

variable {α : Type}

/-- The opcode of an instruction. -/
def opcode : Instruction α → Opcode
  | .halt => .halt
  | .set .. => .set
  | .push .. => .push
  | .pop .. => .pop
  | .binary op .. => op.opcode
  | .jmp .. => .jmp
  | .jt .. => .jt
  | .jf .. => .jf
  | .not .. => .not
  | .rmem .. => .rmem
  | .wmem .. => .wmem
  | .call .. => .call
  | .ret => .ret
  | .output .. => .output
  | .input .. => .input
  | .noop => .noop

/-- **The operands that are read**, from left to right. The address of a
`wmem` is one of them: it is computed, and only then written to. -/
def sources : Instruction α → List α
  | .halt | .ret | .noop | .pop _ | .input _ => []
  | .set _ src | .not _ src | .push src | .output src => [src]
  | .binary _ _ lhs rhs => [lhs, rhs]
  | .jmp target | .call target => [target]
  | .jt condition target | .jf condition target => [condition, target]
  | .rmem _ address => [address]
  | .wmem address src => [address, src]

/-- **The operand that is written to**, if there is one. -/
def destination : Instruction α → Option α
  | .set dst _ | .not dst _ | .pop dst | .binary _ dst _ _ | .rmem dst _ | .input dst => some dst
  | .halt | .push _ | .jmp _ | .jt .. | .jf .. | .wmem .. | .call _ | .ret | .output _ | .noop =>
    none

/-- **The operands in the order of the encoding**, the destination first. -/
def operands (i : Instruction α) : List α := i.destination.toList ++ i.sources

/-- There are as many operands as the opcode says. -/
@[simp] theorem length_operands (i : Instruction α) : i.operands.length = i.opcode.arity := by
  cases i with
  | binary op => cases op <;> rfl
  | _ => rfl

/-- **The instruction of an opcode**, its operands taken in the order of the
encoding from the front of a sequence that may be longer than needed. -/
def assemble (o : Opcode) (operand : Nat → α) : Instruction α :=
  match o with
  | .halt => .halt
  | .set => .set (operand 0) (operand 1)
  | .push => .push (operand 0)
  | .pop => .pop (operand 0)
  | .eq => .binary .eq (operand 0) (operand 1) (operand 2)
  | .gt => .binary .gt (operand 0) (operand 1) (operand 2)
  | .jmp => .jmp (operand 0)
  | .jt => .jt (operand 0) (operand 1)
  | .jf => .jf (operand 0) (operand 1)
  | .add => .binary .add (operand 0) (operand 1) (operand 2)
  | .mult => .binary .mult (operand 0) (operand 1) (operand 2)
  | .mod => .binary .mod (operand 0) (operand 1) (operand 2)
  | .and => .binary .and (operand 0) (operand 1) (operand 2)
  | .or => .binary .or (operand 0) (operand 1) (operand 2)
  | .not => .not (operand 0) (operand 1)
  | .rmem => .rmem (operand 0) (operand 1)
  | .wmem => .wmem (operand 0) (operand 1)
  | .call => .call (operand 0)
  | .ret => .ret
  | .output => .output (operand 0)
  | .input => .input (operand 0)
  | .noop => .noop

/-- Assembling keeps the opcode. -/
@[simp] theorem opcode_assemble (o : Opcode) (operand : Nat → α) :
    (assemble o operand).opcode = o := by
  cases o <;> rfl

/-- **The instruction with its operands checked**, or the first word that is
no operand, where the sources are looked at from left to right and the
destination after them. -/
def resolve : Instruction Word → Except Word (Instruction Operand)
  | .halt => .ok .halt
  | .set dst src => do
    let src ← Operand.ofWord src
    let dst ← Operand.ofWord dst
    return .set dst src
  | .push src => return .push (← Operand.ofWord src)
  | .pop dst => return .pop (← Operand.ofWord dst)
  | .binary op dst lhs rhs => do
    let lhs ← Operand.ofWord lhs
    let rhs ← Operand.ofWord rhs
    let dst ← Operand.ofWord dst
    return .binary op dst lhs rhs
  | .jmp target => return .jmp (← Operand.ofWord target)
  | .jt condition target => do
    let condition ← Operand.ofWord condition
    let target ← Operand.ofWord target
    return .jt condition target
  | .jf condition target => do
    let condition ← Operand.ofWord condition
    let target ← Operand.ofWord target
    return .jf condition target
  | .not dst src => do
    let src ← Operand.ofWord src
    let dst ← Operand.ofWord dst
    return .not dst src
  | .rmem dst address => do
    let address ← Operand.ofWord address
    let dst ← Operand.ofWord dst
    return .rmem dst address
  | .wmem address src => do
    let address ← Operand.ofWord address
    let src ← Operand.ofWord src
    return .wmem address src
  | .call target => return .call (← Operand.ofWord target)
  | .ret => .ok .ret
  | .output src => return .output (← Operand.ofWord src)
  | .input dst => return .input (← Operand.ofWord dst)
  | .noop => .ok .noop

/-- **The text of an instruction**: its name and its operands in the order
of the encoding, with a blank before each. Words that are no operand are
shown as such. -/
def text (i : Instruction Word) : String :=
  i.operands.foldl (fun t w => t ++ " " ++ Operand.textOfWord w) i.opcode.mnemonic

end Instruction

end RegisterMachine
