import RegisterMachine.Fault
import RegisterMachine.Instruction
import RegisterMachine.Memory

/-!
# Instructions in memory

An instruction takes up the word of its opcode and one word per operand, all
at consecutive addresses. `Memory.decode` reads the instruction at an
address together with the address behind it, and refuses in two cases: the
first word is no opcode, or some word of the instruction would lie past the
last one of the memory. It does not look at what the operand words say.
-/

namespace RegisterMachine

/-- The words of an instruction, as they stand in memory. -/
def Instruction.words (i : Instruction Word) : List Word := i.opcode.number :: i.operands

namespace Memory

/-- **The instruction at an address and the address after it.** -/
def decode (m : Memory) (address : Word) : Except Fault (Instruction Word × Word) :=
  match m.load? address with
  | none => .error (.pointerOutOfRange address)
  | some w =>
    match Opcode.ofNumber? w with
    | none => .error (.invalidOpcode w address)
    | some o =>
      let next := address.toNat + 1 + o.arity
      if next ≤ memoryWords then
        .ok (.assemble o fun i => m.wordAt (address.toNat + 1 + i), .ofNat next)
      else
        .error (.pointerOutOfRange address)

/-- The memory with words written one after the other, from an address on,
as far as they fit. -/
def storeAll (m : Memory) (start : Nat) : List Word → Memory
  | [] => m
  | w :: ws =>
    if h : start < memoryWords then (m.set ⟨start, h⟩ w).storeAll (start + 1) ws else m

end Memory

end RegisterMachine
