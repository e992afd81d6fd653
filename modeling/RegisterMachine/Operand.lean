import RegisterMachine.Word

/-!
# Operands

An operand word is a literal or the name of a register, and there are words
that are neither. What a valid operand means depends on the side it stands
on: read, a literal is its own value and a register its content; written, a
literal is the memory word at that address and a register is itself.
`Operand.place` is the second reading, and since a literal is an `Address`
no operand that passed `Operand.ofWord?` can name a place that is not there.
-/

namespace RegisterMachine

/-- One of the eight registers. -/
abbrev Register := Fin registerCount

namespace Register

/-- The register of an index, if there is one. -/
def ofIndex? (i : Nat) : Option Register :=
  if h : i < registerCount then some ⟨i, h⟩ else none

/-- Registers are written `r0` to `r7`. -/
def text (r : Register) : String := "r" ++ toString r.val

end Register

/-- **What an instruction writes to**: a register or a word of memory. -/
inductive Place where
  | register (r : Register)
  | cell (a : Address)
  deriving DecidableEq, Repr

/-- **A valid operand.** -/
inductive Operand where
  /-- A number, or the memory word at that address. -/
  | literal (n : Address)
  /-- A register. -/
  | register (r : Register)
  deriving DecidableEq, Repr

namespace Operand

/-- **The operand a word encodes**: literals up to 32767, then the eight
registers, then nothing. -/
def ofWord? (w : Word) : Option Operand :=
  if h : w.toNat < memoryWords then
    some (.literal ⟨w.toNat, h⟩)
  else if h : w.toNat - memoryWords < registerCount then
    some (.register ⟨w.toNat - memoryWords, h⟩)
  else
    none

/-- The operand a word encodes, or the word itself if it encodes none. -/
def ofWord (w : Word) : Except Word Operand :=
  match ofWord? w with
  | some o => .ok o
  | none => .error w

/-- The word that encodes an operand. -/
def toWord : Operand → Word
  | .literal n => .ofNat n
  | .register r => .ofNat (memoryWords + r)

/-- Where a write to this operand goes. -/
def place : Operand → Place
  | .literal a => .cell a
  | .register r => .register r

/-- A literal is written in decimal, a register by its name. -/
def text : Operand → String
  | .literal n => toString n.val
  | .register r => r.text

/-- **The text of any operand word**, with the words that are no operand
marked as such. -/
def textOfWord (w : Word) : String :=
  match ofWord? w with
  | some o => o.text
  | none => "<bad " ++ toString w.toNat ++ ">"

end Operand

end RegisterMachine
