import RegisterMachine.Instruction
import RegisterMachine.Machine

/-!
# Which operand words are refused

A word beyond the last register is no operand, and of an instruction with
several such words one is blamed: the first, where the operands that are read
come from left to right and the one that is written to comes last. That word is
`Instruction.firstInvalid?`, found by looking along a list. `Instruction.resolve`
has an order of its own for each shape of instruction, and
`Instruction.resolve_eq` says that they are all that one order.

An instruction that passes is the same instruction with each word replaced by
the operand it names, so what it does can be told from its words: the value of
a word is the word itself or the content of a register (`Machine.wordValue`).
-/

namespace RegisterMachine

namespace Operand

/-- The operand a word names. A word that names none is never asked. -/
def named (w : Word) : Operand := (ofWord? w).getD (.literal 0)

/-- **The words beyond the last register name no operand**, and no others. -/
theorem ofWord?_eq_none_iff {w : Word} : ofWord? w = none ↔ Word.registerLast < w := by
  have hwords : memoryWords = 32768 := rfl
  have hcount : registerCount = 8 := rfl
  have hlast : Word.registerLast < w ↔ 32775 < w.toNat := UInt16.lt_iff_toNat_lt
  unfold ofWord?
  rw [hlast]
  by_cases hliteral : w.toNat < memoryWords
  · rw [dif_pos hliteral]
    exact ⟨fun h => absurd h (by simp), fun h => by omega⟩
  · by_cases hregister : w.toNat - memoryWords < registerCount
    · rw [dif_neg hliteral, dif_pos hregister]
      exact ⟨fun h => absurd h (by simp), fun h => by omega⟩
    · rw [dif_neg hliteral, dif_neg hregister]
      exact ⟨fun _ => by omega, fun _ => rfl⟩

/-- A word beyond the last register is refused. -/
theorem ofWord_of_lt {w : Word} (h : Word.registerLast < w) : ofWord w = .error w := by
  unfold ofWord
  rw [ofWord?_eq_none_iff.mpr h]

/-- Any other word is taken for the operand it names. -/
theorem ofWord_of_not_lt {w : Word} (h : ¬ Word.registerLast < w) : ofWord w = .ok (named w) := by
  unfold ofWord named
  cases ho : ofWord? w with
  | none => exact absurd (ofWord?_eq_none_iff.mp ho) h
  | some o => rfl

end Operand

namespace Instruction

variable {α β : Type}

/-- The instruction with something else for each of its operands. -/
def map (f : α → β) : Instruction α → Instruction β
  | .halt => .halt
  | .set dst src => .set (f dst) (f src)
  | .push src => .push (f src)
  | .pop dst => .pop (f dst)
  | .binary op dst lhs rhs => .binary op (f dst) (f lhs) (f rhs)
  | .jmp target => .jmp (f target)
  | .jt condition target => .jt (f condition) (f target)
  | .jf condition target => .jf (f condition) (f target)
  | .not dst src => .not (f dst) (f src)
  | .rmem dst address => .rmem (f dst) (f address)
  | .wmem address src => .wmem (f address) (f src)
  | .call target => .call (f target)
  | .ret => .ret
  | .output src => .output (f src)
  | .input dst => .input (f dst)
  | .noop => .noop

/-- **The first operand word that is no operand**, the operands that are read
before the one that is written to. -/
def firstInvalid? (i : Instruction Word) : Option Word :=
  (i.sources ++ i.destination.toList).find? fun w => decide (Word.registerLast < w)

/-- There is none exactly if every operand word names an operand. -/
theorem firstInvalid?_eq_none_iff {i : Instruction Word} :
    i.firstInvalid? = none ↔ ∀ w ∈ i.operands, ¬ Word.registerLast < w := by
  unfold firstInvalid? operands
  rw [List.find?_eq_none]
  simp only [List.mem_append, or_comm, decide_eq_true_eq]

/-- What checking words one after the other comes to: the first word that is no
operand, or what is made of the operands if there is none. -/
def checked (ws : List Word) (made : β) : Except Word β :=
  match ws.find? fun w => decide (Word.registerLast < w) with
  | some w => .error w
  | none => .ok made

/-- Checking a word and going on is checking one word more. -/
theorem ofWord_bind {w : Word} {ws : List Word} {go : Operand → Except Word β} {made : β}
    (h : go (Operand.named w) = checked ws made) :
    (Operand.ofWord w >>= go) = checked (w :: ws) made := by
  unfold checked
  by_cases hw : Word.registerLast < w
  · rw [Operand.ofWord_of_lt hw, List.find?_cons_of_pos (by simpa using hw)]
    rfl
  · rw [Operand.ofWord_of_not_lt hw, List.find?_cons_of_neg (by simpa using hw)]
    exact h

/-- **Resolving blames the first word that is no operand**, and replaces every
word by its operand when there is none. -/
theorem resolve_eq (i : Instruction Word) :
    i.resolve = checked (i.sources ++ i.destination.toList) (i.map Operand.named) := by
  cases i with
  | halt | ret | noop => rfl
  | push src | output src => exact ofWord_bind rfl
  | pop dst | input dst => exact ofWord_bind rfl
  | jmp target | call target => exact ofWord_bind rfl
  | jt condition target | jf condition target => exact ofWord_bind (ofWord_bind rfl)
  | set dst src | not dst src => exact ofWord_bind (ofWord_bind rfl)
  | rmem dst address => exact ofWord_bind (ofWord_bind rfl)
  | wmem address src => exact ofWord_bind (ofWord_bind rfl)
  | binary op dst lhs rhs => exact ofWord_bind (ofWord_bind (ofWord_bind rfl))

/-- An invalid word is found out. -/
theorem resolve_of_invalid {i : Instruction Word} {w : Word} (h : i.firstInvalid? = some w) :
    i.resolve = .error w := by
  rw [resolve_eq, checked]
  rw [firstInvalid?] at h
  rw [h]

/-- Without one the instruction passes. -/
theorem resolve_of_valid {i : Instruction Word} (h : i.firstInvalid? = none) :
    i.resolve = .ok (i.map Operand.named) := by
  rw [resolve_eq, checked]
  rw [firstInvalid?] at h
  rw [h]

end Instruction

namespace Machine

/-- **The value of an operand word**: the word itself up to the greatest
literal, and the content of a register beyond it. -/
def wordValue (m : Machine) (w : Word) : Word :=
  if w ≤ Word.maxLiteral then w
  else m.registers[w.toNat - Word.registerBase.toNat]?.getD 0

/-- The operand a word names has the value of the word. -/
theorem value_named (m : Machine) (w : Word) : m.value (Operand.named w) = m.wordValue w := by
  have hwords : memoryWords = 32768 := rfl
  have hmax : w ≤ Word.maxLiteral ↔ w.toNat ≤ 32767 := UInt16.le_iff_toNat_le
  have hbase : Word.registerBase.toNat = memoryWords := rfl
  unfold Operand.named Operand.ofWord? wordValue
  by_cases hliteral : w.toNat < memoryWords
  · rw [dif_pos hliteral, if_pos (hmax.mpr (by omega))]
    exact UInt16.ofNat_toNat
  · rw [dif_neg hliteral, if_neg (fun h => by have := hmax.mp h; omega), hbase]
    by_cases hregister : w.toNat - memoryWords < registerCount
    · rw [dif_pos hregister, Vector.getElem?_eq_getElem hregister]
      rfl
    · rw [dif_neg hregister, Vector.getElem?_eq_none (Nat.not_lt.mp hregister)]
      rfl

end Machine

end RegisterMachine
