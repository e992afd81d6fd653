import RegisterMachine.Machine.Effect
import RegisterMachine.Proofs.Checking

/-!
# Registers and memory words alike

An instruction writes to a register or to a word of memory, and what there is to say about
a write is the same for both: **what was written at a place is found there**
(`Machine.wordAt_perform`), **and every other place is as it was**
(`Machine.wordAt_perform_of_ne`). No register shares its word with an address, since they
are places of different kinds.

Which place a destination word names can be told from its number. `Word.Names` says so
without asking the decoder of operands, and a valid word names the place that the operand
it decodes to is written at (`Operand.names_named`), and no other (`Word.Names.unique`).
-/

namespace RegisterMachine

/-! ## The place that a word names -/

/-- **A word names a place**, where it is the destination of an instruction: a literal names
the memory word at that address, and the words behind the literals name the registers. -/
def Word.Names (w : Word) : Place → Prop
  | .cell a => w.toNat = a.val
  | .register r => w.toNat = memoryWords + r.val

instance (w : Word) (place : Place) : Decidable (w.Names place) :=
  match place with
  | .cell a => inferInstanceAs (Decidable (w.toNat = a.val))
  | .register r => inferInstanceAs (Decidable (w.toNat = memoryWords + r.val))

/-- A word names one place at most. -/
theorem Word.Names.unique {w : Word} {place other : Place} (h : w.Names place)
    (hother : w.Names other) : place = other := by
  cases place with
  | cell a =>
    cases other with
    | cell b => rw [Fin.ext (h.symm.trans hother)]
    | register r =>
      have hsame : a.val = memoryWords + r.val := h.symm.trans hother
      exact absurd a.isLt (by omega)
  | register r =>
    cases other with
    | cell b =>
      have hsame : memoryWords + r.val = b.val := h.symm.trans hother
      exact absurd b.isLt (by omega)
    | register r' => rw [Fin.ext (Nat.add_left_cancel (h.symm.trans hother))]

/-- **A valid word names the place its operand is written at.** -/
theorem Operand.names_named {w : Word} (h : ¬ Word.registerLast < w) :
    w.Names (Operand.named w).place := by
  have hwords : memoryWords = 32768 := rfl
  have hcount : registerCount = 8 := rfl
  have hlast : ¬ 32775 < w.toNat := fun hlt => h (UInt16.lt_iff_toNat_lt.mpr hlt)
  unfold named ofWord?
  by_cases hliteral : w.toNat < memoryWords
  · rw [dif_pos hliteral]
    rfl
  · have hregister : w.toNat - memoryWords < registerCount := by omega
    rw [dif_neg hliteral, dif_pos hregister]
    show w.toNat = memoryWords + (w.toNat - memoryWords)
    omega

/-! ## Reading a place -/

namespace Machine

/-- The word at a place. -/
def wordAt (m : Machine) : Place → Word
  | .cell a => m.memory.get a
  | .register r => m.get r

/-- What was written at a place is found there. -/
@[simp] theorem wordAt_write (m : Machine) (w : Word) (place : Place) :
    (m.write w place).wordAt place = w := by
  cases place with
  | cell a => exact m.memory.get_set_self a w
  | register r =>
    show (m.registers.set r.val w)[r.val] = w
    exact Vector.getElem_set_self r.isLt

/-- What was written at one place leaves the others alone. -/
theorem wordAt_write_of_ne (m : Machine) (w : Word) {place other : Place} (h : place ≠ other) :
    (m.write w place).wordAt other = m.wordAt other := by
  cases place with
  | cell a =>
    cases other with
    | cell b => exact m.memory.get_set_of_ne w fun hab => h (congrArg Place.cell hab)
    | register r => rfl
  | register r =>
    cases other with
    | cell b => rfl
    | register r' =>
      have hne : r.val ≠ r'.val := fun hrr => h (congrArg Place.register (Fin.ext hrr))
      show (m.registers.set r.val w)[r'.val] = m.registers[r'.val]
      exact Vector.getElem_set_ne r.isLt r'.isLt hne

/-- Only the write of an effect is seen at a place. -/
theorem wordAt_perform_eq (m : Machine) (e : Effect) (place : Place) :
    (m.perform e).wordAt place = (m.store e.write).wordAt place := by
  cases place <;> rfl

/-- An effect is found where it wrote. -/
theorem wordAt_perform {m : Machine} {e : Effect} {w : Word} {place : Place}
    (h : e.write = some (w, place)) : (m.perform e).wordAt place = w := by
  rw [wordAt_perform_eq, h]
  exact wordAt_write m w place

/-- **An effect leaves a place alone that it did not write to.** -/
theorem wordAt_perform_of_ne {m : Machine} {e : Effect} {place : Place}
    (h : ∀ w, e.write ≠ some (w, place)) : (m.perform e).wordAt place = m.wordAt place := by
  rw [wordAt_perform_eq]
  rcases hwrite : e.write with _ | ⟨w, other⟩
  · rfl
  · refine wordAt_write_of_ne m w fun hsame => h w ?_
    rw [hwrite, hsame]

end Machine

end RegisterMachine
