/-!
# Words, bytes and addresses

Everything the machine computes with is a 16-bit word, but it addresses only
32768 of them, so an address is a number below `memoryWords` and most words
above `Word.maxLiteral` are no address at all. `Address.ofWord?` is the one
place where that bound is checked: whatever holds an `Address` needs no
check of its own.
-/

namespace RegisterMachine

/-- A machine word, of 16 bits. -/
abbrev Word := UInt16

/-- A byte, of an image or of the console. -/
abbrev Byte := UInt8

/-- How many words the memory holds. -/
abbrev memoryWords : Nat := 32768

/-- How many registers there are. -/
abbrev registerCount : Nat := 8

namespace Word

/-- **Arithmetic is modulo this word.** It divides 65536, so reducing a
16-bit result that has already wrapped gives the same word as reducing the
exact one. -/
def modulus : Word := 32768

/-- The low 15 bits, all set. -/
def valueMask : Word := 32767

/-- The greatest word that stands for itself as an operand. -/
def maxLiteral : Word := 32767

/-- The word that names the first register. -/
def registerBase : Word := 32768

/-- The word that names the last register. -/
def registerLast : Word := 32775

/-- The low half of a word. -/
def lowByte (w : Word) : Byte := w.toUInt8

/-- The high half of a word. -/
def highByte (w : Word) : Byte := (w >>> 8).toUInt8

/-- The word of a low and a high byte. -/
def ofBytes (low high : Byte) : Word := low.toUInt16 ||| (high.toUInt16 <<< 8)

end Word

/-- **The offset of a word of memory.** A literal operand is one as well,
since as a destination it names the memory word at that offset. -/
abbrev Address := Fin memoryWords

namespace Address

/-- The address a word names, if it names one. -/
def ofWord? (w : Word) : Option Address :=
  if h : w.toNat < memoryWords then some ⟨w.toNat, h⟩ else none

/-- An address as a word. -/
def toWord (a : Address) : Word := .ofNat a

/-- An address as a word is that number. -/
theorem toNat_toWord (a : Address) : a.toWord.toNat = a.val :=
  UInt16.toNat_ofNat_of_lt' (Nat.lt_trans a.isLt (by decide))

/-- A word that is an address is that number. -/
theorem toNat_of_ofWord? {w : Word} {a : Address} (h : ofWord? w = some a) :
    w.toNat = a.val := by
  unfold ofWord? at h
  split at h
  · cases h
    rfl
  · cases h

/-- The word of an address is that address. -/
@[simp] theorem ofWord?_toWord (a : Address) : ofWord? a.toWord = some a := by
  have hlt : a.toWord.toNat < memoryWords := a.toNat_toWord ▸ a.isLt
  rw [ofWord?, dif_pos hlt]
  exact congrArg some (Fin.ext a.toNat_toWord)

end Address

end RegisterMachine
