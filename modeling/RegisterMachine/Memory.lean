import RegisterMachine.Word

/-!
# Memory

The memory is a fixed number of words, so reading and writing at an
`Address` cannot fail. Programs compute the offsets they use, and
`Memory.load?` and `Memory.store` are the accesses for a word that may be
no address: they are `Memory.get` and `Memory.set` behind
`Address.ofWord?`, and refuse exactly the words it refuses. Storing changes
the memory it is given, and says whether it did; `Memory.store?` has no
memory to give where it did not.

The length of the image a memory was loaded from is remembered, and no write
changes it.
-/

namespace RegisterMachine

/-- **The memory of the machine.** -/
structure Memory where
  /-- The words, by address. -/
  words : Vector Word memoryWords := .replicate memoryWords 0
  /-- How many words came from the program image. -/
  imageLength : Nat := 0

namespace Memory

/-- The memory of no program at all: zeros. -/
def empty : Memory := {}

instance : Inhabited Memory := ⟨empty⟩

/-- How many words the memory holds. -/
def size (m : Memory) : Nat := m.words.size

/-- The word at an address. -/
def get (m : Memory) (a : Address) : Word := m.words[a.val]

/-- The memory with another word at an address. -/
def set (m : Memory) (a : Address) (w : Word) : Memory :=
  { m with words := m.words.set a.val w }

/-- The word at an offset, if the memory reaches that far. -/
def load? (m : Memory) (offset : Word) : Option Word := (Address.ofWord? offset).map m.get

/-- **Store a word at an offset.** The memory stays as it is, and there is no
answer, if it does not reach that far. -/
def store (m : Memory) (offset w : Word) : Option Unit × Memory :=
  match Address.ofWord? offset with
  | none => (none, m)
  | some a => (some (), m.set a w)

/-- The memory with another word at an offset, if it reaches that far. -/
def store? (m : Memory) (offset w : Word) : Option Memory :=
  match m.store offset w with
  | (none, _) => none
  | (some (), m) => some m

/-- The word at a number, and zero where the memory has none. -/
def wordAt (m : Memory) (n : Nat) : Word := m.words[n]?.getD 0

/-- What was written at an address is read there. -/
@[simp] theorem get_set_self (m : Memory) (a : Address) (w : Word) : (m.set a w).get a = w := by
  simp [get, set]

/-- What was written at one address leaves the others alone. -/
theorem get_set_of_ne (m : Memory) {a b : Address} (w : Word) (h : a ≠ b) :
    (m.set a w).get b = m.get b := by
  simp [get, set, Fin.val_ne_of_ne h]

/-- A write keeps the length of the image. -/
@[simp] theorem imageLength_set (m : Memory) (a : Address) (w : Word) :
    (m.set a w).imageLength = m.imageLength := rfl

end Memory

end RegisterMachine
