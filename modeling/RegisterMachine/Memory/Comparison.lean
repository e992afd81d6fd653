import RegisterMachine.Memory

/-!
# Comparing memories

Two ways to talk about all of a memory at once: the words in which it
differs from another one, and a number that stands for its whole content.
-/

namespace RegisterMachine.Memory

/-- **The addresses at which a memory differs from an earlier one**, in
ascending order, with the words that are there now. -/
def changesFrom (now before : Memory) : List (Address × Word) :=
  (List.finRange memoryWords).filterMap fun a =>
    if before.get a = now.get a then none else some (a, now.get a)

/-- A checksum over all words in order, kept below a prime. -/
def checksum (m : Memory) : Nat :=
  m.words.foldl (fun sum w => (sum * 31 + w.toNat + 1) % 1000000007) 0

end RegisterMachine.Memory
