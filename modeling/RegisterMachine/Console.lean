import RegisterMachine.Word

/-!
# Consoles

A program talks to the world one byte at a time: `Console.read`,
`Console.write` and `Console.flush` are all it can do. Each of them may fail
with a message, and gives back the console as it is afterwards, also then.

What a console means to a program is two lists of bytes, the input it has
still to hand out and the output it has taken. `Console.Accountable` is a
console that has these lists. Its laws say how the three operations move
them, and that **an operation that fails, or that reports the end of the
input, moves neither**. Everything else about a console is its own affair.
-/

namespace RegisterMachine

/-- **The answer of a console**: a result, or a message that says why there
is none. -/
abbrev Answer (α : Type) := Except String α

/-- The bytes a read took off the input: the one it returned, if any. -/
def Answer.bytesRead : Answer (Option Byte) → List Byte
  | .ok (some b) => [b]
  | _ => []

/-- The bytes a write added to the output: the one written, if it worked. -/
def Answer.bytesWritten (b : Byte) : Answer Unit → List Byte
  | .ok () => [b]
  | .error _ => []

/-- **A console of type `κ`.** -/
class Console (κ : Type) where
  /-- One byte of the input, or nothing at its end. -/
  read : κ → Answer (Option Byte) × κ
  /-- One more byte of the output. -/
  write : Byte → κ → Answer Unit × κ
  /-- All output so far must now reach its reader. -/
  flush : κ → Answer Unit × κ

/-- **A console that can account for its bytes.** -/
class Console.Accountable (κ : Type) extends Console κ where
  /-- The input that no read has returned yet. -/
  remaining : κ → List Byte
  /-- The output of all writes that worked. -/
  written : κ → List Byte
  remaining_read : ∀ k, remaining k = (read k).1.bytesRead ++ remaining (read k).2
  written_read : ∀ k, written (read k).2 = written k
  remaining_write : ∀ b k, remaining (write b k).2 = remaining k
  written_write : ∀ b k, written (write b k).2 = written k ++ (write b k).1.bytesWritten b
  remaining_flush : ∀ k, remaining (flush k).2 = remaining k
  written_flush : ∀ k, written (flush k).2 = written k

namespace Console

export Accountable (remaining written remaining_read written_read remaining_write written_write
  remaining_flush written_flush)

end Console

end RegisterMachine
