import RegisterMachine.Console

/-!
# A console in memory

Input that is known from the start and output that is collected. Nothing can
go wrong here, and flushing has nothing to do.
-/

namespace RegisterMachine

/-- **A console in memory.** -/
structure Buffer where
  /-- The input still to be read. -/
  input : List Byte := []
  /-- The output so far. -/
  output : Array Byte := #[]

namespace Buffer

/-- The console that hands out these bytes. -/
def ofInput (input : List Byte) : Buffer := { input }

/-- The next byte of the input. -/
def read (k : Buffer) : Answer (Option Byte) × Buffer :=
  match k.input with
  | [] => (.ok none, k)
  | b :: rest => (.ok (some b), { k with input := rest })

/-- One more byte of the output. -/
def write (b : Byte) (k : Buffer) : Answer Unit × Buffer :=
  (.ok (), { k with output := k.output.push b })

instance : Console.Accountable Buffer where
  read := read
  write := write
  flush k := (.ok (), k)
  remaining k := k.input
  written k := k.output.toList
  remaining_read k := by
    unfold read
    split <;> simp_all [Answer.bytesRead]
  written_read k := by
    unfold read
    split <;> rfl
  remaining_write _ _ := rfl
  written_write b k := by simp [write, Answer.bytesWritten]
  remaining_flush _ := rfl
  written_flush _ := rfl

end Buffer

end RegisterMachine
