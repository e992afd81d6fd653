import RegisterMachine.Console.Stream

/-!
# A console with a buffer for its output

Writing to the outside byte by byte is slow, so output is held in a buffer until
there is a reason to pass it on: the buffer is full, somebody asks for a flush,
or the console is given up. **No byte is lost on the way.** One that is in the
buffer counts as written, and where the sink refuses to go on taking what is
passed on, the rest stays in the buffer (`Stream.writeAll`).

When the console is given up, what is still in the buffer is passed on for the
last time, and nobody is told if that fails (`Buffered.drop`).
-/

namespace RegisterMachine

/-- **A console over a source and a sink, with a buffer in front of the sink.** -/
structure Buffered where
  /-- The source and the sink. -/
  stream : Stream
  /-- The output that was not passed on yet. -/
  held : Array Byte := #[]

/-- **Pass bytes on to the sink**, and give back those it did not take. -/
def Stream.writeAll (s : Stream) : List Byte → Answer Unit × List Byte × Stream
  | [] => (.ok (), [], s)
  | b :: bytes =>
    match s.write b with
    | (.error message, s) => (.error message, b :: bytes, s)
    | (.ok (), s) => s.writeAll bytes

namespace Buffered

/-- How many bytes the buffer holds. -/
def capacity : Nat := 8192

/-- Pass on what is in the buffer. -/
def passOn (k : Buffered) : Answer Unit × Buffered :=
  let (answer, left, stream) := k.stream.writeAll k.held.toList
  (answer, { stream, held := left.toArray })

/-- One more byte of the output. The buffer is passed on before, if it is
full. -/
def write (b : Byte) (k : Buffered) : Answer Unit × Buffered :=
  if k.held.size < capacity then (.ok (), { k with held := k.held.push b })
  else
    match k.passOn with
    | (.error message, k) => (.error message, k)
    | (.ok (), k) => (.ok (), { k with held := k.held.push b })

/-- Pass on what is in the buffer, and what the sink holds back. -/
def flush (k : Buffered) : Answer Unit × Buffered :=
  match k.passOn with
  | (.error message, k) => (.error message, k)
  | (.ok (), k) =>
    let (answer, stream) := k.stream.flush
    (answer, { k with stream })

/-- The next byte of the input, after the buffer was passed on and the sink
flushed. -/
def read (k : Buffered) : Answer (Option Byte) × Buffered :=
  match k.passOn with
  | (.error message, k) => (.error message, k)
  | (.ok (), k) =>
    let (answer, stream) := k.stream.read
    (answer, { k with stream })

/-- **Give the console up.** -/
def drop (k : Buffered) : Stream := k.passOn.2.stream

/-- The output so far: what the sink has taken, and what is in the buffer. -/
def written (k : Buffered) : List Byte := k.stream.sink.accepted.toList ++ k.held.toList

/-- The input not read yet. -/
def remaining (k : Buffered) : List Byte := k.stream.remaining

end Buffered

/-! ## The laws -/

namespace Stream

/-- A byte that is written is taken by the sink or refused. -/
theorem write_cases (s : Stream) (b : Byte) :
    (∃ message t, s.write b = (.error message, t) ∧ t.remaining = s.remaining
        ∧ t.sink.accepted.toList = s.sink.accepted.toList)
      ∨ ∃ t, s.write b = (.ok (), t) ∧ t.remaining = s.remaining
        ∧ t.sink.accepted.toList = s.sink.accepted.toList ++ [b] := by
  have hremaining := Console.remaining_write b s
  have hwritten := Console.written_write b s
  change (s.write b).2.remaining = _ at hremaining
  change (s.write b).2.sink.accepted.toList = _ ++ (s.write b).1.bytesWritten b at hwritten
  rcases hcall : s.write b with ⟨message | _, t⟩ <;> rw [hcall] at hremaining hwritten
  · exact .inl ⟨message, t, rfl, hremaining, hwritten.trans (List.append_nil _)⟩
  · exact .inr ⟨t, rfl, hremaining, hwritten⟩

/-- **What is passed on is taken by the sink or given back**, and if it works nothing is given
back. -/
theorem writeAll_cases (s : Stream) (bytes : List Byte) :
    ∃ answer left t, s.writeAll bytes = (answer, left, t) ∧ t.remaining = s.remaining
      ∧ t.sink.accepted.toList ++ left = s.sink.accepted.toList ++ bytes
      ∧ (answer = .ok () → left = []) := by
  induction bytes generalizing s with
  | nil => exact ⟨.ok (), [], s, rfl, rfl, rfl, fun _ => rfl⟩
  | cons b bytes ih =>
    rcases s.write_cases b with ⟨message, t, hcall, hremaining, htaken⟩
      | ⟨t, hcall, hremaining, htaken⟩
    · refine ⟨.error message, b :: bytes, t, ?_, hremaining, by rw [htaken], nofun⟩
      rw [writeAll, hcall]
    · obtain ⟨answer, left, u, hrest, hremaining', htaken', hleft⟩ := ih t
      refine ⟨answer, left, u, ?_, hremaining'.trans hremaining, ?_, hleft⟩
      · rw [writeAll, hcall]
        exact hrest
      · rw [htaken', htaken, List.append_assoc]
        rfl

end Stream

namespace Buffered

/-- **The buffer is passed on or it stays**, and the accounts are the same afterwards. -/
theorem passOn_cases (k : Buffered) :
    ∃ answer l, k.passOn = (answer, l) ∧ l.remaining = k.remaining ∧ l.written = k.written
      ∧ (answer = .ok () → l.held = #[]) := by
  obtain ⟨answer, left, t, hcall, hremaining, htaken, hleft⟩ := k.stream.writeAll_cases k.held.toList
  refine ⟨answer, ⟨t, left.toArray⟩, ?_, hremaining, htaken, fun h => ?_⟩
  · rw [passOn, hcall]
  · rw [hleft h]

theorem accounts_write (b : Byte) (k : Buffered) :
    (k.write b).2.remaining = k.remaining
      ∧ (k.write b).2.written = k.written ++ (k.write b).1.bytesWritten b := by
  have hpush : ∀ l : Buffered, ({ l with held := l.held.push b } : Buffered).written
      = l.written ++ [b] := by
    intro l
    rw [written, written, Array.toList_push, List.append_assoc]
  unfold write
  split
  · exact ⟨rfl, hpush k⟩
  · obtain ⟨answer, l, hcall, hremaining, hwritten, -⟩ := k.passOn_cases
    rw [hcall]
    cases answer with
    | error message => exact ⟨hremaining, hwritten.trans (List.append_nil _).symm⟩
    | ok done => exact ⟨hremaining, (hpush l).trans (congrArg (· ++ [b]) hwritten)⟩

theorem accounts_flush (k : Buffered) :
    k.flush.2.remaining = k.remaining ∧ k.flush.2.written = k.written := by
  obtain ⟨answer, l, hcall, hremaining, hwritten, -⟩ := k.passOn_cases
  unfold flush
  rw [hcall]
  cases answer with
  | error message => exact ⟨hremaining, hwritten⟩
  | ok done =>
    refine ⟨l.stream.remaining_flush.trans hremaining, ?_⟩
    rw [← hwritten, written, written, ← l.stream.accepted_flush]

theorem accounts_read (k : Buffered) :
    k.remaining = k.read.1.bytesRead ++ k.read.2.remaining ∧ k.read.2.written = k.written := by
  obtain ⟨answer, l, hcall, hremaining, hwritten, -⟩ := k.passOn_cases
  unfold read
  rw [hcall]
  cases answer with
  | error message => exact ⟨hremaining.symm, hwritten⟩
  | ok done =>
    refine ⟨hremaining.symm.trans l.stream.remaining_read, ?_⟩
    rw [← hwritten, written, written, ← l.stream.accepted_read]

instance : Console.Accountable Buffered where
  read := read
  write := write
  flush := flush
  remaining := remaining
  written := written
  remaining_read k := k.accounts_read.1
  written_read k := k.accounts_read.2
  remaining_write b k := (k.accounts_write b).1
  written_write b k := (k.accounts_write b).2
  remaining_flush k := k.accounts_flush.1
  written_flush k := k.accounts_flush.2

end Buffered

end RegisterMachine
