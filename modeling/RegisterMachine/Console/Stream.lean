import RegisterMachine.Console

/-!
# A console over a byte source and a byte sink

Bytes come from a `Source` that delivers several at a time, so the console
keeps those it has not passed on yet; bytes go to a `Sink` one by one. The
sink may hold back what it accepted until it is flushed, and a program that
prompts and then reads would leave its user waiting: **every read flushes
first**, and a flush that fails keeps the read from happening.

Source and sink can be told when to refuse, for a while or for good, which is
how a console fails. `Stream.events` records everything that was asked of them,
so that the order of flushing and reading can be talked about.
-/

namespace RegisterMachine

/-- **Something was asked of the source or the sink.** -/
inductive Event where
  /-- The source delivered so many bytes, none of them at its end. -/
  | delivered (count : Nat)
  /-- The source refused. -/
  | readRefused
  /-- The sink accepted a byte. -/
  | accepted (b : Byte)
  /-- The sink refused a byte. -/
  | writeRefused
  /-- The sink was flushed. -/
  | flushed
  /-- The sink refused to flush. -/
  | flushRefused
  deriving DecidableEq, Repr

/-- **When a source or a sink refuses**, and what it says then. It may refuse
once, or now and then, or for ever: whether it does depends on the position
or the number of the request, and on everything that happened before. -/
structure Refusal where
  /-- The message at a position or a request, after these events, if it is
  refused. -/
  message? : Nat → List Event → Option String
  /-- A position that nothing is delivered across. -/
  border : Option Nat := none

namespace Refusal

/-- To refuse everything from a position or a request on. -/
def lasting (start : Nat) (message : Nat → String) : Refusal where
  message? n _ := if start ≤ n then some (message n) else none
  border := some start

/-- A source that fails once it has delivered `n` bytes. -/
def ofRead (n : Nat) : Refusal := lasting n fun p => s!"read failed at {p}"

/-- A sink that fails once it has accepted `n` bytes. -/
def ofWrite (n : Nat) : Refusal := lasting n fun p => s!"write failed at {p}"

/-- A sink that fails from the `n`-th flush on. -/
def ofFlush (n : Nat) : Refusal := lasting n fun c => s!"flush {c} failed"

/-- The message met at a position or a request, if it is refused. Where no
refusal is set, nothing is. -/
def met? (refusal : Option Refusal) (n : Nat) (events : List Event) : Option String :=
  refusal.bind (·.message? n events)

end Refusal

/-- **Where input comes from.** -/
structure Source where
  /-- The bytes still to be delivered. -/
  pending : List Byte
  /-- How many were delivered. -/
  position : Nat := 0
  /-- How many bytes one request asks for. -/
  chunk : Nat := 4
  /-- At which positions requests are refused. -/
  refusal : Option Refusal := none

namespace Source

/-- How far the next delivery may go: to the end of the chunk, and not across
a border that is ahead. -/
def reach (s : Source) : Nat :=
  match s.refusal.bind (·.border) with
  | none => s.chunk
  | some border => if s.position < border then min s.chunk (border - s.position) else s.chunk

/-- **One request**, after these events: a run of bytes, which is empty at the
end. -/
def deliver (s : Source) (events : List Event) : Answer (List Byte) × Source :=
  match Refusal.met? s.refusal s.position events with
  | some message => (.error message, s)
  | none =>
    (.ok (s.pending.take s.reach), { s with
      pending := s.pending.drop s.reach
      position := s.position + min s.reach s.pending.length })

end Source

/-- **Where output goes.** -/
structure Sink where
  /-- The bytes accepted. -/
  accepted : Array Byte := #[]
  /-- How often it was asked to flush. -/
  flushes : Nat := 0
  /-- After how many accepted bytes a byte is refused. -/
  writeRefusal : Option Refusal := none
  /-- Which requests to flush are refused. -/
  flushRefusal : Option Refusal := none

/-- **A console over a source and a sink.** -/
structure Stream where
  /-- Where input comes from. -/
  source : Source
  /-- Bytes delivered by the source and not read yet. -/
  buffer : List Byte := []
  /-- Where output goes. -/
  sink : Sink := {}
  /-- What happened so far, the latest first. -/
  events : List Event := []

namespace Stream

/-- The stream with one more event. -/
def record (s : Stream) (e : Event) : Stream := { s with events := e :: s.events }

/-- Pass on everything the sink holds back. Requests are counted from one,
also those that are refused. -/
def flush (s : Stream) : Answer Unit × Stream :=
  let asked : Stream := { s with sink := { s.sink with flushes := s.sink.flushes + 1 } }
  match Refusal.met? s.sink.flushRefusal (s.sink.flushes + 1) s.events with
  | some message => (.error message, asked.record .flushRefused)
  | none => (.ok (), asked.record .flushed)

/-- One byte for the sink. -/
def write (b : Byte) (s : Stream) : Answer Unit × Stream :=
  match Refusal.met? s.sink.writeRefusal s.sink.accepted.size s.events with
  | some message => (.error message, s.record .writeRefused)
  | none =>
    (.ok (), { s with sink := { s.sink with accepted := s.sink.accepted.push b } }.record
      (.accepted b))

/-- **See to it that there are bytes to read**: ask the source for more, but
only when none are left over from the last time. -/
def fill (s : Stream) : Answer Unit × Stream :=
  if s.buffer.isEmpty then
    match s.source.deliver s.events with
    | (.error message, source) => (.error message, { s with source }.record .readRefused)
    | (.ok bytes, source) =>
      (.ok (), { s with source, buffer := bytes }.record (.delivered bytes.length))
  else (.ok (), s)

/-- **The next byte of the input**, after a flush. -/
def read (s : Stream) : Answer (Option Byte) × Stream :=
  match s.flush with
  | (.error message, s) => (.error message, s)
  | (.ok (), s) =>
    match s.fill with
    | (.error message, s) => (.error message, s)
    | (.ok (), s) =>
      match s.buffer with
      | [] => (.ok none, s)
      | b :: rest => (.ok (some b), { s with buffer := rest })

/-- The input not read yet: what is left over, then what the source has. -/
def remaining (s : Stream) : List Byte := s.buffer ++ s.source.pending

theorem remaining_flush (s : Stream) : s.flush.2.remaining = s.remaining := by
  cases h : Refusal.met? s.sink.flushRefusal (s.sink.flushes + 1) s.events <;>
    simp [flush, h, remaining, record]

theorem accepted_flush (s : Stream) : s.flush.2.sink.accepted = s.sink.accepted := by
  cases h : Refusal.met? s.sink.flushRefusal (s.sink.flushes + 1) s.events <;> simp [flush, h, record]

theorem remaining_fill (s : Stream) : s.fill.2.remaining = s.remaining := by
  cases hempty : s.buffer.isEmpty with
  | false => simp [fill, hempty]
  | true =>
    cases h : Refusal.met? s.source.refusal s.source.position s.events <;>
      simp_all [fill, Source.deliver, remaining, record]

theorem accepted_fill (s : Stream) : s.fill.2.sink.accepted = s.sink.accepted := by
  cases hempty : s.buffer.isEmpty with
  | false => simp [fill, hempty]
  | true =>
    cases h : Refusal.met? s.source.refusal s.source.position s.events <;>
      simp [fill, hempty, Source.deliver, h, record]

theorem remaining_read (s : Stream) :
    s.remaining = s.read.1.bytesRead ++ s.read.2.remaining := by
  have hflush := s.remaining_flush
  unfold read
  rcases hf : s.flush with ⟨_ | _, t⟩ <;> rw [hf] at hflush
  · simpa [Answer.bytesRead] using hflush.symm
  · have hfill := t.remaining_fill
    rcases ht : t.fill with ⟨_ | _, u⟩ <;> rw [ht] at hfill
    · simpa [Answer.bytesRead, ht] using (hfill.trans hflush).symm
    · rw [← hflush, ← hfill]
      cases hu : u.buffer <;> simp [Answer.bytesRead, ht, hu, remaining]

theorem accepted_read (s : Stream) : s.read.2.sink.accepted = s.sink.accepted := by
  have hflush := s.accepted_flush
  unfold read
  rcases hf : s.flush with ⟨_ | _, t⟩ <;> rw [hf] at hflush
  · exact hflush
  · have hfill := t.accepted_fill
    rcases ht : t.fill with ⟨_ | _, u⟩ <;> rw [ht] at hfill
    · simpa [ht] using hfill.trans hflush
    · cases hu : u.buffer <;> simpa [ht, hu] using hfill.trans hflush

instance : Console.Accountable Stream where
  read := read
  write := write
  flush := flush
  remaining := remaining
  written s := s.sink.accepted.toList
  remaining_read := remaining_read
  written_read s := by rw [accepted_read]
  remaining_write b s := by
    cases h : Refusal.met? s.sink.writeRefusal s.sink.accepted.size s.events <;>
      simp [write, h, remaining, record]
  written_write b s := by
    cases h : Refusal.met? s.sink.writeRefusal s.sink.accepted.size s.events <;>
      simp [write, h, record, Answer.bytesWritten]
  remaining_flush := remaining_flush
  written_flush s := by rw [accepted_flush]

end Stream

end RegisterMachine
