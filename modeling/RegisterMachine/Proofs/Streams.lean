import RegisterMachine.Console.Stream
import RegisterMachine.Proofs.Agreement

/-!
# What the calls of a stream leave behind

The laws of a console speak of the bytes it handed out and took. A stream has
more to it: how much its source delivers at a time, when source and sink refuse,
and the record of what was asked of them. One equation for each of
the four operations says what happens to that.

No call changes the settings. The record holds a refusal exactly when some call
failed (`Stream.refused`), so whether anything went wrong in a long run can be
asked of the stream at its end. And as long as a request asks for at least one
byte, a read that reports the end of the input is at the end of it.
-/

namespace RegisterMachine

/-- Whether this was refused. -/
def Event.isRefusal : Event → Bool
  | .readRefused | .writeRefused | .flushRefused => true
  | .delivered _ | .accepted _ | .flushed => false

namespace Source

/-- A request never goes further than a chunk. -/
theorem reach_le (s : Source) : s.reach ≤ s.chunk := by
  unfold reach
  cases s.refusal.bind (·.border) with
  | none => exact Nat.le_refl _
  | some border =>
    dsimp only
    split
    · exact Nat.min_le_left _ _
    · exact Nat.le_refl _

/-- A request for a byte at least may go that far. -/
theorem reach_pos {s : Source} (hchunk : 0 < s.chunk) : 0 < s.reach := by
  unfold reach
  cases s.refusal.bind (·.border) with
  | none => exact hchunk
  | some border =>
    dsimp only
    split <;> omega

end Source

/-- **What never refuses anything**, whatever is asked for and whatever happened before. It may
still keep a request from going far. -/
def Refusal.Idle (refusal : Option Refusal) : Prop :=
  ∀ n events, Refusal.met? refusal n events = none

theorem Refusal.idle_none : Refusal.Idle none := fun _ _ => rfl

namespace Stream

/-- **Whether anything was refused so far.** -/
def refused (s : Stream) : Bool := s.events.any Event.isRefusal

/-- What no call changes: how many bytes a request asks for, and when reading,
writing and flushing are refused. -/
def settings (s : Stream) : Nat × Option Refusal × Option Refusal × Option Refusal :=
  (s.source.chunk, s.source.refusal, s.sink.writeRefusal, s.sink.flushRefusal)

/-! ## The ways a call can go -/

/-- **The three ways to fill the buffer**: there is nothing to do, or the source refuses, or
it delivers a chunk, or what is left of the input. -/
theorem fill_cases (s : Stream) :
    s.buffer ≠ [] ∧ s.fill = (.ok (), s)
      ∨ s.buffer = []
        ∧ ((∃ message, Refusal.met? s.source.refusal s.source.position s.events = some message
              ∧ s.fill = (.error message, s.record .readRefused))
          ∨ Refusal.met? s.source.refusal s.source.position s.events = none ∧ s.fill = (.ok (), { s with
              source := { s.source with
                pending := s.source.pending.drop s.source.reach
                position := s.source.position + min s.source.reach s.source.pending.length }
              buffer := s.source.pending.take s.source.reach }.record
                (.delivered (s.source.pending.take s.source.reach).length))) := by
  by_cases hbuffer : s.buffer = []
  · have hempty : s.buffer.isEmpty = true := List.isEmpty_iff.mpr hbuffer
    refine .inr ⟨hbuffer, ?_⟩
    unfold fill Source.deliver
    rw [if_pos hempty]
    cases Refusal.met? s.source.refusal s.source.position s.events with
    | some message => exact .inl ⟨message, rfl, rfl⟩
    | none => exact .inr ⟨rfl, rfl⟩
  · have hleft : ¬ s.buffer.isEmpty = true := fun h => hbuffer (List.isEmpty_iff.mp h)
    refine .inl ⟨hbuffer, ?_⟩
    rw [fill, if_neg hleft]

/-- **The three ways a read can go**: the flush fails, or the buffer cannot be filled, or its
first byte is returned, where no byte is the end of the input. -/
theorem read_cases (s : Stream) :
    (∃ message, s.flush.1 = .error message ∧ s.read = (.error message, s.flush.2))
      ∨ s.flush.1 = .ok ()
        ∧ ((∃ message, s.flush.2.fill.1 = .error message
              ∧ s.read = (.error message, s.flush.2.fill.2))
          ∨ s.flush.2.fill.1 = .ok ()
            ∧ s.read = (.ok s.flush.2.fill.2.buffer.head?,
              { s.flush.2.fill.2 with buffer := s.flush.2.fill.2.buffer.tail })) := by
  unfold read
  rcases s.flush with ⟨message | _, t⟩
  · exact .inl ⟨message, rfl, rfl⟩
  · refine .inr ⟨rfl, ?_⟩
    dsimp only
    rcases t.fill with ⟨message | _, u⟩
    · exact .inl ⟨message, rfl, rfl⟩
    · refine .inr ⟨rfl, ?_⟩
      obtain ⟨source, buffer, sink, events⟩ := u
      cases buffer <;> rfl

/-! ## Settings -/

theorem settings_flush (s : Stream) : s.flush.2.settings = s.settings := by
  cases h : Refusal.met? s.sink.flushRefusal (s.sink.flushes + 1) s.events <;> simp only [flush, h] <;> rfl

theorem settings_write (s : Stream) (b : Byte) : (s.write b).2.settings = s.settings := by
  cases h : Refusal.met? s.sink.writeRefusal s.sink.accepted.size s.events <;> simp only [write, h] <;> rfl

theorem settings_fill (s : Stream) : s.fill.2.settings = s.settings := by
  rcases s.fill_cases with ⟨-, hfill⟩ | ⟨-, ⟨_, -, hfill⟩ | ⟨-, hfill⟩⟩ <;> rw [hfill] <;> rfl

theorem settings_read (s : Stream) : s.read.2.settings = s.settings := by
  have hfill := s.flush.2.settings_fill.trans s.settings_flush
  rcases s.read_cases with ⟨_, -, hread⟩ | ⟨-, ⟨_, -, hread⟩ | ⟨-, hread⟩⟩ <;> rw [hread]
  · exact s.settings_flush
  · exact hfill
  · exact hfill

/-! ## Refusals -/

/-- A flush is refused exactly when it fails. -/
theorem refused_flush (s : Stream) : s.flush.2.refused = (s.refused || !s.flush.1.isOk) := by
  cases h : Refusal.met? s.sink.flushRefusal (s.sink.flushes + 1) s.events with
  | none =>
    simp only [flush, h]
    exact (Bool.or_false s.refused).symm
  | some message =>
    simp only [flush, h]
    exact (Bool.or_true s.refused).symm

/-- A write is refused exactly when it fails. -/
theorem refused_write (s : Stream) (b : Byte) :
    (s.write b).2.refused = (s.refused || !(s.write b).1.isOk) := by
  cases h : Refusal.met? s.sink.writeRefusal s.sink.accepted.size s.events with
  | none =>
    simp only [write, h]
    exact (Bool.or_false s.refused).symm
  | some message =>
    simp only [write, h]
    exact (Bool.or_true s.refused).symm

/-- The source refuses exactly when filling the buffer fails. -/
theorem refused_fill (s : Stream) : s.fill.2.refused = (s.refused || !s.fill.1.isOk) := by
  rcases s.fill_cases with ⟨-, hfill⟩ | ⟨-, ⟨_, -, hfill⟩ | ⟨-, hfill⟩⟩ <;> rw [hfill]
  · exact (Bool.or_false s.refused).symm
  · exact (Bool.or_true s.refused).symm
  · exact (Bool.or_false s.refused).symm

/-- Something is refused to a read exactly when it fails. -/
theorem refused_read (s : Stream) : s.read.2.refused = (s.refused || !s.read.1.isOk) := by
  have hflush := s.refused_flush
  have hfill := s.flush.2.refused_fill
  rcases s.read_cases with ⟨_, h, hread⟩ | ⟨h, hrest⟩ <;> rw [h] at hflush
  · rw [hread]
    exact hflush
  · -- the flush worked, so as much is refused to the buffer as to the whole stream
    rw [show s.flush.2.refused = s.refused from hflush.trans (Bool.or_false _)] at hfill
    rcases hrest with ⟨_, h', hread⟩ | ⟨h', hread⟩ <;>
    · rw [h'] at hfill
      rw [hread]
      exact hfill

/-! ## The end of the input -/

/-- **A buffer that stays empty is at the end of the input**: a request asks
for a byte at least, and one that is not refused may go that far. -/
theorem remaining_of_fill {s : Stream} (hchunk : 0 < s.source.chunk) (h : s.fill.1 = .ok ())
    (hempty : s.fill.2.buffer = []) : s.remaining = [] := by
  rcases s.fill_cases with ⟨hbuffer, hfill⟩ | ⟨hbuffer, ⟨_, -, hfill⟩ | ⟨-, hfill⟩⟩
  · rw [hfill] at hempty
    exact absurd hempty hbuffer
  · rw [hfill] at h
    cases h
  · rw [hfill] at hempty
    rw [remaining, hbuffer, List.nil_append]
    rcases List.take_eq_nil_iff.mp hempty with hzero | hnil
    · exact absurd hzero (Nat.ne_of_gt (Source.reach_pos hchunk))
    · exact hnil

/-- **A read reports the end of the input only there.** -/
theorem remaining_of_read_none {s t : Stream} (hchunk : 0 < s.source.chunk)
    (h : s.read = (.ok none, t)) : s.remaining = [] := by
  have hflushed : 0 < s.flush.2.source.chunk := by
    rw [show s.flush.2.source.chunk = s.source.chunk from congrArg Prod.fst s.settings_flush]
    exact hchunk
  rcases s.read_cases with ⟨_, -, hread⟩ | ⟨-, ⟨_, -, hread⟩ | ⟨hfill, hread⟩⟩ <;>
    rw [hread] at h
  · cases h
  · cases h
  · have hend : s.flush.2.fill.2.buffer = [] :=
      List.head?_eq_none_iff.mp (Except.ok.inj (congrArg Prod.fst h))
    rw [← s.remaining_flush]
    exact remaining_of_fill hflushed hfill hend

/-! ## Streams with faults and without

What was said above puts two kinds of streams among the consoles that programs
cannot tell apart: those that were not refused anything so far, and those that
never will be. -/

/-- **What a fresh stream may be told to refuse.** -/
structure Faults where
  /-- At which positions the source refuses. -/
  read : Option Refusal := none
  /-- After how many accepted bytes the sink refuses a byte. -/
  write : Option Refusal := none
  /-- Which requests to flush the sink refuses. -/
  flush : Option Refusal := none

/-- **A fresh stream**: all of the input is with the source, which delivers up
to `chunk` bytes of it at a time. -/
def fresh (input : List Byte) (chunk : Nat) (faults : Faults) : Stream where
  source := { pending := input, chunk, refusal := faults.read }
  sink := { writeRefusal := faults.write, flushRefusal := faults.flush }

/-- Every request asks for something, and nothing was refused so far. -/
def Sound (s : Stream) : Prop := 0 < s.source.chunk ∧ s.refused = false

/-- Every request asks for something, and nothing will ever be refused. -/
structure Reliable (s : Stream) : Prop where
  chunk_pos : 0 < s.source.chunk
  source : Refusal.Idle s.source.refusal
  write : Refusal.Idle s.sink.writeRefusal
  flush : Refusal.Idle s.sink.flushRefusal

/-- A fresh stream is sound, whatever it will refuse. -/
theorem sound_fresh {chunk : Nat} (hchunk : 0 < chunk) (input : List Byte) (faults : Faults) :
    (fresh input chunk faults).Sound :=
  ⟨hchunk, rfl⟩

/-- A fresh stream without faults is reliable. -/
theorem reliable_fresh {chunk : Nat} (hchunk : 0 < chunk) (input : List Byte) :
    (fresh input chunk {}).Reliable :=
  ⟨hchunk, Refusal.idle_none, Refusal.idle_none, Refusal.idle_none⟩

/-- **A call that works keeps a stream sound**, when it changes no setting and
records a refusal only if it fails. -/
theorem Sound.of_call {α : Type} {s t : Stream} {call : Answer α × Stream} {a : α} (h : s.Sound)
    (hsettings : call.2.settings = s.settings)
    (hrefused : call.2.refused = (s.refused || !call.1.isOk)) (hcall : call = (.ok a, t)) :
    t.Sound := by
  rw [hcall] at hsettings hrefused
  refine ⟨?_, ?_⟩
  · rw [show t.source.chunk = s.source.chunk from congrArg Prod.fst hsettings]
    exact h.1
  · show t.refused = false
    rw [show t.refused = (s.refused || false) from hrefused, Bool.or_false]
    exact h.2

/-- **A sound stream ends only where its input ends.** -/
theorem honest : Console.Honest Sound where
  read {s _ _} h hread := h.of_call s.settings_read s.refused_read hread
  write {s _ b} h hwrite := h.of_call (s.settings_write b) (s.refused_write b) hwrite
  flush {s _} h hflush := h.of_call s.settings_flush s.refused_flush hflush
  at_end h hread := remaining_of_read_none h.1 hread

/-- A call that changes no setting keeps a stream reliable. -/
theorem Reliable.of_call {α : Type} {s t : Stream} {call : Answer α × Stream} {answer : Answer α}
    (h : s.Reliable) (hsettings : call.2.settings = s.settings) (hcall : call = (answer, t)) :
    t.Reliable := by
  rw [hcall] at hsettings
  have hchunk : t.source.chunk = s.source.chunk := congrArg Prod.fst hsettings
  have hsource : t.source.refusal = s.source.refusal := congrArg (·.2.1) hsettings
  have hwrite : t.sink.writeRefusal = s.sink.writeRefusal := congrArg (·.2.2.1) hsettings
  have hflush : t.sink.flushRefusal = s.sink.flushRefusal := congrArg (·.2.2.2) hsettings
  exact ⟨hchunk ▸ h.chunk_pos, hsource ▸ h.source, hwrite ▸ h.write, hflush ▸ h.flush⟩

theorem Reliable.exists_flush {s : Stream} (h : s.Reliable) : ∃ t, s.flush = (.ok (), t) := by
  unfold Stream.flush
  rw [h.flush]
  exact ⟨_, rfl⟩

theorem Reliable.exists_write {s : Stream} (h : s.Reliable) (b : Byte) :
    ∃ t, s.write b = (.ok (), t) := by
  unfold Stream.write
  rw [h.write]
  exact ⟨_, rfl⟩

theorem Reliable.exists_fill {s : Stream} (h : s.Reliable) : ∃ t, s.fill = (.ok (), t) := by
  unfold fill
  cases s.buffer.isEmpty with
  | false => exact ⟨_, rfl⟩
  | true =>
    unfold Source.deliver
    rw [h.source]
    exact ⟨_, rfl⟩

theorem Reliable.exists_read {s : Stream} (h : s.Reliable) :
    ∃ got t, s.read = (.ok got, t) := by
  obtain ⟨t, ht⟩ := h.exists_flush
  obtain ⟨u, hu⟩ := (h.of_call s.settings_flush ht).exists_fill
  simp only [read, ht, hu]
  cases u.buffer with
  | nil => exact ⟨none, u, rfl⟩
  | cons b rest => exact ⟨some b, { u with buffer := rest }, rfl⟩

/-- **A reliable stream never fails.** -/
theorem unfailing : Console.Unfailing Reliable where
  read {s _ _} h hread := h.of_call s.settings_read hread
  write {s _ b} h hwrite := h.of_call (s.settings_write b) hwrite
  flush {s _} h hflush := h.of_call s.settings_flush hflush
  at_end h hread := remaining_of_read_none h.chunk_pos hread
  read_works h := h.exists_read
  write_works b h := h.exists_write b
  flush_works h := h.exists_flush

end Stream

end RegisterMachine
