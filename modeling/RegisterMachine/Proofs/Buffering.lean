import RegisterMachine.Console.Buffered
import RegisterMachine.Proofs.Streams

/-!
# Nothing stays in the buffer

A program writes into a buffer, and what counts is what the sink has taken. Over a stream to
which nothing is refused the two come to the same: no call fails, as over the stream itself
(`Buffered.unfailing`), and when the console is given up, **the sink has taken all that was
written** (`Buffered.Reliable.accepted_drop`). It need not have been flushed before.
-/

namespace RegisterMachine

/-- What is passed on to a reliable stream is taken. -/
theorem Stream.Reliable.exists_writeAll {s : Stream} (h : s.Reliable) (bytes : List Byte) :
    ∃ t, s.writeAll bytes = (.ok (), [], t) ∧ t.Reliable := by
  induction bytes generalizing s with
  | nil => exact ⟨s, rfl, h⟩
  | cons b bytes ih =>
    obtain ⟨t, hcall⟩ := h.exists_write b
    obtain ⟨u, hrest, hu⟩ := ih (h.of_call (s.settings_write b) hcall)
    refine ⟨u, ?_, hu⟩
    rw [writeAll, hcall]
    exact hrest

namespace Buffered

/-- Nothing will ever be refused to the stream behind the buffer. -/
def Reliable (k : Buffered) : Prop := k.stream.Reliable

variable {k : Buffered}

/-- Then the buffer is passed on as a whole. -/
theorem Reliable.exists_passOn (h : k.Reliable) :
    ∃ t, k.passOn = (.ok (), ⟨t, #[]⟩) ∧ t.Reliable := by
  obtain ⟨t, hcall, ht⟩ := Stream.Reliable.exists_writeAll h k.held.toList
  refine ⟨t, ?_, ht⟩
  rw [passOn, hcall]

theorem Reliable.exists_write (h : k.Reliable) (b : Byte) :
    ∃ l, k.write b = (.ok (), l) ∧ l.Reliable := by
  unfold write
  split
  · exact ⟨_, rfl, h⟩
  · obtain ⟨t, hcall, ht⟩ := h.exists_passOn
    rw [hcall]
    exact ⟨_, rfl, ht⟩

theorem Reliable.exists_flush (h : k.Reliable) : ∃ l, k.flush = (.ok (), l) ∧ l.Reliable := by
  obtain ⟨t, hcall, ht⟩ := h.exists_passOn
  obtain ⟨u, hflush⟩ := ht.exists_flush
  refine ⟨⟨u, #[]⟩, ?_, ht.of_call t.settings_flush hflush⟩
  simp only [flush, hcall, hflush]

/-- A read is the read of the stream, after the buffer was passed on. -/
theorem Reliable.exists_read (h : k.Reliable) :
    ∃ got t u, k.passOn = (.ok (), ⟨t, #[]⟩) ∧ t.Reliable ∧ t.read = (.ok got, u)
      ∧ k.read = (.ok got, ⟨u, #[]⟩) ∧ u.Reliable := by
  obtain ⟨t, hcall, ht⟩ := h.exists_passOn
  obtain ⟨got, u, hread⟩ := ht.exists_read
  refine ⟨got, t, u, hcall, ht, hread, ?_, ht.of_call t.settings_read hread⟩
  simp only [read, hcall, hread]

/-- **Over a reliable stream no call fails**, and the end of the input is reported only
there. -/
theorem unfailing : Console.Unfailing Reliable where
  read {k l got} h hread := by
    obtain ⟨_, _, u, -, -, -, hcall, hu⟩ := h.exists_read
    rw [show k.read = (.ok got, l) from hread] at hcall
    cases hcall
    exact hu
  write {k l b} h hwrite := by
    obtain ⟨_, hcall, hl⟩ := h.exists_write b
    rw [show k.write b = (.ok (), l) from hwrite] at hcall
    cases hcall
    exact hl
  flush {k l} h hflush := by
    obtain ⟨_, hcall, hl⟩ := h.exists_flush
    rw [show k.flush = (.ok (), l) from hflush] at hcall
    cases hcall
    exact hl
  at_end {k l} h hread := by
    obtain ⟨got, t, u, hpassOn, ht, hend, hcall, -⟩ := h.exists_read
    rw [show k.read = (.ok none, l) from hread] at hcall
    obtain rfl : none = got := Except.ok.inj (congrArg Prod.fst hcall)
    obtain ⟨_, _, hk, hremaining, -, -⟩ := k.passOn_cases
    rw [hpassOn] at hk
    cases hk
    exact hremaining.symm.trans (Stream.remaining_of_read_none ht.chunk_pos hend)
  read_works h := by
    obtain ⟨got, _, u, -, -, -, hcall, -⟩ := h.exists_read
    exact ⟨got, ⟨u, #[]⟩, hcall⟩
  write_works b h := by
    obtain ⟨l, hcall, -⟩ := h.exists_write b
    exact ⟨l, hcall⟩
  flush_works h := by
    obtain ⟨l, hcall, -⟩ := h.exists_flush
    exact ⟨l, hcall⟩

/-- **When the console is given up, the sink has taken all that was written.** -/
theorem Reliable.accepted_drop (h : k.Reliable) :
    k.drop.sink.accepted.toList = Console.written k := by
  obtain ⟨t, hcall, -⟩ := h.exists_passOn
  obtain ⟨_, _, hk, -, hwritten, -⟩ := k.passOn_cases
  rw [hcall] at hk
  cases hk
  rw [drop, hcall]
  exact (List.append_nil _).symm.trans hwritten

end Buffered

end RegisterMachine
