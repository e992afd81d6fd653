import RegisterMachine.Proofs.Watching

/-!
# No byte is lost, repeated or put in another place

Between the source of a stream and the program there is a buffer, and a read can fail before
it gets to the buffer, or while the buffer is filled. Each time the next byte has to be the
one after the last that was returned. **What reads have returned is always the front of the
input** (`Session.bytes_delivered_once`), over every way to chunk it and to refuse, and
whatever is done with the session in between. The invariant has two parts. The laws of a
console, entered call by call, say that what was returned and what remains is the input; and
the position of the source is where its bytes begin that were not delivered yet
(`Stream.Tallied`), so that the buffer is what lies between.

The source is asked for more only by a read, at most once, and only when everything that it
delivered was returned (`Stream.requests_read`).
-/

namespace RegisterMachine

namespace Stream

variable {s : Stream} {message : String}

/-! ## What the calls do to the input -/

/-- A flush leaves the input alone. -/
theorem input_flush (s : Stream) : s.flush.2.source = s.source ∧ s.flush.2.buffer = s.buffer := by
  unfold flush
  cases Refusal.met? s.sink.flushRefusal (s.sink.flushes + 1) s.events <;> exact ⟨rfl, rfl⟩

/-- So does a write. -/
theorem input_write (s : Stream) (b : Byte) :
    (s.write b).2.source = s.source ∧ (s.write b).2.buffer = s.buffer := by
  unfold write
  cases Refusal.met? s.sink.writeRefusal s.sink.accepted.size s.events <;> exact ⟨rfl, rfl⟩

/-- **A read that fails consumes nothing.** -/
theorem input_read_error (h : s.read.1 = .error message) :
    s.read.2.source = s.source ∧ s.read.2.buffer = s.buffer := by
  obtain ⟨hsource, hbuffer⟩ := s.input_flush
  rcases s.read_cases with ⟨_, -, hread⟩ | ⟨-, ⟨_, hfill, hread⟩ | ⟨-, hread⟩⟩ <;> rw [hread] at h ⊢
  · exact ⟨hsource, hbuffer⟩
  · rcases s.flush.2.fill_cases with ⟨-, hfill'⟩ | ⟨-, ⟨_, -, hfill'⟩ | ⟨-, hfill'⟩⟩ <;>
      rw [hfill'] at hfill ⊢
    · exact ⟨hsource, hbuffer⟩
    · exact ⟨hsource, hbuffer⟩
    · cases hfill
  · cases h

/-! ## Requests -/

/-- How often the source was asked for something, with or without success. -/
def requests (s : Stream) : Nat := s.events.countP Event.isRequest

theorem requests_flush (s : Stream) : s.flush.2.requests = s.requests := by
  unfold flush
  cases Refusal.met? s.sink.flushRefusal (s.sink.flushes + 1) s.events <;> rfl

theorem requests_write (s : Stream) (b : Byte) : (s.write b).2.requests = s.requests := by
  unfold write
  cases Refusal.met? s.sink.writeRefusal s.sink.accepted.size s.events <;> rfl

/-- Filling the buffer is one request if it is empty. -/
theorem requests_fill (s : Stream) :
    s.fill.2.requests = s.requests + if s.buffer = [] then 1 else 0 := by
  rcases s.fill_cases with ⟨hbuffer, hfill⟩ | ⟨hbuffer, ⟨_, -, hfill⟩ | ⟨-, hfill⟩⟩ <;> rw [hfill]
  · rw [if_neg hbuffer]
    rfl
  · rw [if_pos hbuffer]
    exact List.countP_cons_of_pos rfl
  · rw [if_pos hbuffer]
    exact List.countP_cons_of_pos rfl

/-- **A read is one request if its flush works and nothing is left in the buffer**, and none
otherwise. -/
theorem requests_read (s : Stream) :
    s.read.2.requests
      = s.requests + if s.flush.1.isOk ∧ s.buffer = [] then 1 else 0 := by
  have hfill := s.flush.2.requests_fill
  rw [s.requests_flush, s.input_flush.2] at hfill
  rcases s.read_cases with ⟨_, hflush, hread⟩ | ⟨hflush, ⟨_, -, hread⟩ | ⟨-, hread⟩⟩ <;>
    rw [hread, hflush]
  · rw [if_neg (fun h => Bool.false_ne_true h.1)]
    exact s.requests_flush
  · simpa only [Except.isOk, Except.toBool, true_and] using hfill
  · simp only [Except.isOk, Except.toBool, true_and]
    exact hfill

/-! ## The tally of the source -/

/-- **The position of the source is how far it got** in an input of this length, and no more
than a chunk is in the buffer. -/
structure Tallied (length : Nat) (s : Stream) : Prop where
  position_add : s.source.position + s.source.pending.length = length
  buffer_le : s.buffer.length ≤ s.source.chunk

variable {length : Nat}

theorem tallied_fresh (input : List Byte) (chunk : Nat) (faults : Faults) :
    (fresh input chunk faults).Tallied input.length :=
  ⟨Nat.zero_add _, Nat.zero_le _⟩

/-- It depends on the input only. -/
theorem Tallied.of_input {t : Stream} (h : s.Tallied length)
    (hinput : t.source = s.source ∧ t.buffer = s.buffer) : t.Tallied length := by
  refine ⟨?_, ?_⟩ <;> rw [hinput.1]
  · exact h.position_add
  · rw [hinput.2]
    exact h.buffer_le

theorem Tallied.fill (h : s.Tallied length) : s.fill.2.Tallied length := by
  rcases s.fill_cases with ⟨-, hfill⟩ | ⟨-, ⟨_, -, hfill⟩ | ⟨-, hfill⟩⟩ <;> rw [hfill]
  · exact h
  · exact h.of_input ⟨rfl, rfl⟩
  · have hposition := h.position_add
    have hreach := s.source.reach_le
    refine ⟨?_, ?_⟩
    · show s.source.position + min s.source.reach s.source.pending.length
        + (s.source.pending.drop s.source.reach).length = length
      rw [List.length_drop]
      omega
    · show (s.source.pending.take s.source.reach).length ≤ s.source.chunk
      rw [List.length_take]
      omega

theorem Tallied.read (h : s.Tallied length) : s.read.2.Tallied length := by
  have hflush : s.flush.2.Tallied length := h.of_input s.input_flush
  rcases s.read_cases with ⟨_, -, hread⟩ | ⟨-, ⟨_, -, hread⟩ | ⟨-, hread⟩⟩ <;> rw [hread]
  · exact hflush
  · exact hflush.fill
  · refine ⟨hflush.fill.position_add, Nat.le_trans ?_ hflush.fill.buffer_le⟩
    rw [List.length_tail]
    exact Nat.sub_le _ _

theorem kept_tallied (length : Nat) : Console.Kept fun s : Stream => s.Tallied length where
  read h := h.read
  write {s} b h := h.of_input (s.input_write b)
  flush {s} h := h.of_input s.input_flush

end Stream

/-- The source is asked at most once for each read. -/
theorem Watched.kept_requests :
    Console.Kept fun w : Watched Stream => w.console.requests ≤ Call.reads w.calls where
  read {w} h := by
    have hrequests := w.console.requests_read
    show w.console.read.2.requests ≤ Call.reads w.calls + 1
    split at hrequests <;> omega
  write {w} b h := Nat.le_trans (Nat.le_of_eq (w.console.requests_write b)) h
  flush {w} h := Nat.le_trans (Nat.le_of_eq w.console.requests_flush) h

namespace Session

/-- **No byte is lost, repeated or put in another place.** Watch a machine over a fresh
stream, with any input, any chunks and any refusals: what it comes to is what it comes to
unwatched. After any number of steps, runs and uses of the console,

* what reads have returned so far is the front of the input;
* the source stands behind these bytes and the buffered ones, which are at most a chunk;
* the sink accepted the bytes of the writes that worked, in their order, and nothing else;
* the source was asked at most once for each read, and a read asks it now exactly if the
  flush before works and all that was delivered was returned; writes and flushes do not ask;
* if a read returns a byte now, it is the next byte of the input; if it returns the end of
  the input, all of it was returned before, as long as a request asks for anything at all;
  and if it fails, source and buffer are as they were, and all the rest of the input is still
  to come. -/
theorem bytes_delivered_once (m : Machine) (input : List Byte) (chunk : Nat)
    (faults : Stream.Faults) (t : Session (Watched Stream))
    (h : (⟨m, .watch (.fresh input chunk faults)⟩ : Session (Watched Stream)).ComesTo t) :
    let stream := t.console.console
    let returned := Call.returned t.console.calls
    (∀ u, (⟨m, .fresh input chunk faults⟩ : Session Stream).ComesTo u
        ↔ ∃ t', (⟨m, .watch (.fresh input chunk faults)⟩ : Session (Watched Stream)).ComesTo t'
            ∧ t'.unwatched = u)
      ∧ returned = input.take returned.length
      ∧ stream.source.position = returned.length + stream.buffer.length
      ∧ stream.buffer.length ≤ chunk
      ∧ stream.sink.accepted.toList = Call.passedOn t.console.calls
      ∧ stream.requests ≤ Call.reads t.console.calls
      ∧ stream.read.2.requests = stream.requests
          + (if stream.flush.1.isOk ∧ stream.source.position = returned.length then 1 else 0)
      ∧ (∀ b, (stream.write b).2.requests = stream.requests)
      ∧ stream.flush.2.requests = stream.requests
      ∧ (∀ b, stream.read.1 = .ok (some b) → input[returned.length]? = some b)
      ∧ (0 < chunk → stream.read.1 = .ok none → returned = input)
      ∧ ∀ message, stream.read.1 = .error message →
          stream.read.2.source = stream.source ∧ stream.read.2.buffer = stream.buffer
            ∧ stream.read.2.remaining = input.drop returned.length := by
  intro stream returned
  have haccounted : t.console.Accounted input :=
    h.keeps (Watched.kept_accounted input)
      (Watched.accounted_watch (k := Stream.fresh input chunk faults) rfl)
  have htallied : stream.Tallied input.length :=
    h.keeps (Watched.kept_console (Stream.kept_tallied input.length))
      (Stream.tallied_fresh input chunk faults)
  have hsettings : stream.settings = (Stream.fresh input chunk faults).settings :=
    h.keeps (Watched.kept_console (Stream.kept_settings (.fresh input chunk faults))) rfl
  have hchunk : stream.source.chunk = chunk := congrArg Prod.fst hsettings
  have hrequests : stream.requests ≤ Call.reads t.console.calls :=
    h.keeps Watched.kept_requests (Nat.zero_le _)
  have hinput : input = returned ++ stream.remaining := haccounted.input_eq
  have hposition : stream.source.position = returned.length + stream.buffer.length := by
    have hlength := congrArg List.length hinput
    have htally := htallied.position_add
    simp only [Stream.remaining, List.length_append] at hlength
    omega
  -- the buffer is empty exactly if the source stands where the reads do
  have hempty : stream.buffer = [] ↔ stream.source.position = returned.length := by
    rw [hposition, ← List.length_eq_zero_iff]
    omega
  refine ⟨fun u => comesTo_unwatched_iff (s := ⟨m, .watch (Stream.fresh input chunk faults)⟩), ?_,
    hposition, ?_, haccounted.output_eq, hrequests, ?_, stream.requests_write,
    stream.requests_flush, fun b hb => ?_, fun hpos hend => ?_, fun message hfailed => ?_⟩
  · rw [hinput, List.take_left]
  · rw [← hchunk]
    exact htallied.buffer_le
  · simp only [← hempty]
    exact stream.requests_read
  · have hnext := stream.remaining_read
    rw [hb] at hnext
    rw [hinput, hnext, List.getElem?_append_right (Nat.le_refl _), Nat.sub_self]
    rfl
  · have hread : stream.read = (.ok none, stream.read.2) := Prod.ext hend rfl
    rw [hinput, Stream.remaining_of_read_none (hchunk ▸ hpos) hread, List.append_nil]
  · obtain ⟨hsource, hbuffer⟩ := Stream.input_read_error hfailed
    refine ⟨hsource, hbuffer, ?_⟩
    rw [hinput, List.drop_left, Stream.remaining, hsource, hbuffer]
    rfl

/-- The second and the third flush are refused, and with the second flush the second of two
`in`s: the byte it would have read is still to come, also after one more read that fails, and
a read after that returns it. -/
theorem bytes_delivered_once_refused :
    let program := (((Memory.empty.set 0 20).set 1 32768).set 2 20).set 3 32768
    let busy : Refusal := { message? := fun n _ => if n = 2 ∨ n = 3 then some "busy" else none }
    let s : Session (Watched Stream) :=
      ⟨.ofMemory program, .watch (.fresh [72, 105] 1 { flush := some busy })⟩
    let t := s.step.2.step.2
    s.ComesTo t ∧ Call.returned t.console.calls = [72] ∧ Call.reads t.console.calls = 2
      ∧ t.console.console.source.position = 1 ∧ t.console.console.read.1.isOk = false
      ∧ t.console.console.read.2.remaining = [105]
      ∧ t.console.console.read.2.read.1.toOption = some (some 105) := by
  intro program busy s t
  have hcomes : s.ComesTo t := ComesTo.step (ComesTo.step .refl)
  obtain ⟨-, -, hposition, -, -, -, -, -, -, -, -, hfailed⟩ :=
    bytes_delivered_once (.ofMemory program) [72, 105] 1 { flush := some busy } t hcomes
  obtain ⟨hreturned, hreads, hbuffer, hrefused, hrecovers⟩ :
      Call.returned t.console.calls = [72] ∧ Call.reads t.console.calls = 2
        ∧ t.console.console.buffer = [] ∧ t.console.console.read.1.isOk = false
        ∧ t.console.console.read.2.read.1.toOption = some (some 105) := by
    decide +kernel
  rw [hreturned, hbuffer] at hposition
  refine ⟨hcomes, hreturned, hreads, hposition, hrefused, ?_, hrecovers⟩
  cases hread : t.console.console.read.1 with
  | ok got =>
    rw [hread] at hrefused
    cases hrefused
  | error message =>
    obtain ⟨-, -, hremaining⟩ := hfailed message hread
    rw [hremaining, hreturned]
    rfl

end Session

end RegisterMachine
