import RegisterMachine.Proofs.Paths
import RegisterMachine.Proofs.Streams
import RegisterMachine.Session.Command

/-!
# Nothing is held back while a program waits

A stream asks its source for more only when it has nothing left to hand out, and a
program that is made to wait there should not have its user wait for a prompt that is
still with the sink. So **a request follows a flush that worked, with nothing between the
two**, however the session got that far: through steps, through runs, through uses of the
console from outside, over sources and sinks that refuse. And a run does not return before
it has tried to flush, after everything else it did (`Session.flushes_before_requests`).

All of this is said of `Stream.events`. That a record has it is kept by each of the three
calls of a stream, and what the calls of a console keep every command keeps
(`Session.ComesTo.keeps`), since a command does nothing to a console but call it.

To speak of bytes instead of events, `Event.taken` and `Event.shown` read off a record
which bytes the sink took, and which of them it had to pass on so far.
-/

namespace RegisterMachine

/-! ## What calls of a console keep -/

section

variable {κ : Type} [Console κ] {P : κ → Prop}

/-- **The calls of a console keep this**, those that fail as well. -/
structure Console.Kept (P : κ → Prop) : Prop where
  read : ∀ {k : κ}, P k → P (Console.read k).2
  write : ∀ {k : κ} (b : Byte), P k → P (Console.write b k).2
  flush : ∀ {k : κ}, P k → P (Console.flush k).2

namespace Session

variable {s t : Session κ}

/-- A move that writes leaves the console as the write does. -/
theorem console_make_write (s : Session κ) (b : Byte) (after : Machine) :
    (s.make (.write b after)).2.console = (Console.write b s.console).2 := by
  rcases hwrite : Console.write b s.console with ⟨message | _, k⟩
  · rw [make_write_error hwrite]
  · rw [make_write_ok hwrite]

/-- A move that reads leaves the console as the read does. -/
theorem console_make_read (s : Session κ) (after : Byte → Machine) :
    (s.make (.read after)).2.console = (Console.read s.console).2 := by
  rcases hread : Console.read s.console with ⟨message | _ | b, k⟩
  · rw [make_read_error hread]
  · rw [make_read_none hread]
  · rw [make_read_some hread]

/-- What calls keep a step keeps: it makes one call at most. -/
theorem keeps_step (hP : Console.Kept P) (h : P s.console) : P s.step.2.console := by
  rw [step_eq_make]
  cases s.machine.move with
  | quiet status after => exact h
  | write b after =>
    rw [console_make_write]
    exact hP.write b h
  | read after =>
    rw [console_make_read]
    exact hP.read h

/-- So do the steps of a run. -/
theorem keeps_loop {limit : Option UInt64} {fuel : Nat} {e : Ending} (hP : Console.Kept P)
    (hloop : s.loop? limit fuel = some (e, t)) (h : P s.console) : P t.console :=
  keeps_of_loop? (P := fun u => P u.console) (fun _ hu => keeps_step hP hu) hloop h

/-- And so does the flush after them. -/
theorem keeps_run {limit : Option UInt64} {fuel : Nat} {e : Ending} (hP : Console.Kept P)
    (hrun : s.run? limit fuel = some (e, t)) (h : P s.console) : P t.console :=
  keeps_of_run? (P := fun u => P u.console) (fun _ hu => keeps_step hP hu)
    (fun _ hu => hP.flush hu) hrun h

/-- **What calls keep every command keeps.** -/
theorem keeps_perform {fuel : Nat} {c : Command} {reply : Reply} (hP : Console.Kept P)
    (hperform : s.perform? fuel c = some (reply, t)) (h : P s.console) : P t.console := by
  cases c with
  | step =>
    cases hperform
    exact keeps_step hP h
  | run limit =>
    obtain ⟨⟨e, u⟩, hrun, hreply⟩ := Option.map_eq_some_iff.mp hperform
    obtain rfl : u = t := congrArg Prod.snd hreply
    exact keeps_run hP hrun h
  | read =>
    have hkept := hP.read h
    simp only [perform?] at hperform
    rcases hread : Console.read s.console with ⟨message | got, k⟩ <;>
      rw [hread] at hperform hkept <;> cases hperform <;> exact hkept
  | write b =>
    cases hperform
    exact hP.write b h
  | flush =>
    cases hperform
    exact hP.flush h
  | _ =>
    cases hperform
    exact h

/-- **What a session comes to**: the sessions it can be after any number of commands. A run
that does not end is no command that was carried out, but each of its steps is one. -/
def ComesTo : Session κ → Session κ → Prop :=
  Relation.ReflTransGen fun s t => ∃ fuel c reply, s.perform? fuel c = some (reply, t)

/-- One more step is one more command. -/
theorem ComesTo.step (h : s.ComesTo t) : s.ComesTo t.step.2 :=
  h.tail ⟨0, .step, .status t.step.1, rfl⟩

/-- **What calls keep is never lost.** -/
theorem ComesTo.keeps (h : s.ComesTo t) (hP : Console.Kept P) (hs : P s.console) :
    P t.console := by
  induction h with
  | refl => exact hs
  | tail _ hlast ih =>
    obtain ⟨fuel, c, reply, hperform⟩ := hlast
    exact keeps_perform hP hperform ih

end Session

end

/-! ## Reading a record -/

namespace Event

/-- Whether the source was asked for something, with or without success. -/
def isRequest : Event → Bool
  | .delivered _ | .readRefused => true
  | .accepted _ | .writeRefused | .flushed | .flushRefused => false

/-- **The bytes the sink took**, in the order it took them. -/
def taken : List Event → List Byte
  | [] => []
  | .accepted b :: earlier => taken earlier ++ [b]
  | _ :: earlier => taken earlier

/-- **The bytes it had to pass on so far**: those it had taken when it was last flushed. -/
def shown : List Event → List Byte
  | [] => []
  | .flushed :: earlier => taken earlier
  | _ :: earlier => shown earlier

/-- **Every request follows a flush that worked**, in a record that has the latest
first. -/
def FlushedFirst (events : List Event) : Prop :=
  ∀ later e earlier, events = later ++ e :: earlier → e.isRequest = true →
    ∃ before, earlier = .flushed :: before

variable {events : List Event}

theorem flushedFirst_nil : FlushedFirst [] := by
  intro later e earlier hevents
  exact absurd hevents.symm (by simp)

/-- With one more event, it is that event that may be a request. -/
theorem FlushedFirst.cons {e : Event} (h : FlushedFirst events)
    (hnew : e.isRequest = true → ∃ before, events = .flushed :: before) :
    FlushedFirst (e :: events) := by
  intro later found earlier hevents hrequest
  cases later with
  | nil =>
    obtain ⟨rfl, rfl⟩ := List.cons.inj hevents
    exact hnew hrequest
  | cons first later =>
    obtain ⟨-, hrest⟩ := List.cons.inj hevents
    exact h later found earlier hrest hrequest

/-- An event that is no request changes nothing. -/
theorem FlushedFirst.cons_of_not_request {e : Event} (h : FlushedFirst events)
    (he : e.isRequest = false) : FlushedFirst (e :: events) :=
  h.cons fun hrequest => absurd hrequest (by rw [he]; exact Bool.false_ne_true)

/-- After a flush that worked everything was passed on. -/
theorem shown_of_flushed (before : List Event) :
    shown (.flushed :: before) = taken (.flushed :: before) :=
  rfl

end Event

/-! ## What the calls of a stream record -/

namespace Stream

/-- **A flush is recorded**, as what it was. -/
theorem events_flush (s : Stream) :
    ∃ last, s.flush.2.events = last :: s.events
      ∧ (last = .flushed ∧ s.flush.1 = .ok ()
        ∨ last = .flushRefused ∧ ∃ message, s.flush.1 = .error message) := by
  unfold flush
  cases Refusal.met? s.sink.flushRefusal (s.sink.flushes + 1) s.events with
  | none => exact ⟨.flushed, rfl, .inl ⟨rfl, rfl⟩⟩
  | some message => exact ⟨.flushRefused, rfl, .inr ⟨rfl, message, rfl⟩⟩

/-- Filling the buffer is a request, or nothing at all. -/
theorem events_fill (s : Stream) :
    s.fill.2.events = s.events
      ∨ ∃ e, e.isRequest = true ∧ Event.taken (e :: s.events) = Event.taken s.events
        ∧ s.fill.2.events = e :: s.events := by
  rcases s.fill_cases with ⟨-, hfill⟩ | ⟨-, ⟨_, -, hfill⟩ | ⟨-, hfill⟩⟩ <;> rw [hfill]
  · exact .inl rfl
  · exact .inr ⟨_, rfl, rfl, rfl⟩
  · exact .inr ⟨_, rfl, rfl, rfl⟩

/-- **A read records a flush, and at most one request right after it.** -/
theorem events_read (s : Stream) :
    s.read.2.events = s.flush.2.events
      ∨ s.flush.2.events = .flushed :: s.events ∧ ∃ e, e.isRequest = true
        ∧ Event.taken (e :: s.flush.2.events) = Event.taken s.flush.2.events
        ∧ s.read.2.events = e :: s.flush.2.events := by
  obtain ⟨last, hlast, hanswer⟩ := s.events_flush
  have hfill := s.flush.2.events_fill
  rcases s.read_cases with ⟨_, -, hread⟩ | ⟨hworks, hrest⟩
  · rw [hread]
    exact .inl rfl
  · -- a flush that worked was recorded as one that did
    have hflushed : s.flush.2.events = .flushed :: s.events := by
      rcases hanswer with ⟨rfl, -⟩ | ⟨-, message, hfailed⟩
      · exact hlast
      · rw [hworks] at hfailed
        cases hfailed
    rcases hrest with ⟨_, -, hread⟩ | ⟨-, hread⟩ <;>
    · rw [hread]
      exact hfill.imp_right fun hrequest => ⟨hflushed, hrequest⟩

/-- **The record is right and complete**: requests follow flushes that worked, and the
bytes in it are those the sink took. -/
structure Prompt (s : Stream) : Prop where
  flushed_first : Event.FlushedFirst s.events
  taken_eq : Event.taken s.events = s.sink.accepted.toList

theorem prompt_fresh (input : List Byte) (chunk : Nat) (faults : Faults) :
    (fresh input chunk faults).Prompt :=
  ⟨Event.flushedFirst_nil, rfl⟩

theorem Prompt.flush {s : Stream} (h : s.Prompt) : s.flush.2.Prompt := by
  obtain ⟨last, hevents, hlast⟩ := s.events_flush
  refine ⟨?_, ?_⟩ <;> rw [hevents]
  · rcases hlast with ⟨rfl, -⟩ | ⟨rfl, -⟩ <;> exact h.flushed_first.cons_of_not_request rfl
  · rw [s.accepted_flush]
    rcases hlast with ⟨rfl, -⟩ | ⟨rfl, -⟩ <;> exact h.taken_eq

theorem Prompt.write {s : Stream} (h : s.Prompt) (b : Byte) : (s.write b).2.Prompt := by
  unfold Stream.write
  cases Refusal.met? s.sink.writeRefusal s.sink.accepted.size s.events with
  | some message => exact ⟨h.flushed_first.cons_of_not_request rfl, h.taken_eq⟩
  | none =>
    refine ⟨h.flushed_first.cons_of_not_request rfl, ?_⟩
    show Event.taken s.events ++ [b] = (s.sink.accepted.push b).toList
    rw [h.taken_eq, Array.toList_push]

theorem Prompt.read {s : Stream} (h : s.Prompt) : s.read.2.Prompt := by
  have hflush := h.flush
  have hsink : s.read.2.sink.accepted = s.flush.2.sink.accepted :=
    s.accepted_read.trans s.accepted_flush.symm
  rcases s.events_read with hevents | ⟨hflushed, e, -, htaken, hevents⟩
  · refine ⟨?_, ?_⟩ <;> rw [hevents]
    · exact hflush.flushed_first
    · rw [hsink]
      exact hflush.taken_eq
  · refine ⟨?_, ?_⟩ <;> rw [hevents]
    · exact hflush.flushed_first.cons fun _ => ⟨s.events, hflushed⟩
    · rw [htaken, hsink]
      exact hflush.taken_eq

/-- Settings are kept. -/
theorem kept_settings (s : Stream) : Console.Kept fun t : Stream => t.settings = s.settings where
  read {t} h := t.settings_read.trans h
  write {t} b h := (t.settings_write b).trans h
  flush {t} h := t.settings_flush.trans h

/-- A record stays right. -/
theorem kept_prompt : Console.Kept Prompt where
  read h := h.read
  write b h := h.write b
  flush h := h.flush

/-- **A record only grows.** -/
theorem kept_suffix (events : List Event) :
    Console.Kept fun s : Stream => events <:+ s.events := by
  have hflush : ∀ {s : Stream}, events <:+ s.events → events <:+ s.flush.2.events := by
    intro s h
    obtain ⟨last, hevents, -⟩ := s.events_flush
    rw [hevents]
    exact h.trans (List.suffix_cons _ _)
  refine ⟨fun {s} h => ?_, fun {s} b h => ?_, hflush⟩
  · show events <:+ s.read.2.events
    rcases s.events_read with hevents | ⟨-, e, -, -, hevents⟩ <;> rw [hevents]
    · exact hflush h
    · exact (hflush h).trans (List.suffix_cons _ _)
  · show events <:+ (s.write b).2.events
    unfold write
    cases Refusal.met? s.sink.writeRefusal s.sink.accepted.size s.events with
    | some message => exact h.trans (List.suffix_cons _ _)
    | none => exact h.trans (List.suffix_cons _ _)

end Stream

namespace Session

/-- What a run records at its end is a flush, and one that worked if it returns an
outcome. -/
theorem events_close {e e' : Ending} {s t : Session Stream} (h : s.close e = (e', t)) :
    ∃ last, t.console.events = last :: s.console.events
      ∧ (last = .flushed ∨ last = .flushRefused)
      ∧ ∀ outcome, e' = .finished outcome → last = .flushed := by
  obtain ⟨last, hevents, hlast⟩ := s.console.events_flush
  obtain rfl : (s.close e).2 = t := congrArg Prod.snd h
  refine ⟨last, hevents, hlast.imp And.left And.left, fun outcome houtcome => ?_⟩
  rcases hlast with ⟨rfl, -⟩ | ⟨-, message, hrefused⟩
  · rfl
  · -- a flush that is refused leaves no outcome
    have hending : closeEnding e s.console.flush.1 = e' := congrArg Prod.fst h
    rw [houtcome, hrefused] at hending
    cases e <;> cases hending

/-- **Nothing is held back while a program waits, nor when a run has ended well.** Whatever
is done with a machine and a fresh stream, every request in the record follows a flush that
worked, with nothing in between, and all bytes taken until then were passed on. A run
records what its steps ask for, and then a flush, as its last event and however it ended;
that flush worked if the run returns an outcome, and all output was passed on then. -/
theorem flushes_before_requests (m : Machine) (input : List Byte) (chunk : Nat)
    (faults : Stream.Faults) (t : Session Stream)
    (h : (⟨m, .fresh input chunk faults⟩ : Session Stream).ComesTo t) :
    (∀ later e earlier, t.console.events = later ++ e :: earlier → e.isRequest = true →
        (∃ before, earlier = .flushed :: before) ∧ Event.shown earlier = Event.taken earlier)
      ∧ Event.taken t.console.events = Console.written t.console
      ∧ ∀ limit fuel e u, t.run? limit fuel = some (e, u) →
          ∃ e₀ v last, t.loop? limit fuel = some (e₀, v)
            ∧ t.console.events <:+ v.console.events
            ∧ u.console.events = last :: v.console.events
            ∧ (last = .flushed ∨ last = .flushRefused)
            ∧ ∀ outcome, e = .finished outcome →
                last = .flushed ∧ Event.shown u.console.events = Console.written u.console := by
  have hprompt : t.console.Prompt :=
    h.keeps Stream.kept_prompt (Stream.prompt_fresh input chunk faults)
  refine ⟨fun later e earlier hevents hrequest => ?_, hprompt.taken_eq, ?_⟩
  · obtain ⟨before, rfl⟩ := hprompt.flushed_first later e earlier hevents hrequest
    exact ⟨⟨before, rfl⟩, Event.shown_of_flushed before⟩
  · intro limit fuel e u hrun
    obtain ⟨e₀, v, hloop, hclose⟩ := exists_loop_of_run? hrun
    obtain ⟨last, hevents, hlast, hgood⟩ := events_close hclose
    refine ⟨e₀, v, last, hloop, ?_, hevents, hlast, fun outcome houtcome => ?_⟩
    · exact keeps_loop (Stream.kept_suffix _) hloop List.suffix_rfl
    obtain rfl := hgood outcome houtcome
    have hend : u.console.Prompt := keeps_run Stream.kept_prompt hrun hprompt
    refine ⟨rfl, ?_⟩
    rw [hevents, Event.shown_of_flushed, ← hevents]
    exact hend.taken_eq

/-- A program that asks and waits: the question is with its reader before the answer is
asked for, and all of the output is when the run returns. -/
theorem flushes_before_requests_question :
    let program := ((((Memory.empty.set 0 19).set 1 63).set 2 20).set 3 32768).set 4 0
    let s : Session Stream := ⟨.ofMemory program, .fresh [121] 4 {}⟩
    ∃ u, s.run? none 3 = some (.finished .halted, u)
      ∧ u.console.events = [.flushed, .delivered 1, .flushed, .accepted 63]
      ∧ Event.shown [.flushed, .accepted 63] = Event.taken [.flushed, .accepted 63]
      ∧ Event.shown u.console.events = Console.written u.console := by
  intro program s
  obtain ⟨⟨e, u⟩, hrun⟩ : ∃ r, s.run? none 3 = some r :=
    Option.isSome_iff_exists.mp (by decide)
  have hfound : (s.run? none 3).map (fun r => (r.1, r.2.console.events))
      = some (.finished .halted, [.flushed, .delivered 1, .flushed, .accepted 63]) := by decide
  rw [hrun] at hfound
  obtain ⟨rfl, hevents⟩ := Prod.mk.inj (Option.some.inj hfound)
  have hcomes : s.ComesTo u := .single ⟨3, .run none, .ending _, by rw [perform?, hrun]; rfl⟩
  have hrequests := (flushes_before_requests (.ofMemory program) [121] 4 {} u hcomes).1
  obtain ⟨-, -, hruns⟩ := flushes_before_requests (.ofMemory program) [121] 4 {} s .refl
  obtain ⟨_, _, _, -, -, -, -, hgood⟩ := hruns none 3 _ u hrun
  exact ⟨u, hrun, hevents, (hrequests [.flushed] _ _ hevents rfl).2, (hgood .halted rfl).2⟩

end Session

end RegisterMachine
