import RegisterMachine.Proofs.Streams
import RegisterMachine.Session.Command

/-!
# A stream is as good as a buffer

A console in memory keeps its input in one list. A stream has it in two places,
some delivered already and the rest with its source, asks for more only when it
has run out, and asks once more each time it is read at the end of the input.
None of that can be seen from outside. Whatever is done to the machine and to
the console, one command after the other, **a stream that never fails shows what
a console in memory shows**, and the number of bytes it asks for at a time
shows nowhere (`Session.observations_fresh`).

The invariant is `Session.Alike`: the machines are equal, and what is left over
together with what the source still has is what the other console still has.
Steps keep it by what is known of steps, runs by what is known of runs, and the
commands that use the console directly by the laws of consoles.
-/

namespace RegisterMachine

/-- **What is seen after a command**: what it gave back, the machine, all output
so far, and all input that no read has returned yet. -/
structure Observation where
  reply : Reply
  machine : Machine
  written : List Byte
  remaining : List Byte

namespace Session

variable {κ κ' : Type} [Console.Accountable κ] [Console.Accountable κ']

/-- **What is seen of a session that is given these commands**, one after the
other. A run that does not end within `fuel` steps is the end of it. -/
def observations (fuel : Nat) (s : Session κ) : List Command → List Observation
  | [] => []
  | c :: rest =>
    match s.perform? fuel c with
    | none => []
    | some (reply, t) =>
      { reply, machine := t.machine, written := Console.written t.console,
        remaining := Console.remaining t.console } :: t.observations fuel rest

namespace Alike

variable {P : κ → Prop} {Q : κ' → Prop} {s : Session κ} {t : Session κ'}

/-- Where no call fails, sessions that are alike run alike to the end. -/
theorem loop_agree (h : Alike P Q s t) (hP : Console.Unfailing P) (hQ : Console.Unfailing Q)
    (limit : Option UInt64) (fuel : Nat) :
    Execution.Agree (Alike P Q) (s.loop? limit fuel) (t.loop? limit fuel) := by
  rcases h.loop hP.toHonest hQ limit fuel with ⟨n, u, v, -, -, -, huv, -, hfails⟩ | hrel
  · exact absurd hfails (not_consoleFails hP huv.left)
  · exact hrel

/-- Flushing two consoles that look alike and cannot fail does not tell them
apart. -/
theorem flush (h : Alike P Q s t) (hP : Console.Unfailing P) (hQ : Console.Unfailing Q) :
    (Console.flush s.console).1 = (Console.flush t.console).1
      ∧ Alike P Q { s with console := (Console.flush s.console).2 }
          { t with console := (Console.flush t.console).2 } := by
  have hviews := h.views.flush
  obtain ⟨k, hk⟩ := hP.flush_works h.left
  obtain ⟨l, hl⟩ := hQ.flush_works h.right
  rw [hk, hl] at hviews ⊢
  exact ⟨rfl, h.machine, hviews, hP.flush h.left hk, hQ.flush h.right hl⟩

/-- Sessions that are alike end a run alike. -/
theorem run_agree (h : Alike P Q s t) (hP : Console.Unfailing P) (hQ : Console.Unfailing Q)
    (limit : Option UInt64) (fuel : Nat) :
    Execution.Agree (Alike P Q) (s.run? limit fuel) (t.run? limit fuel) := by
  refine (h.loop_agree hP hQ limit fuel).map fun {e u v} huv => ?_
  obtain ⟨hanswer, halike⟩ := huv.flush hP hQ
  exact ⟨congrArg (closeEnding e) hanswer, halike⟩

/-- **A command does the same to sessions that are alike.** -/
theorem perform (h : Alike P Q s t) (hP : Console.Unfailing P) (hQ : Console.Unfailing Q)
    (fuel : Nat) (c : Command) :
    Execution.Agree (Alike P Q) (s.perform? fuel c) (t.perform? fuel c) := by
  obtain ⟨m, k⟩ := s
  obtain ⟨m', l⟩ := t
  obtain rfl : m = m' := h.machine
  -- only a step, a run and a use of the console can tell the two apart
  cases c with
  | step =>
    rcases h.step hP.toHonest hQ with hfails | ⟨hstatus, hnext⟩
    · exact absurd hfails (not_consoleFails hP h.left)
    · exact .some ⟨congrArg Reply.status hstatus, hnext⟩
  | run limit =>
    refine (h.run_agree hP hQ limit fuel).map fun {e u v} huv => ?_
    exact ⟨rfl, huv⟩
  | read =>
    obtain ⟨got, k', hk⟩ := hP.read_works h.left
    obtain ⟨got', l', hl⟩ := hQ.read_works h.right
    obtain ⟨rfl, hviews⟩ := h.views.read hP.toHonest hQ.toHonest h.left h.right hk hl
    simp only [perform?, hk, hl]
    exact .some ⟨rfl, rfl, hviews, hP.read h.left hk, hQ.read h.right hl⟩
  | write b =>
    obtain ⟨k', hk⟩ := hP.write_works b h.left
    obtain ⟨l', hl⟩ := hQ.write_works b h.right
    simp only [perform?, hk, hl]
    exact .some ⟨rfl, rfl, h.views.write hk hl, hP.write h.left hk, hQ.write h.right hl⟩
  | flush =>
    obtain ⟨hanswer, halike⟩ := h.flush hP hQ
    exact .some ⟨congrArg replyOf hanswer, halike⟩
  | _ => exact .some ⟨rfl, rfl, h.views, h.left, h.right⟩

/-- **What is seen of sessions that are alike is the same.** -/
theorem observations_eq (h : Alike P Q s t) (hP : Console.Unfailing P)
    (hQ : Console.Unfailing Q) (fuel : Nat) (commands : List Command) :
    s.observations fuel commands = t.observations fuel commands := by
  induction commands generalizing s t with
  | nil => rfl
  | cons c rest ih =>
    have hc := h.perform hP hQ fuel c
    unfold observations
    generalize s.perform? fuel c = done at hc ⊢
    generalize t.perform? fuel c = done' at hc ⊢
    cases hc with
    | none => rfl
    | @some p q hp =>
      obtain ⟨reply, u⟩ := p
      obtain ⟨reply', v⟩ := q
      obtain ⟨rfl, huv⟩ : reply = reply' ∧ Alike P Q u v := hp
      show Observation.mk reply u.machine (Console.written u.console)
          (Console.remaining u.console) :: u.observations fuel rest
        = Observation.mk reply v.machine (Console.written v.console)
          (Console.remaining v.console) :: v.observations fuel rest
      rw [huv.machine, huv.views.written, huv.views.remaining, ih huv]

end Alike

/-- **A stream that never fails shows what a console in memory shows.** Both
start with the same machine and the same input, and after each of any commands
they have given back the same, left the same machine, written the same output
and have the same input left; how many bytes the stream asks for at a time
makes no difference. -/
theorem observations_fresh (m : Machine) (input : List Byte) (chunk : Nat) (hchunk : 0 < chunk)
    (fuel : Nat) (commands : List Command) :
    (⟨m, .fresh input chunk {}⟩ : Session Stream).observations fuel commands
        = (⟨m, .ofInput input⟩ : Session Buffer).observations fuel commands
      ∧ ∀ chunk', 0 < chunk' →
        (⟨m, .fresh input chunk {}⟩ : Session Stream).observations fuel commands
          = (⟨m, .fresh input chunk' {}⟩ : Session Stream).observations fuel commands := by
  have hbuffer : ∀ n, 0 < n →
      (⟨m, .fresh input n {}⟩ : Session Stream).observations fuel commands
        = (⟨m, .ofInput input⟩ : Session Buffer).observations fuel commands := by
    intro n hn
    have halike : Alike Stream.Reliable (fun _ : Buffer => True)
        ⟨m, .fresh input n {}⟩ ⟨m, .ofInput input⟩ :=
      ⟨rfl, ⟨rfl, rfl⟩, Stream.reliable_fresh hn input, trivial⟩
    exact halike.observations_eq Stream.unfailing Buffer.unfailing fuel commands
  refine ⟨hbuffer chunk hchunk, fun chunk' hchunk' => ?_⟩
  rw [hbuffer chunk hchunk, hbuffer chunk' hchunk']

/-- Three bytes asked for, two to be had: an `in` gets the first, the second is
read directly, and the end is reported as often as it is asked about. -/
theorem observations_fresh_three :
    let m := Machine.ofMemory ((Memory.empty.set 0 20).set 1 32768)
    let commands : List Command := [.step, .read, .read, .write 33, .read, .run none]
    ((⟨m, .fresh [72, 105] 3 {}⟩ : Session Stream).observations 2 commands).map
        (fun o => (o.reply, o.written, o.remaining))
      = [(.status .running, [], [105]), (.byte (some 105), [], []), (.byte none, [], []),
        (.done, [33], []), (.byte none, [33], []),
        (.ending (.finished .halted), [33], [])] := by
  intro m commands
  rw [(observations_fresh m [72, 105] 3 (by decide) 2 commands).1]
  decide

end Session

end RegisterMachine
