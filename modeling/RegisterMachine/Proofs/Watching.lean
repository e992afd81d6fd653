import RegisterMachine.Proofs.Flushing
import RegisterMachine.Proofs.Runs

/-!
# Watching a console

What a console was asked and what it answered is not kept anywhere: a machine goes on with
the answer, and a command that ran a program says how the program ended. `Watched` is a
console that keeps it. It does what the console it watches does and writes every call down,
so the bytes that reads have returned and writes have passed on can be read off the calls,
from outside of the machine and of the console.

**Watching changes nothing.** A step, a run or any other command over a watched console is
the one over the console itself, with the same reply (`Session.perform?_unwatched`), and so
a session comes to the same over both (`Session.comesTo_unwatched_iff`). And the laws of
consoles, which speak of one call each, make the calls an account of the whole: the input is
what was returned and what remains, and the output is what was passed on
(`Watched.Accounted`).
-/

namespace RegisterMachine

/-- **A call of a console**, with its answer. -/
inductive Call where
  /-- A byte was to be read. -/
  | read (answer : Answer (Option Byte))
  /-- This byte was to be written. -/
  | write (b : Byte) (answer : Answer Unit)
  /-- The output was to be flushed. -/
  | flush (answer : Answer Unit)

namespace Call

/-- **The bytes that reads have returned**, in order, where the calls have the latest
first. -/
def returned : List Call → List Byte
  | [] => []
  | .read answer :: earlier => returned earlier ++ answer.bytesRead
  | .write .. :: earlier | .flush _ :: earlier => returned earlier

/-- **The bytes of the writes that worked**, in order. -/
def passedOn : List Call → List Byte
  | [] => []
  | .write b answer :: earlier => passedOn earlier ++ answer.bytesWritten b
  | .read _ :: earlier | .flush _ :: earlier => passedOn earlier

/-- How many of the calls were reads, with or without success. -/
def reads : List Call → Nat
  | [] => 0
  | .read _ :: earlier => reads earlier + 1
  | .write .. :: earlier | .flush _ :: earlier => reads earlier

end Call

/-- **A console with the calls that were made to it**, the latest first. -/
structure Watched (κ : Type) where
  console : κ
  calls : List Call := []

namespace Watched

variable {κ : Type} [Console κ]

/-- A console that is watched from now on. -/
def watch (k : κ) : Watched κ := { console := k }

instance : Console (Watched κ) where
  read w :=
    let (answer, console) := Console.read w.console
    (answer, { console, calls := .read answer :: w.calls })
  write b w :=
    let (answer, console) := Console.write b w.console
    (answer, { console, calls := .write b answer :: w.calls })
  flush w :=
    let (answer, console) := Console.flush w.console
    (answer, { console, calls := .flush answer :: w.calls })

/-! A watched call is the call, with an entry in front. -/

section

variable {k : κ} {w : Watched κ}

theorem read_eq {answer : Answer (Option Byte)} (h : Console.read w.console = (answer, k)) :
    Console.read w = (answer, ⟨k, .read answer :: w.calls⟩) := by
  simp only [Console.read, h]

theorem write_eq {b : Byte} {answer : Answer Unit} (h : Console.write b w.console = (answer, k)) :
    Console.write b w = (answer, ⟨k, .write b answer :: w.calls⟩) := by
  simp only [Console.write, h]

theorem flush_eq {answer : Answer Unit} (h : Console.flush w.console = (answer, k)) :
    Console.flush w = (answer, ⟨k, .flush answer :: w.calls⟩) := by
  simp only [Console.flush, h]

end

/-- What the calls of a console keep, they keep when it is watched. -/
theorem kept_console {P : κ → Prop} (hP : Console.Kept P) :
    Console.Kept fun w : Watched κ => P w.console where
  read h := hP.read h
  write b h := hP.write b h
  flush h := hP.flush h

/-! ## The calls are an account -/

section

variable {κ : Type} [Console.Accountable κ]

/-- **The calls account for the bytes** of a console that had this input at first, and no
output. -/
structure Accounted (input : List Byte) (w : Watched κ) : Prop where
  input_eq : input = Call.returned w.calls ++ Console.remaining w.console
  output_eq : Console.written w.console = Call.passedOn w.calls

theorem accounted_watch {k : κ} (h : Console.written k = []) :
    Accounted (Console.remaining k) (watch k) :=
  ⟨rfl, h⟩

/-- Every call is entered. -/
theorem kept_accounted (input : List Byte) :
    Console.Kept fun w : Watched κ => w.Accounted input where
  read {w} h := by
    rcases hread : Console.read w.console with ⟨answer, k⟩
    rw [read_eq hread]
    refine ⟨?_, (Console.written_of_read hread).trans h.output_eq⟩
    show input = (Call.returned w.calls ++ answer.bytesRead) ++ Console.remaining k
    rw [List.append_assoc, ← Console.remaining_of_read hread]
    exact h.input_eq
  write {w} b h := by
    rcases hwrite : Console.write b w.console with ⟨answer, k⟩
    rw [write_eq hwrite]
    refine ⟨h.input_eq.trans (congrArg _ (Console.remaining_of_write hwrite).symm), ?_⟩
    show Console.written k = Call.passedOn w.calls ++ answer.bytesWritten b
    rw [← h.output_eq]
    exact Console.written_of_write hwrite
  flush {w} h := by
    rcases hflush : Console.flush w.console with ⟨answer, k⟩
    have hremaining := Console.remaining_flush w.console
    have hwritten := Console.written_flush w.console
    rw [hflush] at hremaining hwritten
    rw [flush_eq hflush]
    exact ⟨h.input_eq.trans (congrArg _ hremaining.symm), hwritten.trans h.output_eq⟩

end

end Watched

/-! ## Watching changes nothing -/

namespace Session

variable {κ : Type} [Console κ]

/-- The session that is watched, over the console itself. -/
def unwatched (s : Session (Watched κ)) : Session κ := ⟨s.machine, s.console.console⟩

/-- A move is the same move. -/
theorem make_unwatched (s : Session (Watched κ)) (move : Move) :
    s.unwatched.make move = ((s.make move).1, (s.make move).2.unwatched) := by
  cases move with
  | quiet status after => rfl
  | write b after =>
    rcases hwrite : Console.write b s.console.console with ⟨message | _, k⟩
    · rw [make_write_error (Watched.write_eq hwrite),
        make_write_error (s := s.unwatched) hwrite]
      rfl
    · rw [make_write_ok (Watched.write_eq hwrite), make_write_ok (s := s.unwatched) hwrite]
      rfl
  | read after =>
    rcases hread : Console.read s.console.console with ⟨message | _ | b, k⟩
    · rw [make_read_error (Watched.read_eq hread), make_read_error (s := s.unwatched) hread]
      rfl
    · rw [make_read_none (Watched.read_eq hread), make_read_none (s := s.unwatched) hread]
      rfl
    · rw [make_read_some (Watched.read_eq hread), make_read_some (s := s.unwatched) hread]
      rfl

/-- A step is the same step. -/
theorem step_unwatched (s : Session (Watched κ)) :
    s.unwatched.step = (s.step.1, s.step.2.unwatched) := by
  rw [step_eq_make, step_eq_make]
  exact s.make_unwatched s.machine.move

/-- The end of a run is the same end. -/
theorem close_unwatched (e : Ending) (s : Session (Watched κ)) :
    s.unwatched.close e = ((s.close e).1, (s.close e).2.unwatched) := by
  rcases hflush : Console.flush s.console.console with ⟨answer, k⟩
  unfold close
  rw [Watched.flush_eq hflush, show Console.flush s.unwatched.console = (answer, k) from hflush]
  rfl

/-- A run is the same run. -/
theorem run?_unwatched (limit : Option UInt64) (fuel : Nat) (s : Session (Watched κ)) :
    s.unwatched.run? limit fuel
      = (s.run? limit fuel).map fun r => (r.1, r.2.unwatched) := by
  have hloop : s.unwatched.loop? limit fuel
      = (s.loop? limit fuel).map fun r => (r.1, r.2.unwatched) :=
    Execution.run?_map (f := unwatched) (fun _ => rfl) step_unwatched fuel s
  unfold run?
  rw [hloop, Option.map_map, Option.map_map]
  exact congrArg (Option.map · _) (funext fun r => close_unwatched r.1 r.2)

/-- **Every command is the same command**, with the same reply. -/
theorem perform?_unwatched (fuel : Nat) (s : Session (Watched κ)) (c : Command) :
    s.unwatched.perform? fuel c
      = (s.perform? fuel c).map fun r => (r.1, r.2.unwatched) := by
  cases c with
  | step => exact congrArg (fun r => some (Reply.status r.1, r.2)) s.step_unwatched
  | run limit =>
    simp only [perform?]
    rw [run?_unwatched, Option.map_map, Option.map_map]
    rfl
  | read =>
    rcases hread : Console.read s.console.console with ⟨message | got, k⟩ <;>
    · simp only [perform?]
      rw [Watched.read_eq hread, show Console.read s.unwatched.console = _ from hread]
      rfl
  | write b =>
    rcases hwrite : Console.write b s.console.console with ⟨answer, k⟩
    simp only [perform?]
    rw [Watched.write_eq hwrite, show Console.write b s.unwatched.console = _ from hwrite]
    rfl
  | flush =>
    rcases hflush : Console.flush s.console.console with ⟨answer, k⟩
    simp only [perform?]
    rw [Watched.flush_eq hflush, show Console.flush s.unwatched.console = _ from hflush]
    rfl
  | _ => rfl

/-- **A session comes to the same, watched or not.** -/
theorem comesTo_unwatched_iff {s : Session (Watched κ)} {u : Session κ} :
    s.unwatched.ComesTo u ↔ ∃ t, s.ComesTo t ∧ t.unwatched = u := by
  constructor
  · intro h
    induction h with
    | refl => exact ⟨s, .refl, rfl⟩
    | tail _ hlast ih =>
      obtain ⟨t, ht, rfl⟩ := ih
      obtain ⟨fuel, c, reply, hperform⟩ := hlast
      rw [perform?_unwatched] at hperform
      obtain ⟨⟨reply', v⟩, hv, hreply⟩ := Option.map_eq_some_iff.mp hperform
      obtain ⟨rfl, rfl⟩ := Prod.mk.inj hreply
      exact ⟨v, ht.tail ⟨fuel, c, reply', hv⟩, rfl⟩
  · rintro ⟨t, ht, rfl⟩
    refine ht.lift unwatched ?_
    rintro v w ⟨fuel, c, reply, hperform⟩
    exact ⟨fuel, c, reply, by rw [perform?_unwatched, hperform]; rfl⟩

end Session

end RegisterMachine
