import RegisterMachine.Console.Buffer
import RegisterMachine.Proofs.Moves
import RegisterMachine.Proofs.Runs
import RegisterMachine.Session.Run

/-!
# Consoles that look alike

What a console means to a program is the input it has left and the output it
has taken. Two consoles may keep these in quite different ways, and a program
does not notice: **as long as no call fails, sessions whose machines are equal
and whose consoles have the same input left and the same output taken go on to
be like that** (`Session.Alike.step`).

That needs one thing more of a console than its laws ask. They let it report
the end of the input at any time, and a console that does so early can be told
from one that does not. `Console.Honest` is a condition under which it does so
only where no input is left. It is a condition on the state of a console, kept
by calls that work, and what is asked of a call that fails is nothing: what
comes of two sessions is compared up to the first failure, and no further.
-/

namespace RegisterMachine

variable {κ κ' : Type} [Console.Accountable κ] [Console.Accountable κ']

namespace Console

/-- **In such a state a console reports the end of the input only there**, and
calls that work lead to no other state. -/
structure Honest (P : κ → Prop) : Prop where
  read : ∀ {k k' : κ} {got : Option Byte}, P k → Console.read k = (.ok got, k') → P k'
  write : ∀ {k k' : κ} {b : Byte}, P k → Console.write b k = (.ok (), k') → P k'
  flush : ∀ {k k' : κ}, P k → Console.flush k = (.ok (), k') → P k'
  at_end : ∀ {k k' : κ}, P k → Console.read k = (.ok none, k') → Console.remaining k = []

/-- **In such a state no call fails either.** -/
structure Unfailing (P : κ → Prop) : Prop extends Honest P where
  read_works : ∀ {k : κ}, P k → ∃ got k', Console.read k = (.ok got, k')
  write_works : ∀ {k : κ} (b : Byte), P k → ∃ k', Console.write b k = (.ok (), k')
  flush_works : ∀ {k : κ}, P k → ∃ k', Console.flush k = (.ok (), k')

/-- **Two consoles look alike**: the same input is left, and the same output
was taken. -/
structure LookAlike (k : κ) (l : κ') : Prop where
  remaining : Console.remaining k = Console.remaining l
  written : Console.written k = Console.written l

namespace LookAlike

variable {k k' : κ} {l l' : κ'} {P : κ → Prop} {Q : κ' → Prop}

/-- Consoles that look alike hand out the same byte. -/
theorem read (h : LookAlike k l) (hP : Honest P) (hQ : Honest Q) (hk : P k) (hl : Q l)
    {got got' : Option Byte} (hread : Console.read k = (.ok got, k'))
    (hread' : Console.read l = (.ok got', l')) : got = got' ∧ LookAlike k' l' := by
  have hleft := Console.remaining_of_read hread
  have hright := Console.remaining_of_read hread'
  -- both took their byte, if any, off the same input
  rw [← h.remaining] at hright
  have hsame : Console.written k' = Console.written l' := by
    rw [Console.written_of_read hread, Console.written_of_read hread', h.written]
  cases got with
  | none =>
    have hend : Console.remaining k = [] := hP.at_end hk hread
    cases got' with
    | none => exact ⟨rfl, hleft.symm.trans hright, hsame⟩
    | some b =>
      rw [hend] at hright
      cases hright
  | some b =>
    cases got' with
    | none =>
      have hend : Console.remaining l = [] := hQ.at_end hl hread'
      rw [h.remaining, hend] at hleft
      cases hleft
    | some b' =>
      obtain ⟨rfl, hrest⟩ := List.cons.inj (hleft.symm.trans hright)
      exact ⟨rfl, hrest, hsame⟩

/-- Consoles that look alike take a byte alike. -/
theorem write (h : LookAlike k l) {b : Byte} (hwrite : Console.write b k = (.ok (), k'))
    (hwrite' : Console.write b l = (.ok (), l')) : LookAlike k' l' := by
  refine ⟨?_, ?_⟩
  · rw [Console.remaining_of_write hwrite, Console.remaining_of_write hwrite', h.remaining]
  · rw [Console.written_of_write hwrite, Console.written_of_write hwrite', h.written]

/-- Flushing does not show. -/
theorem flush (h : LookAlike k l) :
    LookAlike (Console.flush k).2 (Console.flush l).2 := by
  refine ⟨?_, ?_⟩
  · rw [Console.remaining_flush, Console.remaining_flush, h.remaining]
  · rw [Console.written_flush, Console.written_flush, h.written]

end LookAlike

end Console

/-- A console in memory never fails, and is at the end of its input only when
it is empty. -/
theorem Buffer.unfailing : Console.Unfailing fun _ : Buffer => True where
  read _ _ := trivial
  write _ _ := trivial
  flush _ _ := trivial
  at_end {k k'} _ h := by
    change Buffer.read k = (.ok none, k') at h
    unfold Buffer.read at h
    cases hk : k.input with
    | nil => exact hk
    | cons b rest =>
      rw [hk] at h
      cases h
  read_works {k} _ := by
    show ∃ got k', Buffer.read k = (.ok got, k')
    unfold Buffer.read
    cases k.input with
    | nil => exact ⟨none, k, rfl⟩
    | cons b rest => exact ⟨some b, { k with input := rest }, rfl⟩
  write_works {k} b _ := ⟨{ k with output := k.output.push b }, rfl⟩
  flush_works {k} _ := ⟨k, rfl⟩

namespace Session

/-- **Two sessions that cannot be told apart from their programs' side**: equal
machines, and consoles that look alike and are in the states asked for. -/
structure Alike (P : κ → Prop) (Q : κ' → Prop) (s : Session κ) (t : Session κ') : Prop where
  machine : s.machine = t.machine
  views : Console.LookAlike s.console t.console
  left : P s.console
  right : Q t.console

/-- The step of a session ends because a call of its console failed. -/
def ConsoleFails {κ : Type} [Console κ] (s : Session κ) : Prop :=
  ∃ message, s.step.1 = .ended (.failed (.console message))

variable {P : κ → Prop} {Q : κ' → Prop} {s : Session κ} {t : Session κ'}

/-- **Sessions that are alike make the same step**, up to a failure of the
console of one of them. -/
theorem Alike.step (h : Alike P Q s t) (hP : Console.Honest P) (hQ : Console.Unfailing Q) :
    s.ConsoleFails ∨ (s.step.1 = t.step.1 ∧ Alike P Q s.step.2 t.step.2) := by
  unfold ConsoleFails
  rw [step_eq_make, step_eq_make, ← h.machine]
  cases s.machine.move with
  | quiet status after => exact .inr ⟨rfl, rfl, h.views, h.left, h.right⟩
  | write b after =>
    obtain ⟨l, hl⟩ := hQ.write_works b h.right
    rw [make_write_ok hl]
    rcases hk : Console.write b s.console with ⟨message | _, k⟩
    · rw [make_write_error hk]
      exact .inl ⟨message, rfl⟩
    · rw [make_write_ok hk]
      exact .inr ⟨rfl, rfl, h.views.write hk hl, hP.write h.left hk, hQ.write h.right hl⟩
  | read after =>
    obtain ⟨got', l, hl⟩ := hQ.read_works h.right
    rcases hk : Console.read s.console with ⟨message | got, k⟩
    · rw [make_read_error hk]
      exact .inl ⟨message, rfl⟩
    · obtain ⟨rfl, hviews⟩ := h.views.read hP hQ.toHonest h.left h.right hk hl
      have hkeep : P k ∧ Q l := ⟨hP.read h.left hk, hQ.read h.right hl⟩
      cases got with
      | none =>
        rw [make_read_none hk, make_read_none hl, h.machine]
        exact .inr ⟨rfl, rfl, hviews, hkeep.1, hkeep.2⟩
      | some b =>
        rw [make_read_some hk, make_read_some hl]
        exact .inr ⟨rfl, rfl, hviews, hkeep.1, hkeep.2⟩

/-- Where no call fails, no step ends in a failure of the console. -/
theorem not_consoleFails (hP : Console.Unfailing P) (hs : P s.console) : ¬ s.ConsoleFails := by
  rintro ⟨message, hfailed⟩
  rw [step_eq_make] at hfailed
  cases hmove : s.machine.move with
  | quiet status after =>
    -- what a machine fails with by itself blames an address
    rw [hmove] at hfailed
    obtain rfl : status = .ended (.failed (.console message)) := hfailed
    obtain ⟨-, -, haddress⟩ := Machine.move_eq_quiet_failed hmove
    cases haddress
  | write b after =>
    obtain ⟨k, hk⟩ := hP.write_works b hs
    rw [hmove, make_write_ok hk] at hfailed
    cases hfailed
  | read after =>
    obtain ⟨got, k, hk⟩ := hP.read_works hs
    rw [hmove] at hfailed
    cases got with
    | none =>
      rw [make_read_none hk] at hfailed
      cases hfailed
    | some b =>
      rw [make_read_some hk] at hfailed
      cases hfailed

/-- **Sessions that are alike run alike**, up to the step at which the console of
the first one fails. -/
theorem Alike.loop (h : Alike P Q s t) (hP : Console.Honest P) (hQ : Console.Unfailing Q)
    (limit : Option UInt64) (fuel : Nat) :
    (∃ n u v, n < fuel
        ∧ Execution.Reaches Session.step (fun s => s.machine.steps) limit n s u
        ∧ Execution.Reaches Session.step (fun t => t.machine.steps) limit n t v
        ∧ Alike P Q u v ∧ Execution.limitReached limit u.machine.steps = false
        ∧ u.ConsoleFails)
      ∨ Execution.Agree (Alike P Q) (s.loop? limit fuel) (t.loop? limit fuel) :=
  Execution.run?_follows (fun h => congrArg (fun m => m.toProcessor.steps) h.machine)
    (fun h => h.step hP hQ) fuel h

end Session

end RegisterMachine
