import Mathlib.Data.List.Induction
import Mathlib.Logic.Function.Basic
import RegisterMachine.Proofs.Arithmetic
import RegisterMachine.Proofs.Effects
import RegisterMachine.Proofs.Places
import RegisterMachine.Proofs.Runs

/-!
# Loops in loops

How long a run can be is not bounded by the size of its program. Two instructions make a
loop: they count a register up and begin again until it is zero, which it is after 32768
rounds. One such loop behind another makes the first one the body of the second, and so
**every loop more makes a run more than 32768 times as long** (`Session.exists_walks_halt`).

The registers are followed as numbers. `Session.Standing` says what there is to know of a
session on its way: where it stands, and the numbers in its registers. The memory and the
console stay what they are.
-/

namespace RegisterMachine

/-- Of words that a memory holds it holds those behind the first ones. -/
theorem Memory.Holds.behind {m : Memory} {start : Nat} {front ws : List Word}
    (h : m.Holds start (front ++ ws)) : m.Holds (start + front.length) ws := by
  obtain ⟨rest, hrest⟩ := h
  refine ⟨rest, ?_⟩
  rw [← List.drop_drop, ← hrest, List.append_assoc, List.drop_left]

/-- Steps after steps are steps. -/
theorem Execution.Reaches.trans {σ : Type} {step : σ → Status × σ} {steps : σ → UInt64}
    {limit : Option UInt64} {n n' : Nat} {s t u : σ} (h : Reaches step steps limit n s t)
    (h' : Reaches step steps limit n' t u) : Reaches step steps limit (n + n') s u := by
  induction h with
  | refl => rwa [Nat.zero_add]
  | head hlimit hstep _ ih =>
    rw [Nat.add_right_comm]
    exact .head hlimit hstep (ih h')

/-! ## The program -/

namespace Loops

/-- The word that names a register. -/
def word (r : Register) : Word := (Operand.register r).toWord

/-- Count a register up. -/
def countUp (r : Register) : Instruction Word := .binary .add (word r) (word r) 1

/-- Begin again, unless a register is zero. -/
def beginAgain (r : Register) : Instruction Word := .jt (word r) 0

/-- **A loop**: what stands before it is done until a register is zero. -/
def loop (r : Register) : List Word := (countUp r).words ++ (beginAgain r).words

/-- **Loops in loops**, the innermost first, and a `halt` behind them. -/
def nest (rs : List Register) : List Word := rs.flatMap loop ++ (.halt : Instruction Word).words

/-- **The steps of so many loops in loops**, without the `halt`: each of them goes around 32768
times, and adds its own two instructions to what is in it. -/
def laps : Nat → Nat
  | 0 => 0
  | n + 1 => 32768 * (laps n + 2)

/-- A register is what its word names. -/
theorem named_word : ∀ r : Register, Operand.named (word r) = .register r := by decide

theorem firstInvalid?_countUp : ∀ r : Register, (countUp r).firstInvalid? = none := by decide

theorem firstInvalid?_beginAgain : ∀ r : Register, (beginAgain r).firstInvalid? = none := by decide

/-- Each loop has seven words. -/
theorem length_flatMap_loop (rs : List Register) : (rs.flatMap loop).length = 7 * rs.length := by
  induction rs with
  | nil => rfl
  | cons r rs ih =>
    rw [List.flatMap_cons, List.length_append, ih, List.length_cons, Nat.mul_succ, Nat.add_comm]
    rfl

end Loops

namespace Session

open Loops

variable {κ : Type} {s : Session κ} {memory : Memory} {k : κ} {place : Nat}
  {numbers : Register → Nat} {r : Register}

/-- **Where a session stands**, with which memory and console, and the numbers in its
registers. -/
structure Standing (memory : Memory) (k : κ) (place : Nat) (numbers : Register → Nat)
    (s : Session κ) : Prop where
  memory : s.machine.memory = memory
  console : s.console = k
  ip : s.machine.ip.toNat = place
  numbers : ∀ r, (s.machine.get r).toNat = numbers r

/-- An instruction that the memory holds where the session stands is executed there. -/
theorem Standing.executes (hs : Standing memory k place numbers s) {i : Instruction Word}
    (hi : memory.Holds place i.words) (hvalid : i.firstInvalid? = none) :
    s.machine.Executes i := by
  refine ⟨?_, hvalid⟩
  show s.machine.memory.Holds s.machine.ip.toNat i.words
  rw [hs.memory, hs.ip]
  exact hi

variable [Console κ]

/-- Counting up changes one number, which comes back to zero after the last. -/
theorem Standing.step_countUp (hs : Standing memory k place numbers s)
    (hi : memory.Holds place (countUp r).words) :
    ∃ t, s.step = (.running, t)
      ∧ Standing memory k (place + 4) (Function.update numbers r ((numbers r + 1) % 32768)) t := by
  have hexecutes := hs.executes hi (firstInvalid?_countUp r)
  obtain ⟨w, hw⟩ : ∃ w, BinaryOp.add.apply (s.machine.marked.value (.named (word r)))
      (s.machine.marked.value (.named 1)) = some w := ⟨_, rfl⟩
  have hplace : (Operand.named (word r)).place = .register r := by rw [named_word]; rfl
  have hwrite : (s.machine.marked.assign (s.machine.behind (countUp r)) (.named (word r)) w).write
      = some (w, .register r) := by rw [← hplace]; rfl
  have hnumber : w.toNat = (numbers r + 1) % 32768 := by
    rw [BinaryOp.toNat_apply hw, named_word, ← hs.numbers r]
    rfl
  refine ⟨_, step_of_yields hexecutes (.binary hw), ?_, hs.console, ?_, fun r' => ?_⟩
  · rw [← hs.memory]
    show (s.machine.marked.store (some (w, (Operand.named (word r)).place))).memory = _
    rw [hplace]
    rfl
  · show (s.machine.behind (countUp r)).toNat = _
    rw [hexecutes.1.toNat_behind, hs.ip]
    rfl
  · by_cases hr : r' = r
    · subst hr
      rw [Function.update_self, ← hnumber]
      exact congrArg UInt16.toNat (Machine.wordAt_perform hwrite)
    · rw [Function.update_of_ne hr, ← hs.numbers r']
      have hother : ∀ w', (s.machine.marked.assign (s.machine.behind (countUp r))
          (.named (word r)) w).write ≠ some (w', .register r') := by
        intro w' hw'
        rw [hwrite] at hw'
        cases hw'
        exact hr rfl
      exact congrArg UInt16.toNat (Machine.wordAt_perform_of_ne hother)

/-- Beginning again leads to the start or, past a zero, behind the loop. -/
theorem Standing.step_beginAgain (hs : Standing memory k place numbers s)
    (hi : memory.Holds place (beginAgain r).words) :
    ∃ t, s.step = (.running, t)
      ∧ Standing memory k (if numbers r = 0 then place + 3 else 0) numbers t := by
  have hexecutes := hs.executes hi (firstInvalid?_beginAgain r)
  have hvalue : (s.machine.marked.value (.named (word r))).toNat = numbers r := by
    rw [named_word, ← hs.numbers r]
    rfl
  by_cases hzero : numbers r = 0
  · rw [if_pos hzero]
    have hpassed : s.machine.marked.value (.named (word r)) = 0 :=
      UInt16.toNat_inj.mp (hvalue.trans hzero)
    refine ⟨_, step_of_yields hexecutes (.jtPassed hpassed), hs.memory, hs.console, ?_, hs.numbers⟩
    show (s.machine.behind (beginAgain r)).toNat = _
    rw [hexecutes.1.toNat_behind, hs.ip]
    rfl
  · rw [if_neg hzero]
    have htaken : s.machine.marked.value (.named (word r)) ≠ 0 := by
      intro h
      rw [h] at hvalue
      exact hzero hvalue.symm
    exact ⟨_, step_of_yields hexecutes (.jtTaken htaken), hs.memory, hs.console, rfl, hs.numbers⟩

/-- **So many steps lead from one session to another**, without a limit. -/
abbrev Walks (n : Nat) (s t : Session κ) : Prop :=
  Execution.Reaches step (fun s : Session κ => s.machine.steps) none n s t

/-- **Around a loop.** If so many steps lead through what stands before it whenever these
registers are zero, then the loop is left, with its own register at zero and all others as they
were, after as many rounds as are missing. -/
theorem exists_walks_around {rs : List Register} {n : Nat} (hr : r ∉ rs)
    (hloop : memory.Holds place (loop r))
    (hbody : ∀ {numbers} {s : Session κ}, Standing memory k 0 numbers s →
      (∀ r' ∈ rs, numbers r' = 0) → ∃ t, Walks n s t ∧ Standing memory k place numbers t)
    (missing : Nat) (hmissing : numbers r + (missing + 1) = 32768)
    (hs : Standing memory k 0 numbers s) (hzero : ∀ r' ∈ rs, numbers r' = 0) :
    ∃ t, Walks ((missing + 1) * (n + 2)) s t
      ∧ Standing memory k (place + 7) (Function.update numbers r 0) t := by
  have hcountUp : memory.Holds place (countUp r).words := (List.prefix_append _ _).trans hloop
  have hbeginAgain : memory.Holds (place + (countUp r).words.length) (beginAgain r).words :=
    hloop.behind
  induction missing generalizing numbers s with
  | zero =>
    obtain ⟨t, hst, ht⟩ := hbody hs hzero
    obtain ⟨u, htu, hu⟩ := ht.step_countUp hcountUp
    obtain ⟨v, huv, hv⟩ := hu.step_beginAgain hbeginAgain
    have hlast : (numbers r + 1) % 32768 = 0 := by omega
    rw [Function.update_self, hlast, if_pos rfl] at hv
    refine ⟨v, ?_, hv⟩
    rw [Nat.zero_add, Nat.one_mul]
    exact hst.trans (.head rfl htu (.head rfl huv .refl))
  | succ missing ih =>
    obtain ⟨t, hst, ht⟩ := hbody hs hzero
    obtain ⟨u, htu, hu⟩ := ht.step_countUp hcountUp
    obtain ⟨v, huv, hv⟩ := hu.step_beginAgain hbeginAgain
    have hnext : (numbers r + 1) % 32768 = numbers r + 1 := by omega
    rw [Function.update_self, hnext, if_neg (Nat.succ_ne_zero _)] at hv
    obtain ⟨x, hvx, hx⟩ := ih (by rw [Function.update_self]; omega) hv fun r' hr' => by
      rw [Function.update_of_ne (ne_of_mem_of_not_mem hr' hr)]
      exact hzero r' hr'
    rw [Function.update_idem] at hx
    refine ⟨x, ?_, hx⟩
    have hround : Walks (n + 2) s v := hst.trans (.head rfl htu (.head rfl huv .refl))
    have hall := hround.trans hvx
    rwa [Nat.add_comm, ← Nat.succ_mul] at hall

/-- **Through loops in loops.** From the start, with the registers of some loops at zero, `laps`
steps lead behind these loops, with all registers as they were. -/
theorem exists_walks_behind (rs later : List Register) (hdistinct : (rs ++ later).Nodup)
    (hholds : memory.Holds 0 (nest (rs ++ later))) (hs : Standing memory k 0 numbers s)
    (hzero : ∀ r ∈ rs, numbers r = 0) :
    ∃ t, Walks (laps rs.length) s t ∧ Standing memory k (7 * rs.length) numbers t := by
  induction rs using List.reverseRecOn generalizing later numbers s with
  | nil => exact ⟨s, .refl, hs⟩
  | append_singleton rs r ih =>
    rw [List.append_assoc, List.singleton_append] at hdistinct hholds
    have hr : r ∉ rs := fun hmem =>
      (List.nodup_append.mp hdistinct).2.2 r hmem r List.mem_cons_self rfl
    have hloop : memory.Holds (7 * rs.length) (loop r) := by
      rw [nest, List.flatMap_append, List.append_assoc] at hholds
      have hbehind := hholds.behind
      rw [length_flatMap_loop, Nat.zero_add, List.flatMap_cons, List.append_assoc] at hbehind
      exact (List.prefix_append _ _).trans hbehind
    have hr0 : numbers r = 0 := hzero r (List.mem_append_right _ List.mem_cons_self)
    obtain ⟨t, hst, ht⟩ := exists_walks_around hr hloop
      (fun hs hzero => ih (r :: later) hdistinct hholds hs hzero) 32767 (by rw [hr0]) hs
      (fun r' hr' => hzero r' (List.mem_append_left _ hr'))
    have hsame : Function.update numbers r 0 = numbers := by
      rw [← hr0]
      exact Function.update_eq_self r numbers
    rw [List.length_append, List.length_singleton]
    exact ⟨t, hst, hsame ▸ ht⟩

/-- **A machine that starts on loops in loops halts**, after `laps` steps and the `halt`, and the
console was not asked for anything. -/
theorem exists_walks_halt (rs : List Register) (hdistinct : rs.Nodup)
    (hholds : memory.Holds 0 (nest rs)) (k : κ) :
    ∃ t u, Walks (laps rs.length) ⟨.ofMemory memory, k⟩ t
      ∧ t.step = (.ended (.finished .halted), u) ∧ u.console = k := by
  have hstart : Standing memory k 0 (fun _ => 0) ⟨.ofMemory memory, k⟩ :=
    ⟨rfl, rfl, rfl, fun r => congrArg UInt16.toNat (Vector.getElem_replicate r.isLt)⟩
  obtain ⟨t, hst, ht⟩ := exists_walks_behind rs [] ((List.append_nil rs).symm ▸ hdistinct)
    ((List.append_nil rs).symm ▸ hholds) hstart fun _ _ => rfl
  have hhalt : memory.Holds (7 * rs.length) (.halt : Instruction Word).words := by
    have hbehind := hholds.behind
    rwa [length_flatMap_loop, Nat.zero_add] at hbehind
  exact ⟨t, _, hst, step_of_yields (ht.executes hhalt rfl) .halt, ht.console⟩

end Session

end RegisterMachine
