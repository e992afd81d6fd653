import RegisterMachine.Proofs.Atomicity
import RegisterMachine.Proofs.Budget
import RegisterMachine.Proofs.Histories
import RegisterMachine.Proofs.Paths
import RegisterMachine.Proofs.Places

/-!
# Every byte is accounted for

A console says what input it has left and what output it has taken, and not how that
came about. The instructions that were executed do: an `in` takes a byte of the input
and stores it, an `out` shows the low half of a value, and no other instruction, nor one
that fails, touches either. So **the input is the bytes that were stored and then what is
left of it, and the output is what it was and then the bytes that were shown**, over any
course of steps and runs (`Session.Course.every_byte_accounted`).

What was executed is told by `Executed`: an instruction with the machine before it and
the machine after it, which is where to find the value that an `out` had at that moment
and the word that an `in` has left at its destination. The bytes are read off these
machines, not off the console, so the two sides of the account are kept apart.
-/

namespace RegisterMachine

/-! ## What an instruction asks of the console -/

namespace Machine

variable {κ : Type} [Console κ] {m : Machine} {next : Word} {k k' : κ} {e : Effect}

/-- Only an `in` and an `out` touch the console. -/
theorem Yields.console_eq {i : Instruction Operand} (h : m.Yields next k i e k')
    (hinput : ∀ dst, i ≠ .input dst) (houtput : ∀ src, i ≠ .output src) : k' = k := by
  cases h with
  | @input dst => exact absurd rfl (hinput dst)
  | @output src => exact absurd rfl (houtput src)
  | _ => rfl

/-- An `in` takes the byte from the console that it stores. -/
theorem Yields.of_input {dst : Operand} (h : m.Yields next k (.input dst) e k') :
    ∃ b : Byte, Console.read k = (.ok (some b), k') ∧ e.write = some (b.toUInt16, dst.place) := by
  cases h with
  | input hread => exact ⟨_, hread, rfl⟩

/-- An `out` gives the console the low half of its value. -/
theorem Yields.of_output {src : Operand} (h : m.Yields next k (.output src) e k') :
    Console.write (m.value src).lowByte k = (.ok (), k') := by
  cases h with
  | output hwrite => exact hwrite

end Machine

/-- The low half of a word is what it leaves modulo 256. -/
theorem Word.lowByte_eq (w : Word) : w.lowByte = UInt8.ofNat (w.toNat % 256) := by
  refine UInt8.toNat_inj.mp ?_
  rw [Word.lowByte, UInt16.toNat_toUInt8, UInt8.toNat_ofNat', Nat.mod_mod]

/-! ## What was executed -/

/-- **An instruction that was executed**, with the machine before it and the machine after
it. -/
structure Executed where
  before : Machine
  instruction : Instruction Word
  after : Machine

namespace Executed

/-- **The word that an `in` stored**, as it is found at its destination. -/
def stored? (x : Executed) : Option Word :=
  match x.instruction with
  | .input dst => some (x.after.wordAt (Operand.named dst).place)
  | _ => none

/-- **The byte that an `out` showed**: its value, modulo 256. -/
def shown? (x : Executed) : Option Byte :=
  match x.instruction with
  | .output src => some (.ofNat ((x.before.wordValue src).toNat % 256))
  | _ => none

end Executed

namespace Session

section

variable {κ : Type} [Console κ] {s : Session κ}

/-- **What the next step executes**: the instruction at the instruction pointer, unless the
step fails. -/
def executed? (s : Session κ) : Option Executed :=
  match s.machine.memory.decode s.machine.ip with
  | .error _ => none
  | .ok (i, _) => if s.step.1.isCounted then some ⟨s.machine, i, s.step.2.machine⟩ else none

/-- A step that fails executes nothing. -/
theorem executed?_of_failed {fault : Fault} (h : s.step.1 = .ended (.failed fault)) :
    s.executed? = none := by
  unfold executed?
  cases s.machine.memory.decode s.machine.ip with
  | error _ => rfl
  | ok found =>
    dsimp only
    rw [h]
    rfl

/-- **A step fails and executes nothing, or executes an instruction** with what a rule gives
for it. -/
theorem executed?_cases (s : Session κ) :
    (∃ fault, s.step.1 = .ended (.failed fault) ∧ s.executed? = none)
      ∨ ∃ i e k, s.machine.marked.Yields (s.machine.behind i) s.console (i.map Operand.named) e k
        ∧ s.step.2 = ⟨s.machine.marked.perform e, k⟩
        ∧ s.executed? = some ⟨s.machine, i, s.machine.marked.perform e⟩ := by
  rcases s.step_effect with ⟨fault, hfailed, -, -⟩ | ⟨i, e, k, hexecutes, hyields, hstep⟩
  · exact .inl ⟨fault, hfailed, executed?_of_failed hfailed⟩
  · have hdecode : s.machine.memory.decode s.machine.ip = .ok (i, s.machine.behind i) :=
      Memory.decode_of_holds hexecutes.1
    refine .inr ⟨i, e, k, hyields, congrArg Prod.snd hstep, ?_⟩
    unfold executed?
    rw [hdecode, hstep]
    dsimp only
    rw [if_pos e.isCounted_status]

end

variable {κ : Type} [Console.Accountable κ] {s t u : Session κ}

/-- A step that fails leaves the input and the output alone. -/
theorem views_of_step_failed {fault : Fault} (h : s.step.1 = .ended (.failed fault)) :
    Console.remaining s.step.2.console = Console.remaining s.console
      ∧ Console.written s.step.2.console = Console.written s.console := by
  rw [step_eq_make] at h ⊢
  cases hmove : s.machine.move with
  | quiet status after => exact ⟨rfl, rfl⟩
  | write b after =>
    rw [hmove] at h
    exact (make_write_failed h).2.2
  | read after =>
    rw [hmove] at h
    exact (make_read_failed h).2.2

/-! ## The account -/

/-- **These instructions account for the input and the output** between one session and
another: what is gone of the input is what was stored, byte by byte, and what is new of
the output is what was shown. -/
structure Accounts (s : Session κ) (history : List Executed) (t : Session κ) : Prop where
  input : ∃ consumed : List Byte,
    Console.remaining s.console = consumed ++ Console.remaining t.console
      ∧ consumed.map UInt8.toUInt16 = history.filterMap Executed.stored?
  output : Console.written t.console
    = Console.written s.console ++ history.filterMap Executed.shown?

namespace Accounts

/-- Where nothing happens to either, nothing has to be accounted for. -/
theorem of_views (hremaining : Console.remaining t.console = Console.remaining s.console)
    (hwritten : Console.written t.console = Console.written s.console) : Accounts s [] t :=
  ⟨⟨[], hremaining.symm, rfl⟩, hwritten.trans (List.append_nil _).symm⟩

/-- One account after the other is an account. -/
theorem append {history later : List Executed} (h : Accounts s history t)
    (hlater : Accounts t later u) : Accounts s (history ++ later) u := by
  obtain ⟨consumed, hinput, hstored⟩ := h.input
  obtain ⟨consumed', hinput', hstored'⟩ := hlater.input
  refine ⟨⟨consumed ++ consumed', ?_, ?_⟩, ?_⟩
  · rw [hinput, hinput', List.append_assoc]
  · rw [List.map_append, hstored, hstored', List.filterMap_append]
  · rw [hlater.output, h.output, List.filterMap_append, List.append_assoc]

end Accounts

/-- **A step is accounted for by what it executes.** -/
theorem accounts_step (s : Session κ) : Accounts s s.executed?.toList s.step.2 := by
  rcases s.executed?_cases with ⟨fault, hfailed, hnone⟩ | ⟨i, e, k, hyields, hafter, hsome⟩
  · rw [hnone]
    exact .of_views (views_of_step_failed hfailed).1 (views_of_step_failed hfailed).2
  rw [hsome, hafter]
  cases i with
  | input dst =>
    obtain ⟨b, hread, hwrite⟩ := hyields.of_input
    refine ⟨⟨[b], Console.remaining_of_read hread, ?_⟩, ?_⟩
    · show [b.toUInt16] = [(s.machine.marked.perform e).wordAt _]
      rw [Machine.wordAt_perform hwrite]
    · exact (Console.written_of_read hread).trans (List.append_nil _).symm
  | output src =>
    have hwrite := hyields.of_output
    refine ⟨⟨[], (Console.remaining_of_write hwrite).symm, rfl⟩, ?_⟩
    rw [Machine.value_named_marked, Word.lowByte_eq] at hwrite
    exact Console.written_of_write hwrite
  | _ =>
    obtain rfl : k = s.console := hyields.console_eq (fun _ h => nomatch h) (fun _ h => nomatch h)
    exact ⟨⟨[], rfl, rfl⟩, (List.append_nil _).symm⟩

/-- Accounts gather what is executed. -/
theorem gathers_accounts : Gathers (executed? (κ := κ)) Accounts where
  nil _ := .of_views rfl rfl
  append h hlater := h.append hlater
  step := accounts_step
  flush s := .of_views (Console.remaining_flush s.console) (Console.written_flush s.console)

/-- **A run is accounted for by what its steps execute**: the flush at the end of it is no
matter of input or output. -/
theorem accounts_run {limit : Option UInt64} {fuel : Nat} {e : Ending}
    (h : s.run? limit fuel = some (e, t)) :
    Accounts s ((s.departures limit fuel).filterMap executed?) t :=
  gathers_accounts.run h

/-- **A course of steps and runs**, of any length and however they end, with the
instructions that were executed on it, in order. -/
inductive Course (s : Session κ) : List Executed → Session κ → Prop where
  /-- Nothing is done. -/
  | start : Course s [] s
  /-- One more step is made. -/
  | step {history : List Executed} {t : Session κ} : Course s history t →
      Course s (history ++ t.executed?.toList) t.step.2
  /-- One more run is made. -/
  | run {history : List Executed} {t u : Session κ} {limit : Option UInt64} {fuel : Nat}
      {e : Ending} : Course s history t → t.run? limit fuel = some (e, u) →
      Course s (history ++ (t.departures limit fuel).filterMap executed?) u

/-- **Every byte is accounted for.** Over any course of steps and runs, the input is the
bytes that were taken off it, followed by what is left of it, and these bytes are the words
that the executed `in`s have stored, one for each of them and in their order. The output is
what it was, followed by one byte for each executed `out`, in their order: its value at
that moment, modulo 256. What else was executed, and what failed, is in neither. -/
theorem Course.every_byte_accounted {history : List Executed} (h : s.Course history t) :
    ∃ consumed : List Byte, Console.remaining s.console = consumed ++ Console.remaining t.console
      ∧ consumed.map UInt8.toUInt16 = history.filterMap Executed.stored?
      ∧ Console.written t.console
        = Console.written s.console ++ history.filterMap Executed.shown? := by
  have haccounts : Accounts s history t := by
    induction h with
    | start => exact .of_views rfl rfl
    | step _ ih => exact ih.append (accounts_step _)
    | run _ hrun ih => exact ih.append (accounts_run hrun)
  obtain ⟨consumed, hinput, hstored⟩ := haccounts.input
  exact ⟨consumed, hinput, hstored, haccounts.output⟩

/-- An `in` is stepped over and the rest is run: one of two bytes is stored, and a register
that holds more than a literal can say shows the low half of it. -/
theorem Course.every_byte_accounted_wide :
    let program := (((Memory.empty.set 0 20).set 1 32768).set 2 19).set 3 32769
    let m := { Machine.ofMemory program with registers := (Vector.replicate 8 0).set 1 65345 }
    let s : Session Buffer := ⟨m, .ofInput [104, 105]⟩
    ∃ history t, s.Course history t ∧ Console.remaining t.console = [105]
      ∧ history.filterMap Executed.stored? = [104]
      ∧ history.filterMap Executed.shown? = [65] := by
  intro program m s
  have hseen : (s.step.2.run? none 2).map
      (fun r => (Console.remaining r.2.console, Console.written r.2.console))
      = some ([105], [65]) := by decide +kernel
  obtain ⟨⟨e, t⟩, hrun, hviews⟩ := Option.map_eq_some_iff.mp hseen
  obtain ⟨hremaining, hwritten⟩ := Prod.mk.inj hviews
  have hcourse : s.Course _ t := .run (.step .start) hrun
  obtain ⟨consumed, hinput, hstored, houtput⟩ := hcourse.every_byte_accounted
  rw [hremaining] at hinput
  obtain rfl : [104] = consumed :=
    List.append_cancel_right (show [104] ++ [105] = consumed ++ [105] from hinput)
  have hbyte : ([104] : List Byte).map UInt8.toUInt16 = [104] := by decide
  rw [hbyte] at hstored
  rw [hwritten, show Console.written s.console = [] from rfl, List.nil_append] at houtput
  exact ⟨_, t, hcourse, hremaining, hstored.symm, houtput.symm⟩

end Session

end RegisterMachine
