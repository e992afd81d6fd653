import RegisterMachine.Proofs.Changes
import RegisterMachine.Proofs.Exchange
import RegisterMachine.Session.Command

/-!
# What was written last

A register or a memory word holds what was written to it last, and what it held at first as
long as nothing was. One instruction is looked at easily. But this has to be so after any
number of them, and some fail after they took a word off the stack, and some write to the words
that others are executed from.

What it takes is an account of the writes, in order. `Session.written?` says what a step writes
and where to, by the instruction it executes and by the values from before it: a word goes to
the place that a destination names, or to the address that a `wmem` computes. `Machine.Writes`
says that registers and memory are what some writes make of them, and **so they are after every
command, by what its steps have written** (`Session.writes_perform`).
-/

namespace RegisterMachine

/-! ## The last of many writes -/

/-- **The word that was written last to a place**, if any was, where the writes are in their
order. -/
def Place.lastWritten? (place : Place) (writes : List (Place × Word)) : Option Word :=
  writes.reverse.lookup place

namespace Place

/-- Later writes come first. -/
theorem lastWritten?_append (place : Place) (writes later : List (Place × Word)) :
    place.lastWritten? (writes ++ later)
      = (place.lastWritten? later).or (place.lastWritten? writes) := by
  rw [lastWritten?, List.reverse_append, List.lookup_append]
  rfl

/-- **What a place holds after more writes**, by what it held before them. -/
theorem getD_lastWritten?_append (place : Place) (writes later : List (Place × Word)) (w : Word) :
    (place.lastWritten? (writes ++ later)).getD w
      = (place.lastWritten? later).getD ((place.lastWritten? writes).getD w) := by
  rw [lastWritten?_append]
  cases place.lastWritten? later <;> rfl

@[simp] theorem lastWritten?_self (place : Place) (w : Word) :
    place.lastWritten? [(place, w)] = some w :=
  List.lookup_cons_self

theorem lastWritten?_of_ne {place other : Place} (h : place ≠ other) (w : Word) :
    other.lastWritten? [(place, w)] = none := by
  refine List.lookup_eq_none_iff.mpr fun written hwritten => ?_
  rw [List.mem_singleton.mp hwritten]
  exact bne_iff_ne.mpr h.symm

end Place

namespace Machine

/-- **These writes make one machine of another**, as far as registers and memory go: at each
place is what was written there last, or else what was there before. The length of the image
cannot be written to. -/
structure Writes (m : Machine) (writes : List (Place × Word)) (m' : Machine) : Prop where
  wordAt : ∀ place, m'.wordAt place = (place.lastWritten? writes).getD (m.wordAt place)
  imageLength : m'.memory.imageLength = m.memory.imageLength

namespace Writes

variable {m m' m'' : Machine} {writes later : List (Place × Word)} {place : Place} {w : Word}

/-- Where registers and memory are the same, nothing was written. -/
theorem of_eq (hregisters : m'.registers = m.registers) (hmemory : m'.memory = m.memory) :
    m.Writes [] m' := by
  refine ⟨fun place => ?_, congrArg Memory.imageLength hmemory⟩
  cases place with
  | register r => exact congrArg (fun registers => registers[r.val]) hregisters
  | cell a => exact congrArg (fun memory => memory.get a) hmemory

/-- **Writes that follow one another are writes.** -/
theorem append (h : m.Writes writes m') (hlater : m'.Writes later m'') :
    m.Writes (writes ++ later) m'' := by
  refine ⟨fun place => ?_, hlater.imageLength.trans h.imageLength⟩
  rw [hlater.wordAt, h.wordAt, Place.getD_lastWritten?_append]

/-- One write at a place is one write. -/
theorem write (m : Machine) (w : Word) (place : Place) : m.Writes [(place, w)] (m.write w place) := by
  refine ⟨fun other => ?_, ?_⟩
  · by_cases hsame : place = other
    · rw [← hsame, wordAt_write, Place.lastWritten?_self, Option.getD_some]
    · rw [wordAt_write_of_ne m w hsame, Place.lastWritten?_of_ne hsame, Option.getD_none]
  · cases place <;> rfl

/-- **An effect writes what it says it writes.** -/
theorem perform (m : Machine) (e : Effect) :
    m.Writes (e.write.map Prod.swap).toList (m.perform e) := by
  have hstored : m.Writes (e.write.map Prod.swap).toList (m.store e.write) := by
    rcases e.write with _ | ⟨w, place⟩
    · exact of_eq rfl rfl
    · exact write m w place
  exact ⟨fun place => (m.wordAt_perform_eq e place).trans (hstored.wordAt place),
    hstored.imageLength⟩

end Writes

/-! ## What an instruction writes -/

/-- **The place that an instruction writes to**: the one that its destination names or, for a
`wmem`, the memory word at the address it computes. -/
def target? (m : Machine) : Instruction Word → Option Place
  | .wmem address _ => (Address.ofWord? (m.wordValue address)).map .cell
  | i => i.destination.map fun dst => (Operand.named dst).place

end Machine

/-- **What a command writes from outside**, that is without making a step. -/
def Command.writes : Command → List (Place × Word)
  | .setRegister r w => [(.register r, w)]
  | .push _ | .pop | .setPointer _ | .countStep | .step | .run _ | .read | .write _ | .flush => []

/-- Taking the top of the stack leaves the registers alone. -/
theorem Processor.registers_pop (p : Processor) : p.pop.2.registers = p.registers := by
  unfold pop
  split <;> rfl

namespace Session

variable {κ : Type} [Console κ]

/-- **The word that an instruction writes**, by the values from before it: a value, the top of
the stack, a memory word, what is computed from values, or the byte that the console has to
give. -/
def result? (s : Session κ) : Instruction Word → Option Word
  | .set _ src | .wmem _ src => some (s.machine.wordValue src)
  | .not _ src => some (~~~ s.machine.wordValue src &&& Word.valueMask)
  | .binary op _ lhs rhs => op.apply (s.machine.wordValue lhs) (s.machine.wordValue rhs)
  | .rmem _ address => s.machine.memory.load? (s.machine.wordValue address)
  | .pop _ => s.machine.stack.head?
  | .input _ =>
    match (Console.read s.console).1 with
    | .ok (some b) => some b.toUInt16
    | _ => none
  | .halt | .push _ | .jmp _ | .jt .. | .jf .. | .call _ | .ret | .output _ | .noop => none

/-- **What the next step writes, and where to**, if the instruction it executes writes
anything. -/
def written? (s : Session κ) : Option (Place × Word) :=
  s.executed?.bind fun x => (s.machine.target? x.instruction).bind fun place =>
    (s.result? x.instruction).map fun w => (place, w)

/-- **A rule writes the result of its instruction to its target.** -/
theorem write_of_yields {s : Session κ} {i : Instruction Word} {next : Word} {e : Effect} {k : κ}
    (h : s.machine.marked.Yields next s.console (i.map Operand.named) e k) :
    e.write.map Prod.swap
      = (s.machine.target? i).bind fun place => (s.result? i).map fun w => (place, w) := by
  have hvalue : ∀ w, s.machine.marked.value (Operand.named w) = s.machine.wordValue w :=
    s.machine.value_named_marked
  cases i with
  | halt | push | jmp | jt | jf | call | ret | output | noop => cases h <;> rfl
  | set dst src | not dst src =>
    cases h
    rw [hvalue]
    rfl
  | binary op dst lhs rhs =>
    cases h with
    | binary happly =>
      rw [hvalue, hvalue] at happly
      rw [result?, happly]
      rfl
  | rmem dst address =>
    cases h with
    | rmem hload =>
      rw [hvalue] at hload
      rw [result?, show s.machine.memory.load? _ = _ from hload]
      rfl
  | wmem address src =>
    cases h with
    | wmem haddress =>
      rw [hvalue] at haddress
      rw [hvalue, Machine.target?, haddress]
      rfl
  | pop dst =>
    cases h with
    | pop hstack =>
      rw [result?, show s.machine.stack = _ from hstack]
      rfl
  | input dst =>
    cases h with
    | input hread =>
      rw [result?, hread]
      rfl

/-! ## What steps, runs and other commands write -/

/-- A step that fails leaves registers and memory alone. -/
theorem unchanged_of_failed {s : Session κ} {fault : Fault}
    (h : s.step.1 = .ended (.failed fault)) :
    s.step.2.machine.toProcessor = s.machine.toProcessor
      ∧ s.step.2.machine.memory = s.machine.memory := by
  rcases s.step_effect with ⟨_, -, hprocessor, hmemory⟩ | ⟨_, e, _, -, -, hstep⟩
  · exact ⟨hprocessor, hmemory⟩
  · rw [hstep] at h
    exact absurd h (e.status_ne_failed fault)

/-- **A step writes what it says it writes.** -/
theorem writes_step (s : Session κ) : s.machine.Writes s.written?.toList s.step.2.machine := by
  rcases s.executed?_cases with ⟨fault, hfailed, hnone⟩ | ⟨i, e, k, hyields, hafter, hsome⟩
  · obtain ⟨hprocessor, hmemory⟩ := unchanged_of_failed hfailed
    rw [written?, hnone]
    exact .of_eq (congrArg Processor.registers hprocessor) hmemory
  · have hmarked : s.machine.Writes [] s.machine.marked := .of_eq rfl rfl
    rw [written?, hsome, Option.bind_some, ← write_of_yields hyields, hafter]
    exact hmarked.append (.perform s.machine.marked e)

/-- Writes gather what steps write. -/
theorem gathers_writes :
    Gathers (written? (κ := κ)) fun s writes t => s.machine.Writes writes t.machine where
  nil _ := .of_eq rfl rfl
  append h hlater := h.append hlater
  step := writes_step
  flush _ := .of_eq rfl rfl

/-- **The sessions that a command makes its steps from**, in order. -/
def stepsOf (fuel : Nat) (s : Session κ) : Command → List (Session κ)
  | .step => [s]
  | .run limit => s.departures limit fuel
  | .setRegister .. | .push _ | .pop | .setPointer _ | .countStep | .read | .write _ | .flush => []

/-- **What a command writes to registers and memory**, in order: what it writes from outside,
and what its steps write. -/
def writesOf (fuel : Nat) (s : Session κ) (c : Command) : List (Place × Word) :=
  c.writes ++ (s.stepsOf fuel c).filterMap written?

/-- **A command makes steps, and a relation that gathers what is noted at steps holds of it, or
it makes none**, and does no more to registers, memory and the instruction decoded last than
what it writes from outside. -/
theorem Gathers.perform {β : Type} {note? : Session κ → Option β}
    {R : Session κ → List β → Session κ → Prop} (hR : Gathers note? R) {fuel : Nat}
    {s t : Session κ} {c : Command} {reply : Reply} (h : s.perform? fuel c = some (reply, t)) :
    c.writes = [] ∧ R s ((s.stepsOf fuel c).filterMap note?) t
      ∨ s.stepsOf fuel c = [] ∧ t.machine.lastDecoded = s.machine.lastDecoded
        ∧ s.machine.Writes c.writes t.machine := by
  cases c with
  | step =>
    cases h
    refine .inl ⟨rfl, ?_⟩
    rw [stepsOf, List.filterMap_eq_flatMap_toList, List.flatMap_singleton]
    exact hR.step s
  | run limit =>
    obtain ⟨⟨e, u⟩, hrun, hreply⟩ := Option.map_eq_some_iff.mp h
    obtain rfl : u = t := congrArg Prod.snd hreply
    exact .inl ⟨rfl, hR.run hrun⟩
  | setRegister r w =>
    cases h
    exact .inr ⟨rfl, rfl, .write s.machine w (.register r)⟩
  | pop =>
    cases h
    exact .inr ⟨rfl, rfl, .of_eq s.machine.toProcessor.registers_pop rfl⟩
  | read =>
    simp only [perform?] at h
    rcases hread : Console.read s.console with ⟨message | got, k⟩ <;>
      rw [hread] at h <;> cases h <;> exact .inr ⟨rfl, rfl, .of_eq rfl rfl⟩
  | _ =>
    cases h
    exact .inr ⟨rfl, rfl, .of_eq rfl rfl⟩

/-- **A command writes what it says it writes.** -/
theorem writes_perform {fuel : Nat} {s t : Session κ} {c : Command} {reply : Reply}
    (h : s.perform? fuel c = some (reply, t)) :
    s.machine.Writes (s.writesOf fuel c) t.machine := by
  rcases gathers_writes.perform h with ⟨houtside, hwrites⟩ | ⟨hsteps, -, hwrites⟩
  · rw [writesOf, houtside]
    exact hwrites
  · rw [writesOf, hsteps]
    exact (List.append_nil c.writes).symm ▸ hwrites

end Session

end RegisterMachine
