import Mathlib.Data.Set.Defs
import RegisterMachine.Console.Buffer
import RegisterMachine.Proofs.Runs
import RegisterMachine.Proofs.Verdicts
import RegisterMachine.Session.Run

/-!
# What is not read makes no difference

A step looks at few words of the memory: those of the instruction at the
instruction pointer, and the one that an `rmem` reads (`Machine.Consults`). The
other words may hold anything. Two machines that are alike but for some words do
the same, step by step, **as long as the first of them consults none of those
words** (`Session.steps_and_runs_agree_outside`), and they stay alike but for
those words. Writing to them is allowed: both machines write the same word.

The instruction that is decoded depends on the consulted words alone
(`Memory.decode_congr`). The effect of an instruction depends on the processor
and on what an `rmem` reads (`Machine.effect_congr`), so the two machines have
one effect between them, and to carry out one effect on both is to write one
word at one place. No instruction is looked at besides `rmem`.
-/

namespace RegisterMachine

/-- As many operands are read as the opcode has. -/
theorem Instruction.assemble_congr {α : Type} {o : Opcode} {f g : Nat → α}
    (h : ∀ j < o.arity, f j = g j) : assemble o f = assemble o g := by
  have hoperands : (assemble o g).operands
      = (List.range (assemble o g).opcode.arity).map f := by
    rw [operands_assemble, opcode_assemble]
    exact List.map_congr_left fun j hj => (h j (List.mem_range.mp hj)).symm
  have hsame := assemble_of_operands hoperands
  rw [opcode_assemble] at hsame
  exact hsame

namespace Memory

variable {m m' : Memory}

/-- Loading looks at one word, if there is one at that offset. -/
theorem load?_congr {offset : Word}
    (h : ∀ hlt : offset.toNat < memoryWords,
      m.get ⟨offset.toNat, hlt⟩ = m'.get ⟨offset.toNat, hlt⟩) :
    m.load? offset = m'.load? offset := by
  unfold load? Address.ofWord?
  by_cases hlt : offset.toNat < memoryWords
  · rw [dif_pos hlt, Option.map_some, Option.map_some, h hlt]
  · rw [dif_neg hlt]
    rfl

/-- Inside the memory, the word at a number is the word at an address. -/
theorem wordAt_of_lt (m : Memory) {n : Nat} (h : n < memoryWords) : m.wordAt n = m.get ⟨n, h⟩ := by
  rw [wordAt, Vector.getElem?_eq_getElem h]
  rfl

/-- **Decoding looks at the opcode word and at the operand words behind it**, and at no
other word. -/
theorem decode_congr {a : Word}
    (hopcode : ∀ h : a.toNat < memoryWords, m.get ⟨a.toNat, h⟩ = m'.get ⟨a.toNat, h⟩)
    (hoperands : ∀ (o : Opcode) (j : Nat), m.load? a = some o.number → j < o.arity →
      ∀ h : a.toNat + 1 + j < memoryWords,
        m.get ⟨a.toNat + 1 + j, h⟩ = m'.get ⟨a.toNat + 1 + j, h⟩) :
    m.decode a = m'.decode a := by
  unfold decode
  rw [← load?_congr hopcode]
  cases hload : m.load? a with
  | none => rfl
  | some w =>
    dsimp only
    cases ho : Opcode.ofNumber? w with
    | none => rfl
    | some o =>
      obtain rfl := Opcode.ofNumber?_eq_some_iff.mp ho
      dsimp only
      by_cases hfits : a.toNat + 1 + o.arity ≤ memoryWords
      · have hsame : Instruction.assemble o (fun j => m.wordAt (a.toNat + 1 + j))
            = Instruction.assemble o fun j => m'.wordAt (a.toNat + 1 + j) := by
          refine Instruction.assemble_congr fun j hj => ?_
          have hlt : a.toNat + 1 + j < memoryWords := by omega
          rw [wordAt_of_lt m hlt, wordAt_of_lt m' hlt]
          exact hoperands o j hload hj hlt
        rw [if_pos hfits, if_pos hfits, hsame]
      · rw [if_neg hfits, if_neg hfits]

end Memory

namespace Machine

/-- **A step of this machine looks at the memory word at an address.** -/
inductive Consults (m : Machine) : Address → Prop where
  /-- The word at the instruction pointer. -/
  | opcode (h : m.ip.toNat < memoryWords) : Consults m ⟨m.ip.toNat, h⟩
  /-- An operand word of the instruction that starts there, whether or not the
  memory reaches to the end of it. -/
  | operand {o : Opcode} {j : Nat} : m.memory.load? m.ip = some o.number → j < o.arity →
      (h : m.ip.toNat + 1 + j < memoryWords) → Consults m ⟨m.ip.toNat + 1 + j, h⟩
  /-- The word that an `rmem` reads. -/
  | data {dst address : Word} : m.Executes (.rmem dst address) →
      (h : (m.wordValue address).toNat < memoryWords) →
      Consults m ⟨(m.wordValue address).toNat, h⟩

/-- One instruction at most stands at the instruction pointer. -/
theorem Fetches.unique {m : Machine} {i j : Instruction Word} (hi : m.Fetches i)
    (hj : m.Fetches j) : i = j := by
  have hsame := (Memory.decode_of_holds hi).symm.trans (Memory.decode_of_holds hj)
  exact (Prod.mk.inj (Except.ok.inj hsame)).1

/-- **An instruction that is no `rmem` consults nothing but its own words.** -/
theorem Consults.mem_words {m : Machine} {i : Instruction Word} {a : Address}
    (hfetches : m.Fetches i) (hrmem : ∀ dst address, i ≠ .rmem dst address) (h : m.Consults a) :
    m.ip.toNat ≤ a.val ∧ a.val ≤ m.ip.toNat + i.opcode.arity := by
  cases h with
  | opcode hlt => exact ⟨Nat.le_refl _, Nat.le_add_right _ _⟩
  | @operand o j hload hj hlt =>
    -- the opcode whose operands are looked at is that of the instruction
    have hopcode : m.memory.load? m.ip = some i.opcode.number :=
      Memory.load?_eq_some_iff.mpr (Memory.holds_cons_iff.mp hfetches).1
    obtain rfl : i.opcode = o := by
      have hnumber := congrArg Opcode.ofNumber? (Option.some.inj (hopcode.symm.trans hload))
      rw [Opcode.ofNumber?_number, Opcode.ofNumber?_number] at hnumber
      exact Option.some.inj hnumber
    dsimp only
    omega
  | @data dst address hexecutes hlt =>
    exact absurd (hfetches.unique hexecutes.1) (hrmem dst address)

/-- **Two machines agree outside a set of addresses**: they have the same registers,
stack, instruction pointer and count, and the same word at every other address. -/
structure AgreeOutside (K : Set Address) (m m' : Machine) : Prop where
  processor : m.toProcessor = m'.toProcessor
  memory : ∀ a, a ∉ K → m.memory.get a = m'.memory.get a

/-- **The effect of an instruction depends on the processor**, and on the memory as far
as an `rmem` reads it. -/
theorem effect_congr {κ : Type} [Console κ] {m m' : Machine}
    (hprocessor : m.toProcessor = m'.toProcessor) {i : Instruction Operand}
    (hload : ∀ dst address, i = .rmem dst address →
      m.memory.load? (m.value address) = m'.memory.load? (m.value address))
    (next : Word) (k : κ) : m.effect next k i = m'.effect next k i := by
  obtain ⟨p, memory, last⟩ := m
  obtain ⟨p', memory', last'⟩ := m'
  obtain rfl : p = p' := hprocessor
  cases i with
  | rmem dst address =>
    have hsame := hload dst address rfl
    simp only [effect] at hsame ⊢
    rw [hsame]
    rfl
  | _ => rfl

/-- Behind its write, an effect sets the stack and the instruction pointer and is
counted. -/
theorem toProcessor_perform (m : Machine) (e : Effect) :
    (m.perform e).toProcessor = { (m.store e.write).toProcessor with
      ip := e.ip, stack := e.stack,
      steps := Processor.nextCount (m.store e.write).toProcessor.steps } := rfl

/-- What passes its checks at the instruction pointer is executed, as the operands
its words name. -/
theorem executes_of_resolve {m : Machine} {raw : Instruction Word} {next : Word}
    {i : Instruction Operand} (hdecode : m.memory.decode m.ip = .ok (raw, next))
    (hresolve : raw.resolve = .ok i) : m.Executes raw ∧ i = raw.map Operand.named := by
  have hfetches : m.Fetches raw := (Memory.decode_eq_ok_iff.mp hdecode).1
  cases hinvalid : raw.firstInvalid? with
  | some w =>
    rw [Instruction.resolve_of_invalid hinvalid] at hresolve
    cases hresolve
  | none =>
    rw [Instruction.resolve_of_valid hinvalid] at hresolve
    exact ⟨⟨hfetches, hinvalid⟩, (Except.ok.inj hresolve).symm⟩

namespace AgreeOutside

variable {K : Set Address} {m m' : Machine}

/-- Programs that differ only in words left out start in agreement. -/
theorem ofMemory {memory memory' : Memory} (h : ∀ a, a ∉ K → memory.get a = memory'.get a) :
    AgreeOutside K (.ofMemory memory) (.ofMemory memory') :=
  ⟨rfl, h⟩

/-- The machines agree on the words that the first of them consults, if it consults none
of those left out. -/
theorem get_eq (h : AgreeOutside K m m') (hK : ∀ a ∈ K, ¬ m.Consults a) {a : Address}
    (ha : m.Consults a) : m.memory.get a = m'.memory.get a :=
  h.memory a fun hmem => hK a hmem ha

/-- So they decode the same. -/
theorem decode_eq (h : AgreeOutside K m m') (hK : ∀ a ∈ K, ¬ m.Consults a) :
    m.memory.decode m.ip = m'.memory.decode m'.ip := by
  rw [← h.processor]
  exact Memory.decode_congr (fun hlt => h.get_eq hK (.opcode hlt))
    fun o j hload hj hlt => h.get_eq hK (.operand hload hj hlt)

/-- And what they decode has the same effect. -/
theorem effect_eq {κ : Type} [Console κ] (h : AgreeOutside K m m')
    (hK : ∀ a ∈ K, ¬ m.Consults a) {raw : Instruction Word} {next : Word}
    {i : Instruction Operand} (hdecode : m.memory.decode m.ip = .ok (raw, next))
    (hresolve : raw.resolve = .ok i) (k : κ) :
    m.marked.effect next k i = m'.marked.effect next k i := by
  obtain ⟨hexecutes, rfl⟩ := executes_of_resolve hdecode hresolve
  have hmarked : m.marked.toProcessor = m'.marked.toProcessor := by
    rw [marked_toProcessor, marked_toProcessor, h.processor]
  refine effect_congr hmarked (fun dst address hi => ?_) next k
  cases raw with
  | rmem dst' address' =>
    obtain ⟨-, rfl⟩ := Instruction.rmem.inj hi
    rw [value_named_marked]
    exact Memory.load?_congr fun hlt => h.get_eq hK (.data hexecutes hlt)
  | _ => cases hi

/-- To remember an instruction makes no difference. -/
theorem marked (h : AgreeOutside K m m') : AgreeOutside K m.marked m'.marked :=
  ⟨h.processor, h.memory⟩

/-- One word written at one place keeps the agreement, also at an address that is left
out. -/
theorem write (h : AgreeOutside K m m') (w : Word) (place : Place) :
    AgreeOutside K (m.write w place) (m'.write w place) := by
  cases place with
  | register r =>
    refine ⟨?_, h.memory⟩
    show m.toProcessor.set r w = m'.toProcessor.set r w
    rw [h.processor]
  | cell a =>
    refine ⟨h.processor, fun b hb => ?_⟩
    show (m.memory.set a w).get b = (m'.memory.set a w).get b
    by_cases hab : a = b
    · rw [hab, Memory.get_set_self, Memory.get_set_self]
    · rw [Memory.get_set_of_ne _ _ hab, Memory.get_set_of_ne _ _ hab, h.memory b hb]

/-- **One effect carried out on both machines keeps the agreement.** -/
theorem perform (h : AgreeOutside K m m') (e : Effect) :
    AgreeOutside K (m.perform e) (m'.perform e) := by
  have hstore : AgreeOutside K (m.store e.write) (m'.store e.write) := by
    cases e.write with
    | none => exact h
    | some written => exact h.write written.1 written.2
  refine ⟨?_, hstore.memory⟩
  rw [toProcessor_perform, toProcessor_perform, hstore.processor]

end AgreeOutside

end Machine

namespace Session

variable {κ : Type} [Console κ] {K : Set Address} {s t : Session κ}

/-- Two sessions agree outside a set of addresses: their machines do, and they have the
same console. -/
structure AgreeOutside (K : Set Address) (s t : Session κ) : Prop where
  machine : s.machine.AgreeOutside K t.machine
  console : s.console = t.console

/-- **Sessions that agree outside a set of addresses make the same step**, if the first
of them consults none of these addresses. -/
theorem AgreeOutside.step (h : AgreeOutside K s t) (hK : ∀ a ∈ K, ¬ s.machine.Consults a) :
    s.step.1 = t.step.1 ∧ AgreeOutside K s.step.2 t.step.2 := by
  obtain ⟨m, k⟩ := s
  obtain ⟨m', k'⟩ := t
  obtain ⟨hm, rfl⟩ : m.AgreeOutside K m' ∧ k = k' := ⟨h.machine, h.console⟩
  have hip : m.ip = m'.ip := congrArg Processor.ip hm.processor
  rw [step_eq, step_eq]
  dsimp only
  rw [← hm.decode_eq hK]
  cases hdecode : m.memory.decode m.ip with
  | error fault => exact ⟨rfl, hm, rfl⟩
  | ok found =>
    obtain ⟨raw, next⟩ := found
    dsimp only
    cases hresolve : raw.resolve with
    | error w =>
      unfold carryOut
      rw [hresolve]
      refine ⟨?_, hm.marked, rfl⟩
      dsimp only
      rw [hip]
    | ok i =>
      rw [carryOut_of_resolve hresolve, carryOut_of_resolve hresolve]
      dsimp only
      rw [← hm.effect_eq hK hdecode hresolve]
      rcases m.marked.effect next k i with ⟨fault | e, l⟩
      · exact ⟨rfl, hm.marked, rfl⟩
      · exact ⟨rfl, hm.marked.perform e, rfl⟩

/-- Flushing the same console at the end of a run keeps the agreement. -/
theorem AgreeOutside.close (h : AgreeOutside K s t) (e : Ending) :
    (s.close e).1 = (t.close e).1 ∧ AgreeOutside K (s.close e).2 (t.close e).2 := by
  unfold Session.close
  rw [h.console]
  exact ⟨rfl, h.machine, rfl⟩

/-- **What is not read makes no difference.** Let two sessions agree outside a set of
addresses: the same console, registers, stack, instruction pointer and count, and
the same memory at every other address. As long as no step of the first one
consults one of these addresses, both make the same steps, of the same status,
failed ones included, and go on to agree outside the set. And a run of the first
one that consults none of them comes to the same end as that of the second, or
neither comes to one. -/
theorem steps_and_runs_agree_outside (h : AgreeOutside K s t) :
    (∀ n, (∀ k < n, ∀ a ∈ K, ¬ (Execution.after Session.step k s).machine.Consults a) →
        (∀ k < n, (Execution.after Session.step k s).step.1
          = (Execution.after Session.step k t).step.1)
        ∧ AgreeOutside K (Execution.after Session.step n s) (Execution.after Session.step n t))
      ∧ ∀ limit fuel,
        (∀ n u, Execution.Reaches Session.step (fun s => s.machine.steps) limit n s u →
          Execution.limitReached limit u.machine.steps = false →
          ∀ a ∈ K, ¬ u.machine.Consults a) →
        Execution.Agree (AgreeOutside K) (s.run? limit fuel) (t.run? limit fuel) := by
  have hstep : ∀ {s t : Session κ}, AgreeOutside K s t →
      (¬ ∀ a ∈ K, ¬ s.machine.Consults a)
        ∨ (s.step.1 = t.step.1 ∧ AgreeOutside K s.step.2 t.step.2) := by
    intro s t hst
    by_cases hK : ∀ a ∈ K, ¬ s.machine.Consults a
    · exact .inr (hst.step hK)
    · exact .inl hK
  refine ⟨fun n hK => Execution.after_follows hstep n h fun k hk => not_not_intro (hK k hk),
    fun limit fuel hK => ?_⟩
  have hloop : Execution.Agree (AgreeOutside K) (s.loop? limit fuel) (t.loop? limit fuel) := by
    rcases Execution.run?_follows (fun hst => congrArg Processor.steps hst.machine.processor)
      hstep fuel h with ⟨n, u, v, -, hu, -, -, hlimit, hconsults⟩ | hagree
    · exact absurd (hK n u hu hlimit) hconsults
    · exact hagree
  exact hloop.map fun huv => huv.close _

/-- Two memories that differ in one word, and a program that writes that word and
halts. -/
theorem steps_and_runs_agree_outside_written_word :
    let memory := ((Memory.empty.set 0 16).set 1 9).set 2 72
    let s : Session Buffer := ⟨.ofMemory memory, .ofInput []⟩
    let t : Session Buffer := ⟨.ofMemory (memory.set 9 5), .ofInput []⟩
    s.AgreeOutside {9} t ∧ t.step.1 = .running ∧ s.step.2.AgreeOutside {9} t.step.2
      ∧ s.step.2.machine.memory.get 9 = 72 := by
  intro memory s t
  have hagree : s.AgreeOutside {9} t :=
    ⟨.ofMemory fun a ha => (Memory.get_set_of_ne memory 5 (Ne.symm ha)).symm, rfl⟩
  have hfetches : s.machine.Fetches (.wmem 9 72) :=
    (Memory.decode_eq_ok_iff.mp (rfl : memory.decode 0 = .ok (.wmem 9 72, 3))).1
  have hfirst : ∀ k < 1, ∀ a ∈ ({9} : Set Address),
      ¬ (Execution.after Session.step k s).machine.Consults a := by
    intro k hk a ha hconsults
    obtain rfl : k = 0 := Nat.lt_one_iff.mp hk
    obtain rfl : a = 9 := ha
    have hwords := (hconsults.mem_words hfetches fun _ _ h => nomatch h).2
    exact absurd hwords (by decide)
  obtain ⟨hstatus, hafter⟩ := (steps_and_runs_agree_outside hagree).1 1 hfirst
  have hrunning : s.step.1 = .running := by decide
  exact ⟨hagree, (hstatus 0 Nat.one_pos).symm.trans hrunning, hafter, by decide⟩

end Session

end RegisterMachine
