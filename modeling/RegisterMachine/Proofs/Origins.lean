import Mathlib.Data.Set.Defs
import RegisterMachine.Proofs.Arithmetic
import RegisterMachine.Proofs.Paths
import RegisterMachine.Proofs.Places

/-!
# Where wide words come from

A word has 16 bits, and a memory address or a result of arithmetic has 15 of them. Wider
words get into a program with its image, and an `rmem` takes them into a register, from
where they go wherever words go. **They are never made**: a machine ends up with no word
above 32768 that it did not start with, and the only other one that no result and no
literal can be is 32768 itself, the address just past the last word of the memory
(`Machine.words_not_made`).

To see this, one has to look at each instruction once and ask where the words of its
effect are taken from (`Machine.Draws`): from the machine, from the literals and results
below 32768, or from the address of the next instruction. Only the last can be 32768, and
it can only when the instruction ends with the last word of the memory.
-/

namespace RegisterMachine

/-- **A fault names a word**: the offset that is no address, or the address at which there
is no instruction. -/
inductive Fault.Names (w : Word) : Fault → Prop where
  | offset {address : Word} : Names w (.offsetOutOfRange w address)
  | pointer : Names w (.pointerOutOfRange w)

namespace Machine

/-- **A word is somewhere in a machine**: in a register, in the memory or on the stack, or
it is the instruction pointer. -/
inductive Contains (m : Machine) (w : Word) : Prop where
  | register (r : Register) : m.get r = w → Contains m w
  | cell (a : Address) : m.memory.get a = w → Contains m w
  | stack : w ∈ m.stack → Contains m w
  | pointer : m.ip = w → Contains m w

/-- A word that an instruction can come by: it is somewhere in the machine, or it is no
greater than a literal. -/
def AtHand (m : Machine) (w : Word) : Prop := m.Contains w ∨ w ≤ Word.maxLiteral

/-- Only processor and memory matter. -/
theorem Contains.congr {m m' : Machine} {w : Word} (hprocessor : m.toProcessor = m'.toProcessor)
    (hmemory : m.memory = m'.memory) (h : m.Contains w) : m'.Contains w := by
  cases h with
  | register r hr =>
    refine .register r ?_
    rw [← hprocessor]
    exact hr
  | cell a ha =>
    refine .cell a ?_
    rw [← hmemory]
    exact ha
  | stack hs =>
    refine .stack ?_
    rw [← hprocessor]
    exact hs
  | pointer hip =>
    refine .pointer ?_
    rw [← hprocessor]
    exact hip

/-! ## The words of an effect -/

/-- The value of an operand is at hand. -/
theorem atHand_value (m : Machine) (o : Operand) : m.AtHand (m.value o) := by
  cases o with
  | literal n =>
    refine .inr (UInt16.le_iff_toNat_le.mpr ?_)
    show n.toWord.toNat ≤ Word.maxLiteral.toNat
    rw [n.toNat_toWord]
    exact Nat.le_of_lt_succ n.isLt
  | register r => exact .inl (.register r rfl)

/-- What is loaded is at hand. -/
theorem atHand_of_load? {m : Machine} {offset w : Word} (h : m.memory.load? offset = some w) :
    m.AtHand w := by
  obtain ⟨hlt, hget⟩ := Memory.load?_eq_some_iff.mp h
  exact .inl (.cell ⟨offset.toNat, hlt⟩ hget)

/-- **An effect draws on the machine**: the word that is written and the words on the
stack are at hand, and so is the address to go on at, apart from the address of the next
instruction. That one is where most instructions go on, and a `call` puts it on the
stack. -/
structure Draws (m : Machine) (next : Word) (i : Instruction Operand) (e : Effect) : Prop where
  ip : e.ip = next ∨ m.AtHand e.ip
  stack : (∀ w ∈ e.stack, m.AtHand w) ∨ ∃ target, i = .call target ∧ e.stack = next :: m.stack
  write : ∀ {w place}, e.write = some (w, place) → m.AtHand w

/-- **Every effect does.** -/
theorem Yields.draws {κ : Type} [Console κ] {m : Machine} {next : Word} {k k' : κ}
    {i : Instruction Operand} {e : Effect} (h : m.Yields next k i e k') : m.Draws next i e := by
  have hstack : ∀ w ∈ m.stack, m.AtHand w := fun w hw => .inl (.stack hw)
  have hassign : ∀ {dst : Operand} {w : Word}, m.AtHand w →
      m.Draws next i (m.assign next dst w) := fun hw =>
    ⟨.inl rfl, .inl hstack, fun hwrite => by cases hwrite; exact hw⟩
  cases h with
  | halt | noop | jtPassed _ | jfPassed _ | returned _ | output _ =>
    exact ⟨.inl rfl, .inl hstack, nofun⟩
  | jmp | jtTaken _ | jfTaken _ => exact ⟨.inr (m.atHand_value _), .inl hstack, nofun⟩
  | call => exact ⟨.inr (m.atHand_value _), .inr ⟨_, rfl, rfl⟩, nofun⟩
  | push => exact ⟨.inl rfl, .inl (List.forall_mem_cons.mpr ⟨m.atHand_value _, hstack⟩), nofun⟩
  | pop hs =>
    rw [hs] at hstack
    obtain ⟨hw, hrest⟩ := List.forall_mem_cons.mp hstack
    exact ⟨.inl rfl, .inl hrest, fun hwrite => by cases hwrite; exact hw⟩
  | ret hs =>
    rw [hs] at hstack
    obtain ⟨htarget, hrest⟩ := List.forall_mem_cons.mp hstack
    exact ⟨.inr htarget, .inl hrest, nofun⟩
  | set => exact hassign (m.atHand_value _)
  | rmem hload => exact hassign (atHand_of_load? hload)
  | wmem _ => exact ⟨.inl rfl, .inl hstack, fun hwrite => by cases hwrite; exact m.atHand_value _⟩
  -- what is computed, and what is read, is cut down to 15 bits
  | binary happly => exact hassign (.inr (BinaryOp.le_maxLiteral_of_apply happly))
  | not =>
    refine hassign (.inr (UInt16.le_iff_toNat_le.mpr ?_))
    rw [Word.toNat_complement]
    exact Nat.sub_le _ _
  | @input dst b _ _ =>
    refine hassign (.inr (UInt16.le_iff_toNat_le.mpr ?_))
    have hb : b.toNat < 256 := b.toNat_lt
    have hmax : Word.maxLiteral.toNat = 32767 := rfl
    rw [UInt8.toNat_toUInt16]
    omega

/-- What is in the machine after an effect was there before, or comes with the effect. -/
theorem contains_perform {m : Machine} {e : Effect} {w : Word} (h : (m.perform e).Contains w) :
    m.Contains w ∨ (∃ place, e.write = some (w, place)) ∨ w ∈ e.stack ∨ e.ip = w := by
  -- at a place there is what was written to it, or what was there before
  have hplace : ∀ place, (m.perform e).wordAt place = w →
      m.wordAt place = w ∨ e.write = some (w, place) := by
    intro place hw
    by_cases hwritten : ∃ v, e.write = some (v, place)
    · obtain ⟨v, hwrite⟩ := hwritten
      obtain rfl : v = w := (wordAt_perform hwrite).symm.trans hw
      exact .inr hwrite
    · exact .inl ((wordAt_perform_of_ne (not_exists.mp hwritten)).symm.trans hw)
  cases h with
  | stack hs => exact .inr (.inr (.inl hs))
  | pointer hip => exact .inr (.inr (.inr hip))
  | register r hr =>
    exact (hplace (.register r) hr).imp (.register r) fun hwrite => .inl ⟨_, hwrite⟩
  | cell a ha => exact (hplace (.cell a) ha).imp (.cell a) fun hwrite => .inl ⟨_, hwrite⟩

/-! ## Steps and runs -/

/-- **A step goes past the end of the memory**: its instruction ends with the last word,
and the address behind it, which is none, becomes the instruction pointer, or is left on
the stack by a `call`. -/
inductive PassesEnd (m m' : Machine) : Prop where
  | pointer {i : Instruction Word} : m.Executes i → m.ip.toNat + i.opcode.arity = 32767 →
      m'.ip = 32768 → PassesEnd m m'
  | returnAddress {target : Word} : m.Executes (.call target) → m.ip.toNat + 1 = 32767 →
      m'.stack = 32768 :: m.stack → PassesEnd m m'

variable {m m' : Machine} {w : Word}

/-- The address behind an instruction that does not end the memory is no greater than a
literal. -/
theorem behind_le_or {i : Instruction Word} (h : m.Fetches i) :
    m.behind i ≤ Word.maxLiteral
      ∨ (m.ip.toNat + i.opcode.arity = 32767 ∧ m.behind i = 32768) := by
  have hbehind := h.toNat_behind
  have hle := h.le_memoryWords
  have hwords : memoryWords = 32768 := rfl
  by_cases hlast : m.ip.toNat + i.opcode.arity = 32767
  · refine .inr ⟨hlast, UInt16.toNat_inj.mp ?_⟩
    show (m.behind i).toNat = 32768
    omega
  · refine .inl (UInt16.le_iff_toNat_le.mpr ?_)
    show (m.behind i).toNat ≤ 32767
    omega

/-- **A step makes no word beyond 15 bits**, unless it goes past the end of the memory. -/
theorem StepsTo.contains (h : m.StepsTo m') (hw : m'.Contains w) :
    m.AtHand w ∨ (w = 32768 ∧ m.PassesEnd m') := by
  obtain ⟨κ, _, k, rfl⟩ := h
  rcases (⟨m, k⟩ : Session κ).step_effect with
    ⟨-, -, hprocessor, hmemory⟩ | ⟨i, e, k', hi, hyields, hstep⟩
  · exact .inl (.inl (hw.congr hprocessor hmemory))
  have hdraws := hyields.draws
  have hmarked : ∀ {v : Word}, m.marked.AtHand v → m.AtHand v := by
    rintro v (hv | hle)
    · exact .inl (hv.congr m.marked_toProcessor m.marked_memory)
    · exact .inr hle
  rw [hstep] at hw ⊢
  -- what is new was written, or is on the stack, or is the instruction pointer
  rcases contains_perform hw with hold | ⟨place, hwrite⟩ | hmem | rfl
  · exact .inl (hmarked (.inl hold))
  · exact .inl (hmarked (hdraws.write hwrite))
  · rcases hdraws.stack with hall | ⟨target, htarget, hstack⟩
    · exact .inl (hmarked (hall w hmem))
    · rw [hstack] at hmem
      rcases List.mem_cons.mp hmem with rfl | hmem
      · rcases behind_le_or hi.1 with hle | ⟨hlast, hpast⟩
        · exact .inl (.inr hle)
        · refine .inr ⟨hpast, ?_⟩
          cases i with
          | call target' => exact .returnAddress hi hlast (hstack.trans (by rw [hpast]; rfl))
          | _ => cases htarget
      · exact .inl (.inl (.stack hmem))
  · rcases hdraws.ip with hnext | hhand
    · rcases behind_le_or hi.1 with hle | ⟨hlast, hpast⟩
      · exact .inl (.inr (hnext ▸ hle))
      · exact .inr ⟨hnext.trans hpast, .pointer hi hlast (hnext.trans hpast)⟩
    · exact .inl (hmarked hhand)

/-- **Nor do many steps**, and if one of them goes past the end of the memory, the machine
was on its way then. -/
theorem LeadsTo.contains (h : m.LeadsTo m') (hw : m'.Contains w) :
    m.AtHand w ∨ (w = 32768 ∧ ∃ m₁ m₂, m.LeadsTo m₁ ∧ m₁.StepsTo m₂ ∧ m₁.PassesEnd m₂
      ∧ m₂.LeadsTo m') := by
  have hsteps := leadsTo_iff.mp h
  clear h
  induction hsteps with
  | refl => exact .inl (.inl hw)
  | @tail m' m'' hbefore hlast ih =>
    rcases hlast.contains hw with (hold | hle) | ⟨rfl, hpasses⟩
    · refine (ih hold).imp_right fun ⟨heq, m₁, m₂, h₁, hstep, hpasses, h₂⟩ => ?_
      exact ⟨heq, m₁, m₂, h₁, hstep, hpasses, h₂.tail (.inl hlast)⟩
    · exact .inl (.inr hle)
    · exact .inr ⟨rfl, m', m'', leadsTo_iff.mpr hbefore, hlast, hpasses, .refl⟩

/-- **A machine reports a word**: a step or a run of it, over some console, ends in a fault
that names the word. -/
def Reports (m : Machine) (w : Word) : Prop :=
  ∃ (κ : Type) (_ : Console κ) (k : κ) (fault : Fault), fault.Names w
    ∧ ((⟨m, k⟩ : Session κ).step.1 = .ended (.failed fault)
      ∨ ∃ (limit : Option UInt64) (fuel : Nat) (t : Session κ),
          (⟨m, k⟩ : Session κ).run? limit fuel = some (.failed fault, t))

/-- A value that is no address is the content of a register. -/
theorem contains_wordValue {address : Word} (h : memoryWords ≤ (m.wordValue address).toNat) :
    m.Contains (m.wordValue address) := by
  rw [← value_named] at h ⊢
  cases ho : Operand.named address with
  | register r => exact .register r rfl
  | literal n =>
    rw [ho] at h
    change memoryWords ≤ n.toWord.toNat at h
    rw [n.toNat_toWord] at h
    exact absurd n.isLt (Nat.not_lt.mpr h)

/-- **What a step reports is in the machine.** -/
theorem contains_of_step_failed {κ : Type} [Console κ] {s : Session κ} {fault : Fault}
    (h : s.step.1 = .ended (.failed fault)) (hw : fault.Names w) : s.machine.Contains w := by
  obtain ⟨status, hverdict⟩ := s.exists_verdict
  rw [Session.step_of_verdict hverdict] at h
  cases hverdict with
  | beyond _ | cutOff _ _ =>
    cases h
    cases hw
    exact .pointer rfl
  | readOutOfRange _ hrange | writeOutOfRange _ hrange =>
    cases h
    cases hw
    exact contains_wordValue hrange
  | _ =>
    cases h <;> cases hw

/-- What a run reports is in the machine when the run ends. -/
theorem Reports.exists_contains (h : m.Reports w) : ∃ m', m.LeadsTo m' ∧ m'.Contains w := by
  obtain ⟨κ, _, k, fault, hnames, hstep | ⟨limit, fuel, t, hrun⟩⟩ := h
  · exact ⟨m, .refl, contains_of_step_failed hstep hnames⟩
  · have hfault : ∀ message, fault ≠ .console message := by
      rintro message rfl
      cases hnames
    obtain ⟨n, u, hreaches, hstep⟩ := Session.exists_step_of_run?_failed hrun hfault
    exact ⟨u.machine, leadsTo_iff.mpr (steps_of_reaches hreaches),
      contains_of_step_failed hstep hnames⟩

/-- **No word is made beyond 15 bits but the address just past the memory.** Let a machine
be driven by any number of steps and runs, of whatever end, over any consoles. If all its
words are in a set that contains every word up to 32768, they stay in that set. A word
above 32768 that is somewhere in the machine, or is reported as an offset that is no
address or as an address without an instruction, was in the machine at the start. And if
there is a word above 32767 that was not, it is 32768, and a step on the way has put it
there by going past the end of the memory. -/
theorem words_not_made (m : Machine) :
    (∀ S : Set Word, (∀ w ≤ 32768, w ∈ S) → (∀ w, m.Contains w → w ∈ S) →
        ∀ m', m.LeadsTo m' → ∀ w, m'.Contains w → w ∈ S)
      ∧ (∀ m' w, m.LeadsTo m' → 32768 < w → m'.Contains w ∨ m'.Reports w → m.Contains w)
      ∧ ∀ m' w, m.LeadsTo m' → Word.maxLiteral < w → m'.Contains w → ¬ m.Contains w →
          w = 32768 ∧ ∃ m₁ m₂, m.LeadsTo m₁ ∧ m₁.StepsTo m₂ ∧ m₁.PassesEnd m₂
            ∧ m₂.LeadsTo m' := by
  have hmax : Word.maxLiteral ≤ 32768 := by decide
  have hold : ∀ m' w, m.LeadsTo m' → 32768 < w → m'.Contains w → m.Contains w := by
    intro m' w h hlt hw
    rcases h.contains hw with (hw | hle) | ⟨rfl, -⟩
    · exact hw
    · exact absurd (UInt16.le_trans hle hmax) (UInt16.not_le.mpr hlt)
    · exact absurd hlt (UInt16.lt_irrefl _)
  refine ⟨fun S hS hm m' h w hw => ?_, fun m' w h hlt hw => ?_, fun m' w h hlt hw hnot => ?_⟩
  · rcases h.contains hw with (hw | hle) | ⟨rfl, -⟩
    · exact hm w hw
    · exact hS w (UInt16.le_trans hle hmax)
    · exact hS 32768 (UInt16.le_refl _)
  · rcases hw with hw | hreports
    · exact hold m' w h hlt hw
    · obtain ⟨m'', hlater, hw⟩ := hreports.exists_contains
      exact hold m'' w (h.trans hlater) hlt hw
  · rcases h.contains hw with (hw | hle) | hpast
    · exact absurd hw hnot
    · exact absurd hle (UInt16.not_le.mpr hlt)
    · exact hpast

/-- A `call` that ends the memory, in a machine all of whose words are addresses: its step
leaves 32768 on the stack, and no word is greater than that. -/
theorem words_not_made_call_at_end :
    let m : Machine := { Machine.ofMemory ((Memory.empty.set 32766 17).set 32767 5) with
      ip := 32766 }
    ∃ m', m.LeadsTo m' ∧ m'.stack = [32768] ∧ (∀ w, m'.Contains w → w ≤ 32768)
      ∧ ∃ m₁ m₂, m.LeadsTo m₁ ∧ m₁.StepsTo m₂ ∧ m₁.PassesEnd m₂ ∧ m₂.LeadsTo m' := by
  intro m
  have hfirst : m.memory.get 32766 = 17 :=
    (Memory.get_set_of_ne _ 5 (by decide)).trans (Memory.get_set_self _ _ 17)
  have hsecond : m.memory.get 32767 = 5 := Memory.get_set_self _ _ 5
  have hcalls : m.Executes (.call 5) :=
    ⟨Memory.holds_cons_iff.mpr ⟨⟨by decide, hfirst⟩,
      Memory.holds_cons_iff.mpr ⟨⟨by decide, hsecond⟩, List.nil_prefix⟩⟩, by decide⟩
  have hwords : ∀ w, m.Contains w → w ≤ Word.maxLiteral := by
    intro w hw
    cases hw with
    | register r hr =>
      obtain rfl : 0 = w := (Vector.getElem_replicate r.isLt).symm.trans hr
      decide
    | cell a ha =>
      by_cases hlast : a = 32767
      · rw [← ha, hlast, hsecond]
        decide
      by_cases hlast' : a = 32766
      · rw [← ha, hlast', hfirst]
        decide
      · have hzero : m.memory.get a = 0 := by
          refine (Memory.get_set_of_ne _ 5 (Ne.symm hlast)).trans ?_
          exact (Memory.get_set_of_ne _ 17 (Ne.symm hlast')).trans (Vector.getElem_replicate a.isLt)
        rw [← ha, hzero]
        decide
    | stack hs => cases hs
    | pointer hip =>
      rw [← hip]
      decide
  obtain ⟨m', hstep⟩ := m.exists_stepsTo
  have hstack : m'.stack = [32768] := hstep.stack_of_call hcalls
  have hleads : m.LeadsTo m' := .single (.inl hstep)
  obtain ⟨hset, -, hnew⟩ := words_not_made m
  refine ⟨m', hleads, hstack, ?_, ?_⟩
  · exact hset {w | w ≤ 32768} (fun w hw => hw)
      (fun w hw => UInt16.le_trans (hwords w hw) (by decide)) m' hleads
  · refine (hnew m' 32768 hleads (by decide) (.stack ?_) fun hbefore => ?_).2
    · rw [hstack]
      exact List.mem_singleton_self _
    · exact absurd (hwords _ hbefore) (by decide)

end Machine

end RegisterMachine
