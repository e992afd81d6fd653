import RegisterMachine.Proofs.Writes

/-!
# Which instruction an operand word is blamed on

A word that names no operand is refused also where no instruction asks for it, when it is
looked up from outside between two steps, and the fault has to say some address then. It says
`Machine.lastDecoded`, which is a word of its own in a machine. The instruction pointer would
not do: it has moved on, by jumps, or was moved from outside.

**The address is the one that the last decoded instruction stands at**, and whether that
instruction was executed in the end makes no difference (`Machine.History.blames_last_decoded`).
A step that finds no instruction decodes none, and leaves the address alone, as everything does
that is no step. A word that names an operand is never refused: it is read as itself or as what
its register was last given, and written to as the place it names.
-/

namespace RegisterMachine

/-! ## Looking a word up -/

/-- A word that names a place names the operand that is written there. -/
theorem Word.Names.place_named {w : Word} {place : Place} (h : w.Names place)
    (hw : ¬ Word.registerLast < w) : (Operand.named w).place = place :=
  (Operand.names_named hw).unique h

/-- Only a register is written to as a register. -/
theorem Operand.eq_register_of_place {o : Operand} {r : Register} (h : o.place = .register r) :
    o = .register r := by
  cases o with
  | literal a => cases h
  | register r' => rw [Place.register.inj h]

namespace Machine

variable {w : Word}

/-- **A word beyond the last register is blamed on the instruction decoded last**, whichever
way it is looked up. -/
theorem resolve_of_lt (m : Machine) (h : Word.registerLast < w) :
    m.resolveValue w = .error (.invalidOperand w m.lastDecoded)
      ∧ m.resolvePlace w = .error (.invalidOperand w m.lastDecoded) := by
  unfold resolveValue resolvePlace operand
  rw [Operand.ofWord_of_lt h]
  exact ⟨rfl, rfl⟩

/-- **Any other word is looked up with success**, in every machine. -/
theorem resolve_of_not_lt (m : Machine) (h : ¬ Word.registerLast < w) :
    m.resolveValue w = .ok (m.value (.named w))
      ∧ m.resolvePlace w = .ok (Operand.named w).place := by
  unfold resolveValue resolvePlace operand
  rw [Operand.ofWord_of_not_lt h]
  exact ⟨rfl, rfl⟩

/-- A literal is its own value, and the address of a memory word. -/
theorem resolve_literal (m : Machine) (h : w ≤ Word.maxLiteral) :
    m.resolveValue w = .ok w ∧ ∃ a : Address, a.val = w.toNat ∧ m.resolvePlace w = .ok (.cell a) := by
  have hle : w.toNat ≤ 32767 := UInt16.le_iff_toNat_le.mp h
  have hvalid : ¬ Word.registerLast < w := fun hlt =>
    absurd (UInt16.lt_iff_toNat_lt.mp hlt) (show ¬ 32775 < w.toNat by omega)
  let a : Address := ⟨w.toNat, Nat.lt_succ_of_le hle⟩
  have hnames : w.Names (.cell a) := rfl
  obtain ⟨hvalue, hplace⟩ := m.resolve_of_not_lt hvalid
  refine ⟨?_, a, rfl, ?_⟩
  · rw [hvalue, value_named, wordValue, if_pos h]
  · rw [hplace, hnames.place_named hvalid]

/-- A register has its content as value, and is a place itself. -/
theorem resolve_register (m : Machine) {r : Register} (h : w.toNat = 32768 + r.val) :
    m.resolveValue w = .ok (m.wordAt (.register r)) ∧ m.resolvePlace w = .ok (.register r) := by
  have hr : r.val < 8 := r.isLt
  have hvalid : ¬ Word.registerLast < w := fun hlt =>
    absurd (UInt16.lt_iff_toNat_lt.mp hlt) (show ¬ 32775 < w.toNat by omega)
  have hnames : w.Names (.register r) := h
  have hplace : (Operand.named w).place = .register r := hnames.place_named hvalid
  obtain ⟨hvalue, hnamed⟩ := m.resolve_of_not_lt hvalid
  rw [hvalue, hnamed, Operand.eq_register_of_place hplace]
  exact ⟨rfl, rfl⟩

/-- An effect decodes nothing. -/
@[simp] theorem lastDecoded_perform (m : Machine) (e : Effect) :
    (m.perform e).lastDecoded = m.lastDecoded := by
  show (m.store e.write).lastDecoded = m.lastDecoded
  rcases e.write with _ | ⟨w, _ | _⟩ <;> rfl

end Machine

/-! ## What was decoded last -/

namespace Session

variable {κ : Type} [Console κ]

/-- **The address of the instruction that the next step decodes**, if there is one at the
instruction pointer. -/
def decoded? (s : Session κ) : Option Word :=
  match s.machine.memory.decode s.machine.ip with
  | .error _ => none
  | .ok _ => some s.machine.ip

/-- **A step remembers the instruction it decodes**, also if it fails then. -/
theorem lastDecoded_step (s : Session κ) :
    s.step.2.machine.lastDecoded = s.decoded?.getD s.machine.lastDecoded := by
  rw [step_eq]
  unfold decoded?
  cases s.machine.memory.decode s.machine.ip with
  | error fault => rfl
  | ok found =>
    obtain ⟨raw, next⟩ := found
    show (s.carryOut raw next).2.machine.lastDecoded = s.machine.ip
    cases hresolve : raw.resolve with
    | error w =>
      unfold carryOut
      rw [hresolve]
      rfl
    | ok i =>
      rw [carryOut_of_resolve hresolve]
      rcases s.machine.marked.effect next s.console i with ⟨fault | e, k⟩
      · rfl
      · exact s.machine.marked.lastDecoded_perform e

/-- What was decoded last is gathered from what steps decode. -/
theorem gathers_decoded :
    Gathers (decoded? (κ := κ)) fun s addresses t =>
      t.machine.lastDecoded = addresses.getLast?.getD s.machine.lastDecoded where
  nil _ := rfl
  append {s t u xs ys} h hlater := by
    rw [hlater, h, List.getLast?_append]
    cases ys.getLast? <;> rfl
  step s := by
    rw [lastDecoded_step]
    cases s.decoded? <;> rfl
  flush _ := rfl

/-- **The addresses of the instructions that a command decodes**, in order. -/
def decodedBy (fuel : Nat) (s : Session κ) (c : Command) : List Word :=
  (s.stepsOf fuel c).filterMap decoded?

/-- **After a command the last one of these is remembered**, or the one from before. -/
theorem lastDecoded_of_perform? {fuel : Nat} {s t : Session κ} {c : Command} {reply : Reply}
    (h : s.perform? fuel c = some (reply, t)) :
    t.machine.lastDecoded = (s.decodedBy fuel c).getLast?.getD s.machine.lastDecoded := by
  rcases gathers_decoded.perform h with ⟨-, hdecoded⟩ | ⟨hsteps, hsame, -⟩
  · exact hdecoded
  · rw [decodedBy, hsteps]
    exact hsame

/-- **A command that makes no step decodes nothing**, nor does a step that finds no
instruction. -/
theorem decodedBy_eq_nil {fuel : Nat} {s : Session κ} {c : Command}
    (hstep : c = .step → ∃ fault, s.machine.memory.decode s.machine.ip = .error fault)
    (hrun : ∀ limit, c ≠ .run limit) : s.decodedBy fuel c = [] := by
  cases c with
  | step =>
    obtain ⟨fault, hfault⟩ := hstep rfl
    have hnone : s.decoded? = none := by
      rw [decoded?, hfault]
    exact List.filterMap_cons_none hnone
  | run limit => exact absurd rfl (hrun limit)
  | _ => rfl

end Session

/-! ## Histories -/

namespace Machine

/-- **What can become of a machine**, with the addresses of the instructions that were decoded
on the way and with all that was written, both in order. Every command may be over another
console. To look something up in the machine, or to decode from its memory, is no command: it
gives no other machine. -/
inductive History (built : Machine) : List Word → List (Place × Word) → Machine → Prop where
  /-- Nothing is done. -/
  | start : History built [] [] built
  /-- One more command is carried out. -/
  | command {κ : Type} [Console κ] {decoded : List Word} {writes : List (Place × Word)}
      {s t : Session κ} {fuel : Nat} {c : Command} {reply : Reply} :
      History built decoded writes s.machine → s.perform? fuel c = some (reply, t) →
      History built (decoded ++ s.decodedBy fuel c) (writes ++ s.writesOf fuel c) t.machine

namespace History

variable {built m : Machine} {decoded : List Word} {writes : List (Place × Word)}

/-- **The last of the addresses is remembered.** -/
theorem lastDecoded_eq (h : built.History decoded writes m) :
    m.lastDecoded = decoded.getLast?.getD built.lastDecoded := by
  induction h with
  | start => rfl
  | @command κ _ decoded writes s t fuel c reply _ hperform ih =>
    rw [Session.lastDecoded_of_perform? hperform, ih, List.getLast?_append]
    cases (s.decodedBy fuel c).getLast? <;> rfl

/-- **All that was written to the machine is this.** -/
theorem writes_eq (h : built.History decoded writes m) : built.Writes writes m := by
  induction h with
  | start => exact .of_eq rfl rfl
  | command _ hperform ih => exact ih.append (Session.writes_perform hperform)

/-- **A bad operand word is blamed on the instruction decoded last, and no other word is
refused.** Whatever was done with a machine that a memory was put into, a word above 32775 is
refused as a value and as a destination, with the address of the last instruction that a step
of it has decoded, and with zero if none has. It stays the same address through a step that
finds no instruction and through every command that makes no step. A word up to 32767 is its
own value and names a memory word, and the eight words behind it name the registers, which have
the value that was last written to them, or zero. -/
theorem blames_last_decoded (memory : Memory)
    (h : (Machine.ofMemory memory).History decoded writes m) :
    (∀ w : Word, 32775 < w →
        m.resolveValue w = .error (.invalidOperand w (decoded.getLast?.getD 0))
          ∧ m.resolvePlace w = .error (.invalidOperand w (decoded.getLast?.getD 0)))
      ∧ (∀ (κ : Type) [Console κ] (k : κ) fuel c reply t,
          (⟨m, k⟩ : Session κ).perform? fuel c = some (reply, t) →
          (c = .step → ∃ fault, m.memory.decode m.ip = .error fault) → (∀ limit, c ≠ .run limit) →
          ∀ w : Word, 32775 < w → t.machine.resolveValue w = m.resolveValue w
            ∧ t.machine.resolvePlace w = m.resolvePlace w)
      ∧ (∀ w : Word, w ≤ 32767 → m.resolveValue w = .ok w
          ∧ ∃ a : Address, a.val = w.toNat ∧ m.resolvePlace w = .ok (.cell a))
      ∧ ∀ (r : Register) (w : Word), w.toNat = 32768 + r.val →
          m.resolveValue w = .ok (((Place.register r).lastWritten? writes).getD 0)
            ∧ m.resolvePlace w = .ok (.register r) := by
  refine ⟨fun w hw => ?_, fun κ _ k fuel c reply t hperform hstep hrun w hw => ?_,
    fun w hw => m.resolve_literal hw, fun r w hw => ?_⟩
  · have haddress : m.lastDecoded = decoded.getLast?.getD 0 := h.lastDecoded_eq
    rw [← haddress]
    exact m.resolve_of_lt hw
  · have hsame : t.machine.lastDecoded = m.lastDecoded := by
      rw [Session.lastDecoded_of_perform? hperform, Session.decodedBy_eq_nil hstep hrun]
      rfl
    obtain ⟨hvalue, hplace⟩ := m.resolve_of_lt hw
    rw [hvalue, hplace, ← hsame]
    exact t.machine.resolve_of_lt hw
  · have hzero : (Machine.ofMemory memory).wordAt (.register r) = 0 :=
      Vector.getElem_replicate r.isLt
    rw [← hzero, ← h.writes_eq.wordAt]
    exact m.resolve_register hw

/-- A `noop` and a `pop` that finds nothing, then a word for a register and a jump out of the
memory from outside, and a step from there: it is the `pop` that is blamed. -/
theorem blames_last_decoded_pop :
    ∃ m, (Machine.ofMemory (((Memory.empty.set 0 21).set 1 3).set 2 32768)).History
        [0, 1] [(.register 1, 7)] m
      ∧ m.ip = 40000 ∧ m.resolveValue 40000 = .error (.invalidOperand 40000 1)
      ∧ m.resolvePlace 32776 = .error (.invalidOperand 32776 1)
      ∧ m.resolveValue 32769 = .ok 7 ∧ m.resolveValue 32768 = .ok 0
      ∧ m.resolveValue 5 = .ok 5 := by
  let memory : Memory := ((Memory.empty.set 0 21).set 1 3).set 2 32768
  let s : Session Buffer := ⟨.ofMemory memory, .ofInput []⟩
  let popping : Session Buffer := s.step.2
  let failed : Session Buffer := popping.step.2
  let given : Session Buffer := failed.withProcessor (failed.machine.toProcessor.set 1 7)
  let moved : Session Buffer := given.withProcessor { given.machine.toProcessor with ip := 40000 }
  have hnoop : s.perform? 0 .step = some (.status s.step.1, popping) := s.perform?_step 0
  have hpop : popping.perform? 0 .step = some (.status popping.step.1, failed) :=
    popping.perform?_step 0
  have hgiven : failed.perform? 0 (.setRegister 1 7) = some (.done, given) := rfl
  have hmoved : given.perform? 0 (.setPointer 40000) = some (.done, moved) := rfl
  have hlost : moved.perform? 0 .step = some (.status moved.step.1, moved.step.2) :=
    moved.perform?_step 0
  have hstart : (Machine.ofMemory memory).History [] [] s.machine := .start
  have hend := ((((hstart.command hnoop).command hpop).command hgiven).command hmoved).command hlost
  -- the last step finds no instruction
  have hdecoded : [] ++ s.decodedBy 0 .step ++ popping.decodedBy 0 .step
      ++ failed.decodedBy 0 (.setRegister 1 7) ++ given.decodedBy 0 (.setPointer 40000)
      ++ moved.decodedBy 0 .step = [0, 1] := by decide +kernel
  have hwrites : [] ++ s.writesOf 0 .step ++ popping.writesOf 0 .step
      ++ failed.writesOf 0 (.setRegister 1 7) ++ given.writesOf 0 (.setPointer 40000)
      ++ moved.writesOf 0 .step = [(.register 1, 7)] := by decide +kernel
  rw [hdecoded, hwrites] at hend
  obtain ⟨hbad, -, hliteral, hregister⟩ := blames_last_decoded memory hend
  exact ⟨_, hend, rfl, (hbad 40000 (by decide)).1, (hbad 32776 (by decide)).2,
    (hregister 1 32769 rfl).1, (hregister 0 32768 rfl).1, (hliteral 5 (by decide)).1⟩

end History

end Machine

end RegisterMachine
