import RegisterMachine.Proofs.Paths

/-!
# What is on the stack comes back

A `call` leaves the way back on the stack, and nothing ties the `ret` that takes it to the
`call` that put it there. Code may jump out of a subroutine, modify itself, and push and
pop as it likes. What holds all the same is this: **a word on the stack stays what and
where it is until the stack gets shallower than it** (`Machine.LeadsAbove.suffix`). So a
`ret` returns behind a `call`, and a `pop` takes what a `push` has put, when the depth of
the stack has come back to what it was and has not been below it in between
(`Machine.stack_comes_back`).

All there is to know about the instructions is that each of them changes the stack by one
word at the top, if at all (`Machine.Yields.stack_cases`).
-/

namespace RegisterMachine.Machine

/-! ## One step -/

/-- **An effect leaves the stack as it is, puts a word on it or takes one off.** -/
theorem Yields.stack_cases {κ : Type} [Console κ] {m : Machine} {next : Word} {k k' : κ}
    {i : Instruction Operand} {e : Effect} (h : m.Yields next k i e k') :
    e.stack = m.stack ∨ (∃ w, e.stack = w :: m.stack) ∨ ∃ w, m.stack = w :: e.stack := by
  cases h with
  | push | call => exact .inr (.inl ⟨_, rfl⟩)
  | pop hs | ret hs => exact .inr (.inr ⟨_, hs⟩)
  | _ => exact .inl rfl

variable {m m' : Machine}

/-- So does a step. -/
theorem StepsTo.stack_cases (h : m.StepsTo m') :
    m'.stack = m.stack ∨ (∃ w, m'.stack = w :: m.stack) ∨ ∃ w, m.stack = w :: m'.stack := by
  obtain ⟨κ, _, k, rfl⟩ := h
  rcases (⟨m, k⟩ : Session κ).step_effect with
    ⟨-, -, hprocessor, -⟩ | ⟨i, e, k', -, hyields, hstep⟩
  · exact .inl (congrArg Processor.stack hprocessor)
  · rw [hstep]
    exact hyields.stack_cases

/-- The bottom of the stack outlasts a step that leaves the stack as deep. -/
theorem StepsTo.suffix {base : List Word} (h : m.StepsTo m') (hbase : base <:+ m.stack)
    (hdepth : base.length ≤ m'.stack.length) : base <:+ m'.stack := by
  rcases h.stack_cases with hsame | ⟨w, hpushed⟩ | ⟨w, hpopped⟩
  · rw [hsame]
    exact hbase
  · rw [hpushed]
    exact hbase.trans (List.suffix_cons w m.stack)
  · rw [hpopped] at hbase
    rcases List.suffix_cons_iff.mp hbase with hwhole | hbelow
    · -- the word that was taken is none of the base, which would be too deep with it
      rw [hwhole, List.length_cons] at hdepth
      exact absurd hdepth (Nat.not_succ_le_self _)
    · exact hbelow

/-- **A `ret` takes the top of the stack for the address to go on at.** -/
theorem StepsTo.of_ret {w : Word} {rest : List Word} (h : m.StepsTo m') (hi : m.Executes .ret)
    (hstack : m.stack = w :: rest) : m'.ip = w ∧ m'.stack = rest := by
  rw [h.eq_perform hi fun _ => .ret hstack]
  exact ⟨rfl, rfl⟩

/-- **A `pop` writes the top of the stack to its destination**, and nothing else. -/
theorem StepsTo.of_pop {dst w : Word} {rest : List Word} (h : m.StepsTo m')
    (hi : m.Executes (.pop dst)) (hstack : m.stack = w :: rest) :
    m'.registers = (m.write w (Operand.named dst).place).registers
      ∧ m'.memory = (m.write w (Operand.named dst).place).memory ∧ m'.stack = rest := by
  rw [h.eq_perform hi fun _ => .pop hstack]
  cases Operand.named dst with
  | literal a => exact ⟨rfl, rfl, rfl⟩
  | register r => exact ⟨rfl, rfl, rfl⟩

/-- A `push` puts the value of its operand on the stack. -/
theorem StepsTo.stack_of_push {src : Word} (h : m.StepsTo m') (hi : m.Executes (.push src)) :
    m'.stack = m.wordValue src :: m.stack := by
  rw [h.eq_perform hi fun _ => .push, ← value_named_marked]
  rfl

/-! ## Many steps -/

/-- **Steps that leave the stack at least so deep**, each one of them, over any consoles. -/
def LeadsAbove (depth : Nat) : Machine → Machine → Prop :=
  Relation.ReflTransGen fun m m' => m.StepsTo m' ∧ depth ≤ m'.stack.length

/-- The steps of a session are such steps, if none of them leaves the stack too shallow. -/
theorem leadsAbove_after {κ : Type} [Console κ] {depth n : Nat} {s : Session κ}
    (h : ∀ k ≤ n, depth ≤ (Execution.after Session.step k s).machine.stack.length) :
    s.machine.LeadsAbove depth (Execution.after Session.step n s).machine := by
  induction n generalizing s with
  | zero => exact .refl
  | succ n ih =>
    have hfirst : s.machine.StepsTo s.step.2.machine := ⟨κ, inferInstance, s.console, rfl⟩
    exact .head ⟨hfirst, h 1 (Nat.succ_le_succ (Nat.zero_le n))⟩
      (ih fun k hk => h (k + 1) (Nat.succ_le_succ hk))

/-- **The bottom of the stack is kept as long as the stack is as deep.** -/
theorem LeadsAbove.suffix {base : List Word} (h : m.LeadsAbove base.length m')
    (hbase : base <:+ m.stack) : base <:+ m'.stack := by
  induction h with
  | refl => exact hbase
  | tail _ hlast ih => exact hlast.1.suffix ih hlast.2

/-- When the stack is back at its depth, it is back. -/
theorem LeadsAbove.stack_eq {depth : Nat} (h : m.LeadsAbove depth m')
    (hbefore : m.stack.length = depth) (hafter : m'.stack.length = depth) :
    m'.stack = m.stack := by
  subst hbefore
  exact ((h.suffix (List.suffix_refl _)).eq_of_length hafter.symm).symm

/-- **What is on the stack comes back when the stack is as deep again.** As long as no step
leaves the stack shallower than it is now, all that is on it now stays at the bottom of
it. So, whatever the steps in between do: a `ret` that is executed at the depth that a
`call` has left, and with no step in between that went below, goes on behind the `call`
with the stack from before it; and a `pop` at the depth that a `push` has left writes the
value that was pushed to its destination, and leaves the stack from before the `push`. -/
theorem stack_comes_back (m : Machine) :
    (∀ m', m.LeadsAbove m.stack.length m' → m.stack <:+ m'.stack)
      ∧ (∀ target m₁ m₂ m₃, m.Executes (.call target) → m.StepsTo m₁ →
          m₁.LeadsAbove (m.stack.length + 1) m₂ → m₂.stack.length = m.stack.length + 1 →
          m₂.Executes .ret → m₂.StepsTo m₃ →
          m₃.ip.toNat = m.ip.toNat + 2 ∧ m₃.stack = m.stack)
      ∧ ∀ src dst m₁ m₂ m₃, m.Executes (.push src) → m.StepsTo m₁ →
          m₁.LeadsAbove (m.stack.length + 1) m₂ → m₂.stack.length = m.stack.length + 1 →
          m₂.Executes (.pop dst) → m₂.StepsTo m₃ →
          m₃.registers = (m₂.write (m.wordValue src) (Operand.named dst).place).registers
            ∧ m₃.memory = (m₂.write (m.wordValue src) (Operand.named dst).place).memory
            ∧ m₃.stack = m.stack := by
  refine ⟨fun m' h => h.suffix (List.suffix_refl _), ?_, ?_⟩
  · intro target m₁ m₂ m₃ hcall hfirst hbetween hdepth hret hlast
    have hcalled : m₁.stack = m.behind (.call target) :: m.stack := hfirst.stack_of_call hcall
    have hback : m₂.stack = m.behind (.call target) :: m.stack :=
      (hbetween.stack_eq (by rw [hcalled, List.length_cons]) hdepth).trans hcalled
    obtain ⟨hip, hstack⟩ := hlast.of_ret hret hback
    refine ⟨?_, hstack⟩
    rw [hip]
    exact hcall.1.toNat_behind
  · intro src dst m₁ m₂ m₃ hpush hfirst hbetween hdepth hpop hlast
    have hpushed : m₁.stack = m.wordValue src :: m.stack := hfirst.stack_of_push hpush
    have hback : m₂.stack = m.wordValue src :: m.stack :=
      (hbetween.stack_eq (by rw [hpushed, List.length_cons]) hdepth).trans hpushed
    exact hlast.of_pop hpop hback

/-- A subroutine that pushes and pops before it returns. -/
theorem stack_comes_back_subroutine :
    let program := ((((((Memory.empty.set 0 17).set 1 3).set 3 2).set 4 7).set 5 3).set 6
      32768).set 7 18
    let m := Machine.ofMemory program
    ∃ m₁ m₂ m₃, m.StepsTo m₁ ∧ m₁.LeadsAbove 1 m₂ ∧ m₂.Executes .ret ∧ m₂.StepsTo m₃
      ∧ m₃.ip.toNat = 2 ∧ m₃.stack = [] := by
  intro program m
  let s : Session Buffer := (⟨m, .ofInput []⟩ : Session Buffer).step.2
  have hcall : m.Executes (.call 3) :=
    ⟨(Memory.decode_eq_ok_iff.mp (rfl : program.decode 0 = .ok (.call 3, 2))).1, by decide⟩
  have hfirst : m.StepsTo s.machine := ⟨Buffer, inferInstance, .ofInput [], rfl⟩
  have hbetween : s.machine.LeadsAbove 1 (Execution.after Session.step 2 s).machine :=
    leadsAbove_after (by decide)
  obtain ⟨m₂, hm₂⟩ : ∃ m₂, (Execution.after Session.step 2 s).machine = m₂ := ⟨_, rfl⟩
  have hip : m₂.ip = 7 := by
    rw [← hm₂]
    decide
  have hword : m₂.memory.get 7 = 18 := by
    rw [← hm₂]
    decide
  have hdepth : m₂.stack.length = 1 := by
    rw [← hm₂]
    decide
  have hret : m₂.Executes .ret := by
    refine ⟨Memory.holds_cons_iff.mpr ⟨?_, List.nil_prefix⟩, by decide⟩
    rw [hip]
    exact ⟨by decide, hword⟩
  rw [hm₂] at hbetween
  obtain ⟨m₃, hlast⟩ := m₂.exists_stepsTo
  exact ⟨s.machine, m₂, m₃, hfirst, hbetween, hret, hlast,
    (stack_comes_back m).2.1 3 s.machine m₂ m₃ hcall hfirst hbetween hdepth hret hlast⟩

end RegisterMachine.Machine
