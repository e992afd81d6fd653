import RegisterMachine.Machine.Effect
import RegisterMachine.Proofs.Checking
import RegisterMachine.Session

/-!
# A step carries out an effect

A step works in place, and whatever it did before a failure it leaves behind. To see that it
leaves nothing behind, all its actions have to be followed, and this is done once:
`Session.carryOut` works out the effect of an instruction first, which is where everything
fails that can fail, and changes the machine afterwards, and **a step is the carrying out of
what it decodes** (`Session.step_eq`). What is proved of steps is proved of effects from here on.

The two have to agree on three things. Operand words are checked in the same order, which
is not said in the same way: one list of words here, and there one action after the other
(`Session.blamesFirst_execute`). A fault is blamed on the instruction decoded last, and
that is the one at the instruction pointer while it is executed. And the write
of a word comes after everything else, so it must not fail: a store at an address does not
(`Action.run_write`).
-/

namespace RegisterMachine

namespace Machine

/-- The machine that remembers that it decoded the instruction it points at. -/
def marked (m : Machine) : Machine := { m with lastDecoded := m.ip }

@[simp] theorem marked_toProcessor (m : Machine) : m.marked.toProcessor = m.toProcessor := rfl

@[simp] theorem marked_memory (m : Machine) : m.marked.memory = m.memory := rfl

end Machine

namespace Session

variable {κ α β : Type}

/-! ## What actions do -/

namespace Action

variable {s t : Session κ} {w : Word}

/-- What fails keeps what follows from being done. -/
theorem run_bind_of_error {x : Action κ α} {f : α → Action κ β} {fault : Fault}
    (h : x.run s = .error fault t) : (x >>= f).run s = .error fault t := by
  rw [EStateM.run_bind, h]

/-- What works is followed by the rest. -/
theorem run_bind_of_ok {x : Action κ α} {f : α → Action κ β} {a : α}
    (h : x.run s = .ok a t) : (x >>= f).run s = (f a).run t := by
  rw [EStateM.run_bind, h]

/-- To look something up changes nothing. -/
theorem run_lookUp_of_ok {f : Machine → Except Fault α} {a : α} (h : f s.machine = .ok a) :
    (lookUp f).run s = .ok a s := by
  rw [lookUp, run_bind_of_ok (EStateM.run_get s), h]
  rfl

theorem run_lookUp_of_error {f : Machine → Except Fault α} {fault : Fault}
    (h : f s.machine = .error fault) : (lookUp f).run s = .error fault s := by
  rw [lookUp, run_bind_of_ok (EStateM.run_get s), h]
  rfl

/-- A word that names an operand has a value. -/
theorem run_resolveValue (h : ¬ Word.registerLast < w) :
    (resolveValue w).run s = .ok (s.machine.value (.named w)) s :=
  run_lookUp_of_ok (by rw [Machine.resolveValue, Machine.operand, Operand.ofWord_of_not_lt h]; rfl)

/-- And it names a place. -/
theorem run_resolvePlace (h : ¬ Word.registerLast < w) :
    (resolvePlace w).run s = .ok (Operand.named w).place s :=
  run_lookUp_of_ok (by rw [Machine.resolvePlace, Machine.operand, Operand.ofWord_of_not_lt h]; rfl)

/-- Any other word is refused, whichever of the two is asked for. -/
theorem run_resolve_of_lt (h : Word.registerLast < w) :
    (resolveValue w).run s = .error (.invalidOperand w s.machine.lastDecoded) s
      ∧ (resolvePlace w).run s = .error (.invalidOperand w s.machine.lastDecoded) s := by
  refine ⟨run_lookUp_of_error ?_, run_lookUp_of_error ?_⟩
  · rw [Machine.resolveValue, Machine.operand, Operand.ofWord_of_lt h]
    rfl
  · rw [Machine.resolvePlace, Machine.operand, Operand.ofWord_of_lt h]
    rfl

/-- A store puts the word where it belongs, or fails and leaves the memory alone. -/
theorem run_store (offset w : Word) :
    (store offset w).run s = match Address.ofWord? offset with
      | none => .error (.offsetOutOfRange offset s.machine.lastDecoded) s
      | some a => .ok () { s with machine := s.machine.write w (.cell a) } := by
  rw [store, run_bind_of_ok (EStateM.run_modifyGet _ s)]
  unfold Memory.store
  cases Address.ofWord? offset <;> rfl

/-- **Writing to a place never fails.** -/
theorem run_write (w : Word) (place : Place) :
    (write w place).run s = .ok () { s with machine := s.machine.write w place } := by
  cases place with
  | register r => rfl
  | cell a =>
    rw [write, run_store, Address.ofWord?_toWord]

/-- A result that is there is gone on with, and one that is not is blamed. -/
theorem run_require (result : Option α) (fault : Word → Fault) :
    (require result fault).run s = match result with
      | some a => .ok a s
      | none => .error (fault s.machine.lastDecoded) s := by
  cases result <;> rfl

/-- A word is loaded from where the memory reaches. -/
theorem run_load (offset : Word) :
    (load offset).run s = match s.machine.memory.load? offset with
      | some w => .ok w s
      | none => .error (.offsetOutOfRange offset s.machine.lastDecoded) s := by
  rw [load, run_bind_of_ok (EStateM.run_get s)]
  cases s.machine.memory.load? offset <;> rfl

/-- The console is as the call left it, also when the call failed. -/
theorem run_call (f : κ → Answer α × κ) :
    (call f).run s = match f s.console with
      | (.ok a, k) => .ok a { s with console := k }
      | (.error message, k) => .error (.console message) { s with console := k } := by
  rw [call, run_bind_of_ok (EStateM.run_modifyGet _ s)]
  rcases f s.console with ⟨message | a, k⟩ <;> rfl

/-- There is nothing to take off an empty stack. -/
theorem run_pop_of_nil (h : s.machine.stack = []) : (pop : Action κ _).run s = .ok none s := by
  rw [pop, EStateM.run_modifyGet, Processor.pop, h]
  rfl

/-- The top of a stack is taken off it. -/
theorem run_pop_of_cons {rest : List Word} (h : s.machine.stack = w :: rest) :
    (pop : Action κ _).run s
      = .ok (some w) (s.withProcessor { s.machine.toProcessor with stack := rest }) := by
  rw [pop, EStateM.run_modifyGet, Processor.pop, h]

end Action

/-! ## Bad operand words -/

section

variable {s : Session κ} {w : Word} {ws : List Word}

/-- **An action blames the first bad word of a list**, if there is one. -/
def BlamesFirst (s : Session κ) (ws : List Word) (x : Action κ α) : Prop :=
  ∀ w, ws.find? (fun w => decide (Word.registerLast < w)) = some w →
    x.run s = .error (.invalidOperand w s.machine.lastDecoded) s

/-- To resolve a word first is to look at one word more. -/
theorem BlamesFirst.cons {resolved : Action κ β} {value : β} {f : β → Action κ α}
    (hbad : Word.registerLast < w →
      resolved.run s = .error (.invalidOperand w s.machine.lastDecoded) s)
    (hgood : ¬ Word.registerLast < w → resolved.run s = .ok value s)
    (h : s.BlamesFirst ws (f value)) : s.BlamesFirst (w :: ws) (resolved >>= f) := by
  intro bad hfind
  by_cases hw : Word.registerLast < w
  · rw [List.find?_cons_of_pos (by simpa using hw)] at hfind
    obtain rfl := Option.some.inj hfind
    exact Action.run_bind_of_error (hbad hw)
  · rw [List.find?_cons_of_neg (by simpa using hw)] at hfind
    rw [Action.run_bind_of_ok (hgood hw)]
    exact h bad hfind

/-- Where no word is left to look at, none is blamed. -/
theorem BlamesFirst.nil (x : Action κ α) : s.BlamesFirst [] x :=
  fun _ hfind => nomatch hfind

theorem BlamesFirst.value {f : Word → Action κ α}
    (h : s.BlamesFirst ws (f (s.machine.value (.named w)))) :
    s.BlamesFirst (w :: ws) (Action.resolveValue w >>= f) :=
  .cons (fun hw => (Action.run_resolve_of_lt hw).1) Action.run_resolveValue h

theorem BlamesFirst.place {f : Place → Action κ α}
    (h : s.BlamesFirst ws (f (Operand.named w).place)) :
    s.BlamesFirst (w :: ws) (Action.resolvePlace w >>= f) :=
  .cons (fun hw => (Action.run_resolve_of_lt hw).2) Action.run_resolvePlace h

/-- **Executing blames the first operand word that is no operand.** -/
theorem blamesFirst_execute [Console κ] (s : Session κ) (next : Word) (i : Instruction Word) :
    s.BlamesFirst (i.sources ++ i.destination.toList) (execute next i) := by
  cases i with
  | halt | ret | noop => exact .nil _
  | push src | output src => exact .value (.nil _)
  | pop dst | input dst => exact .place (.nil _)
  | jmp target | call target => exact .value (.nil _)
  | jt condition target | jf condition target => exact .value (.value (.nil _))
  | set dst src | not dst src => exact .value (.place (.nil _))
  | rmem dst address => exact .value (.place (.nil _))
  | wmem address src => exact .value (.value (.nil _))
  | binary op dst lhs rhs => exact .value (.value (.place (.nil _)))

end

/-! ## Effects -/

section

/-- A word written to a destination is an effect, also while the stack is another one. -/
theorem run_proceed_assign (m : Machine) (stack : List Word) (w : Word) (dst : Operand)
    (next : Word) (k : κ) :
    (proceed next .next).run ⟨({ m with stack } : Machine).write w dst.place, k⟩
      = .ok .running ⟨m.perform { m.assign next dst w with stack }, k⟩ := by
  cases dst <;> rfl

variable [Console κ]

/-- **Carry out an instruction** that stands at the instruction pointer and is
followed by address `next`: check its operands, work out its effect, perform it. -/
def carryOut (raw : Instruction Word) (next : Word) (s : Session κ) : Status × Session κ :=
  match raw.resolve with
  | .error w => (.ended (.failed (.invalidOperand w s.machine.ip)), ⟨s.machine.marked, s.console⟩)
  | .ok i =>
    match s.machine.marked.effect next s.console i with
    | (.error fault, k) => (.ended (.failed fault), ⟨s.machine.marked, k⟩)
    | (.ok e, k) => (e.status, ⟨s.machine.marked.perform e, k⟩)

/-- **Executing an instruction without a bad operand word and going on has the effect of the
instruction**, while that instruction is the one decoded last. -/
theorem run_execute_proceed {s : Session κ} (hlast : s.machine.lastDecoded = s.machine.ip)
    {i : Instruction Word} (h : i.firstInvalid? = none) (next : Word) :
    (execute next i >>= proceed next).run s
      = match s.machine.effect next s.console (i.map Operand.named) with
        | (.error fault, k) => .error fault { s with console := k }
        | (.ok e, k) => .ok e.status ⟨s.machine.perform e, k⟩ := by
  have hvalid : ∀ w ∈ i.operands, ¬ Word.registerLast < w :=
    Instruction.firstInvalid?_eq_none_iff.mp h
  have hvalue : ∀ w ∈ i.sources,
      (Action.resolveValue w).run s = .ok (s.machine.value (.named w)) s :=
    fun w hw => Action.run_resolveValue (hvalid w (List.mem_append_right _ hw))
  have hplace : ∀ w ∈ i.destination.toList,
      (Action.resolvePlace w).run s = .ok (Operand.named w).place s :=
    fun w hw => Action.run_resolvePlace (hvalid w (List.mem_append_left _ hw))
  cases i with
  | halt | noop => rfl
  | set dst src | not dst src =>
    simp only [execute, EStateM.run_bind, hvalue src (.head _), hplace dst (.head _),
      Action.run_write, EStateM.run_pure]
    exact run_proceed_assign s.machine s.machine.stack ..
  | binary op dst lhs rhs =>
    simp only [execute, EStateM.run_bind, hvalue lhs (.head _), hvalue rhs (.tail _ (.head _)),
      hplace dst (.head _), Action.run_require, hlast, Machine.effect, Instruction.map]
    cases op.apply (s.machine.value (.named lhs)) (s.machine.value (.named rhs)) with
    | none => rfl
    | some w =>
      simp only [Action.run_write, EStateM.run_pure]
      exact run_proceed_assign s.machine s.machine.stack ..
  | rmem dst address =>
    simp only [execute, EStateM.run_bind, hvalue address (.head _), hplace dst (.head _),
      Action.run_load, hlast, Machine.effect, Instruction.map]
    cases s.machine.memory.load? (s.machine.value (.named address)) with
    | none => rfl
    | some w =>
      simp only [Action.run_write, EStateM.run_pure]
      exact run_proceed_assign s.machine s.machine.stack ..
  | wmem address src =>
    simp only [execute, EStateM.run_bind, hvalue address (.head _), hvalue src (.tail _ (.head _)),
      Action.run_store, hlast, Machine.effect, Instruction.map]
    cases Address.ofWord? (s.machine.value (.named address)) with
    | none => rfl
    | some a => rfl
  | push src | jmp src | call src =>
    simp only [execute, EStateM.run_bind, hvalue src (.head _)]
    rfl
  | jt condition target | jf condition target =>
    simp only [execute, EStateM.run_bind, hvalue condition (.head _),
      hvalue target (.tail _ (.head _)), Machine.effect, Instruction.map, EStateM.run_pure]
    by_cases hzero : s.machine.value (.named condition) = 0
    · simp only [if_pos hzero]
      rfl
    · simp only [if_neg hzero]
      rfl
  -- the other four change the stack or ask the console before the rest
  | pop dst =>
    cases hstack : s.machine.stack with
    | nil =>
      simp only [execute, EStateM.run_bind, hplace dst (.head _), Action.run_pop_of_nil hstack,
        Action.run_require, hlast, Machine.effect, Instruction.map, hstack]
    | cons w rest =>
      simp only [execute, EStateM.run_bind, hplace dst (.head _), Action.run_pop_of_cons hstack,
        Action.run_require, Action.run_write, EStateM.run_pure, Machine.effect, Instruction.map,
        hstack]
      exact run_proceed_assign s.machine rest ..
  | ret =>
    cases hstack : s.machine.stack with
    | nil =>
      simp only [execute, EStateM.run_bind, Action.run_pop_of_nil hstack, Machine.effect,
        Instruction.map, hstack]
      rfl
    | cons target rest =>
      simp only [execute, EStateM.run_bind, Action.run_pop_of_cons hstack, Machine.effect,
        Instruction.map, hstack]
      rfl
  | output src =>
    simp only [execute, EStateM.run_bind, hvalue src (.head _), Action.run_call, Machine.effect,
      Instruction.map]
    rcases Console.write (s.machine.value (.named src)).lowByte s.console with ⟨_ | _, k⟩ <;> rfl
  | input dst =>
    simp only [execute, EStateM.run_bind, hplace dst (.head _), Action.run_call, Action.run_require,
      Machine.effect, Instruction.map]
    rcases Console.read s.console with ⟨message | _ | b, k⟩
    · rfl
    · simp only [hlast]
    · simp only [Action.run_write, EStateM.run_pure]
      exact run_proceed_assign s.machine s.machine.stack ..

/-- Where nothing is decoded nothing is done. -/
theorem run_advance_of_error {s : Session κ} {fault : Fault}
    (h : s.machine.memory.decode s.machine.ip = .error fault) :
    (advance : Action κ Status).run s = .error fault s := by
  rw [advance, Action.run_bind_of_ok (EStateM.run_get s)]
  exact Action.run_bind_of_error (Action.run_lookUp_of_error h)

/-- What is decoded is executed, and remembered before. -/
theorem run_advance_of_ok {s : Session κ} {i : Instruction Word} {next : Word}
    (h : s.machine.memory.decode s.machine.ip = .ok (i, next)) :
    (advance : Action κ Status).run s
      = (execute next i >>= proceed next).run ⟨s.machine.marked, s.console⟩ := by
  rw [advance, Action.run_bind_of_ok (EStateM.run_get s),
    Action.run_bind_of_ok (Action.run_lookUp_of_ok h)]
  exact Action.run_bind_of_ok (EStateM.run_modify _ s)

/-- **A step is the carrying out of what it decodes**: of all that is done in place, a step that
fails leaves nothing behind but the address of the instruction that failed, and what the
console made of being called. -/
theorem step_eq (s : Session κ) :
    s.step = match s.machine.memory.decode s.machine.ip with
      | .error fault => (.ended (.failed fault), s)
      | .ok (i, next) => s.carryOut i next := by
  unfold step
  cases hdecode : s.machine.memory.decode s.machine.ip with
  | error fault => rw [run_advance_of_error hdecode]
  | ok found =>
    obtain ⟨i, next⟩ := found
    rw [run_advance_of_ok hdecode]
    dsimp only
    unfold carryOut
    cases hinvalid : i.firstInvalid? with
    | some w =>
      rw [Instruction.resolve_of_invalid hinvalid,
        Action.run_bind_of_error (blamesFirst_execute _ next i w hinvalid)]
      rfl
    | none =>
      rw [Instruction.resolve_of_valid hinvalid, run_execute_proceed rfl hinvalid]
      dsimp only
      rcases s.machine.marked.effect next s.console (i.map Operand.named) with ⟨fault | e, k⟩ <;> rfl

end

end Session

end RegisterMachine
