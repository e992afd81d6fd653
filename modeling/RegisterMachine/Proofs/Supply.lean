import RegisterMachine.Proofs.Continuation

/-!
# Input that comes in pieces

A program that waits for input cannot tell whether the input was there from the
start. Here nothing waits: a run that wants a byte and finds none ends in a
fault. But the fault leaves everything as it was, so when there is more input
the run can be made again from there, and **what comes of the two runs is what
comes of one run that has all the input** (`Session.run_input_in_pieces`). A run
that ended in any other way does not notice input behind its own.

Both are seen by putting a console amid another one: more output before its
own, more input behind its own (`Buffer.amid`). A step over the one is a step over
the other unless it is starved, which is to say that it wants a byte and there
is none. In the first run only the last step can be; and in the second run
nothing is added to the input, so being starved makes no difference.
-/

namespace RegisterMachine

namespace Buffer

/-- **A console amid more**: output that came before its own, and input that
comes behind its own. -/
def amid (k : Buffer) (before : Array Byte) (behind : List Byte) : Buffer :=
  ⟨k.input ++ behind, before ++ k.output⟩

/-- Without more output it is only the input that grows. -/
theorem amid_empty (k : Buffer) (behind : List Byte) :
    k.amid #[] behind = { k with input := k.input ++ behind } := by
  rw [amid, Array.empty_append]

/-- A byte is written behind all the output. -/
theorem write_amid (b : Byte) (k : Buffer) (before : Array Byte) (behind : List Byte) :
    (k.amid before behind).write b = (.ok (), (k.write b).2.amid before behind) := by
  simp only [write, amid, Array.append_push]

/-- A read that finds no byte has found the input empty, and leaves the console
alone. -/
theorem eq_of_read_eq_none {k : Buffer} (h : (Console.read k).1 = .ok none) :
    k.input = [] ∧ (Console.read k).2 = k := by
  obtain ⟨input, output⟩ := k
  cases input with
  | nil => exact ⟨rfl, rfl⟩
  | cons b rest => cases h

end Buffer

namespace Session

section

variable {κ : Type} [Console κ]

/-- **A step that is starved**: it ends because there is no input left. -/
def Starves (s : Session κ) : Prop :=
  ∃ address, s.step.1 = .ended (.failed (.inputExhausted address))

/-- Only an `in` is starved, and only by its console. -/
theorem Starves.exists_executes {s : Session κ} (h : s.Starves) :
    ∃ dst, s.machine.Executes (.input dst) ∧ (Console.read s.console).1 = .ok none := by
  obtain ⟨address, hfailed⟩ := h
  obtain ⟨status, hverdict⟩ := s.exists_verdict
  rw [step_of_verdict hverdict] at hfailed
  cases hverdict with
  | @noInput dst hexecutes hread => exact ⟨dst, hexecutes, hread⟩
  | _ => cases hfailed

/-- A move is made in the same way by a machine that remembers decoding it. -/
theorem make_marked (m : Machine) (k : κ) (move : Move) :
    (⟨m.marked, k⟩ : Session κ).make move = (⟨m, k⟩ : Session κ).make move := by
  cases move <;> rfl

/-- To have decoded the instruction before makes no difference to executing it. -/
theorem step_marked_of_executes {m : Machine} {i : Instruction Word} (h : m.Executes i) (k : κ) :
    (⟨m.marked, k⟩ : Session κ).step = (⟨m, k⟩ : Session κ).step := by
  have hmarked : m.marked.Executes i := h
  rw [step_of_executes (s := ⟨m.marked, k⟩) hmarked, step_of_executes (s := ⟨m, k⟩) h]
  exact make_marked m k _

/-- A starved step changes what the machine remembers of decoding, and asks the
console. -/
theorem Starves.step_eq {s : Session κ} (h : s.Starves) :
    s.step.2 = ⟨s.machine.marked, (Console.read s.console).2⟩ := by
  obtain ⟨dst, hexecutes, hread⟩ := h.exists_executes
  rw [step_of_executes hexecutes]
  exact congrArg Prod.snd (make_read_none (Prod.ext hread rfl))

end

/-- A session with more output before its own and more input behind its own. -/
def amid (s : Session Buffer) (before : Array Byte) (behind : List Byte) : Session Buffer :=
  ⟨s.machine, s.console.amid before behind⟩

/-- **A step that is not starved does not notice what it is amid**, and no step does
where no input is added. -/
theorem step_amid {s : Session Buffer} (before : Array Byte) {behind : List Byte}
    (h : behind = [] ∨ ¬ s.Starves) :
    (s.amid before behind).step = (s.step.1, s.step.2.amid before behind) := by
  unfold Starves at h
  rw [step_eq_make s] at h ⊢
  rw [step_eq_make]
  show (s.amid before behind).make s.machine.move = _
  cases hm : s.machine.move with
  | quiet status after => rfl
  | write b after =>
    rw [make_write_ok (Buffer.write_amid b s.console before behind)]
    rfl
  | read after =>
    rw [hm] at h
    obtain ⟨m, input, output⟩ := s
    cases input with
    | cons b rest => rfl
    | nil =>
      rcases h with rfl | hfed
      · rfl
      · exact absurd ⟨m.ip, rfl⟩ hfed

variable {limit : Option UInt64} {s u : Session Buffer} {n : Nat}

/-- The states of a run before it is starved are reached by the run that has more
input. -/
theorem reaches_amid
    (h : Execution.Reaches step (fun s : Session Buffer => s.machine.steps) limit n s u)
    (before : Array Byte) (behind : List Byte) :
    Execution.Reaches step (fun s : Session Buffer => s.machine.steps) limit n
      (s.amid before behind) (u.amid before behind) := by
  refine Execution.Reaches.map (f := fun s : Session Buffer => s.amid before behind)
    (fun _ => rfl) (fun {s t} hs => ?_) h
  have hfed : ¬ s.Starves := by
    rintro ⟨address, hstarved⟩
    rw [hs] at hstarved
    cases hstarved
  rw [step_amid before (.inr hfed), hs]

/-- More output before its own makes no difference to where a run ends. -/
theorem ends_amid_iff {e : Ending} {r : Session Buffer} (before : Array Byte) :
    Execution.Ends step (fun s : Session Buffer => s.machine.steps) limit (s.amid before []) e r
      ↔ ∃ t, Execution.Ends step (fun s : Session Buffer => s.machine.steps) limit s e t
          ∧ r = t.amid before [] :=
  Execution.ends_map_iff (f := fun s : Session Buffer => s.amid before []) (fun _ => rfl)
    fun _ => step_amid before (.inl rfl)

/-- **A starved session that gets more input goes on as after its step.** It comes
to the ends that the session left by the starved step comes to over a new console
with that input, amid the output from before. -/
theorem Starves.ends_iff {e : Ending} {r : Session Buffer} {more : List Byte} (h : u.Starves)
    (hlimit : Execution.limitReached limit u.machine.steps = false) :
    Execution.Ends step (fun s : Session Buffer => s.machine.steps) limit (u.amid #[] more) e r
      ↔ ∃ w, RunEnds limit ⟨u.step.2.machine, .ofInput more⟩ e w
          ∧ r = w.amid u.step.2.console.output [] := by
  obtain ⟨dst, hexecutes, hread⟩ := h.exists_executes
  obtain ⟨hinput, hconsole⟩ := Buffer.eq_of_read_eq_none hread
  rw [h.step_eq, hconsole]
  have hamid : u.amid #[] more
      = (⟨u.machine, .ofInput more⟩ : Session Buffer).amid u.console.output [] := by
    simp [amid, Buffer.amid, Buffer.ofInput, hinput]
  rw [hamid, ends_amid_iff]
  refine exists_congr fun w => and_congr_left fun _ => ?_
  rw [runEnds_iff]
  -- the step is made again, by a machine that has decoded it before
  exact Iff.symm (Execution.ends_iff_of_step_eq hlimit rfl (step_marked_of_executes hexecutes _))

/-- What it is to be a session with more output before its own, field by field. -/
theorem eq_amid_iff {r t : Session Buffer} {before : Array Byte} :
    r = t.amid before [] ↔ r.machine = t.machine ∧ r.console.input = t.console.input
      ∧ r.console.output = before ++ t.console.output := by
  obtain ⟨m, input, output⟩ := r
  simp [amid, Buffer.amid]

/-- **A run made in two pieces, the second with more input, is the run that has all
the input.** Let a run with the input `a` come to an end. If it did not exhaust
the input, the run with the input `a ++ b` ends in the same way: with the same
machine and the same output, and with what was left of `a` left in front of `b`.
If it did, let the machine run again, with the same limit and a new console that
holds `b`. That run comes to an end exactly if the run with the input `a ++ b`
does, and to the same one: the machine and the input left are the same, and the
output is that of the first run with that of the second behind it. -/
theorem run_input_in_pieces {m : Machine} {limit : Option UInt64} {a b : List Byte} {e : Ending}
    {t : Session Buffer} (hrun : RunEnds limit ⟨m, .ofInput a⟩ e t) :
    ((∀ address, e ≠ .failed (.inputExhausted address)) →
        RunEnds limit ⟨m, .ofInput (a ++ b)⟩ e
          ⟨t.machine, { t.console with input := t.console.input ++ b }⟩)
      ∧ ∀ address, e = .failed (.inputExhausted address) →
          ∀ (e' : Ending) (r : Session Buffer), RunEnds limit ⟨m, .ofInput (a ++ b)⟩ e' r
            ↔ ∃ u : Session Buffer, RunEnds limit ⟨t.machine, .ofInput b⟩ e' u
                ∧ r.machine = u.machine ∧ r.console.input = u.console.input
                ∧ r.console.output = t.console.output ++ u.console.output := by
  obtain ⟨n, u, hreaches, hstops⟩ := Execution.ends_iff.mp (runEnds_iff.mp hrun)
  have hwhole : Execution.Reaches step (fun s : Session Buffer => s.machine.steps) limit n
      ⟨m, .ofInput (a ++ b)⟩ (u.amid #[] b) := reaches_amid hreaches #[] b
  refine ⟨fun hne => ?_, fun address he e' r => ?_⟩
  · rw [← Buffer.amid_empty]
    refine runEnds_iff.mpr (Execution.ends_iff.mpr ⟨n, u.amid #[] b, hwhole, ?_⟩)
    cases hstops with
    | atLimit hlimit => exact .atLimit hlimit
    | byStep hlimit hstep =>
      have hfed : ¬ u.Starves := by
        rintro ⟨address, hstarved⟩
        rw [hstep] at hstarved
        exact hne address (Status.ended.inj hstarved)
      refine .byStep hlimit ?_
      rw [step_amid #[] (.inr hfed), hstep]
      rfl
  · cases hstops with
    | atLimit _ => cases he
    | byStep hlimit hstep =>
      have hstarved : u.Starves := ⟨address, by rw [hstep, he]⟩
      rw [runEnds_iff, Execution.ends_iff_of_reaches hwhole, hstarved.ends_iff hlimit, hstep]
      exact exists_congr fun w => and_congr_right fun _ => eq_amid_iff

/-- A program that prompts, reads a byte and halts. Its first run has no input, and
stops where the byte is read; the second one has a byte too many. -/
theorem run_input_in_pieces_prompt :
    let m := Machine.ofMemory ((((Memory.empty.set 0 19).set 1 63).set 2 20).set 3 32768)
    ∃ t u : Session Buffer,
      RunEnds none ⟨m, .ofInput []⟩ (.failed (.inputExhausted 2)) t
        ∧ Console.written t.console = [63]
        ∧ RunEnds none ⟨t.machine, .ofInput [72, 105]⟩ (.finished .halted) u
        ∧ Console.remaining u.console = [105] ∧ u.machine.registers[0] = 72 := by
  intro m
  have hpiece : ((⟨m, .ofInput []⟩ : Session Buffer).run? none 2).map
      (fun p => (p.1, Console.written p.2.console))
      = some (.failed (.inputExhausted 2), [63]) := by decide
  have hwhole : ((⟨m, .ofInput [72, 105]⟩ : Session Buffer).run? none 3).map
      (fun p => (p.1, Console.remaining p.2.console, p.2.machine.registers[0]))
      = some (.finished .halted, [105], 72) := by decide
  obtain ⟨⟨e, t⟩, ht, hseen⟩ := Option.map_eq_some_iff.mp hpiece
  obtain ⟨⟨e', r⟩, hr, hseen'⟩ := Option.map_eq_some_iff.mp hwhole
  obtain ⟨rfl, hwritten⟩ := Prod.mk.inj hseen
  obtain ⟨rfl, hleft⟩ := Prod.mk.inj hseen'
  obtain ⟨hremaining, hregister⟩ := Prod.mk.inj hleft
  have hpieces := (run_input_in_pieces (b := [72, 105]) ⟨2, ht⟩).2 2 rfl
  obtain ⟨u, hu, hmachine, hinput, -⟩ := (hpieces _ r).mp ⟨3, hr⟩
  refine ⟨t, u, ⟨2, ht⟩, hwritten, hu, ?_, ?_⟩
  · exact hinput.symm.trans hremaining
  · rw [← hmachine]
    exact hregister

end Session

end RegisterMachine
