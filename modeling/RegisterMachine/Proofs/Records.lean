import RegisterMachine.Proofs.Budget
import RegisterMachine.Proofs.Counters
import RegisterMachine.Proofs.Images
import RegisterMachine.Proofs.Logging

/-!
# The log is a record of the run

A log that keeps everything tells the whole story of a call, from the image to the exit: the
program it loaded, the limit it was given, each instruction it was about to execute with the
address it stood at and as it stood in memory then, and how it all ended
(`CommandLine.log_records_run`).

How many instructions are told of and how many steps are counted are two numbers. An
instruction is told of before it is executed, and counted after it was. So **the two are the
same, unless a run breaks off inside an instruction**: then the last one was told of and is
not counted (`Session.tally_loop`). Where there was no instruction to execute, or where only
the flush at the end failed, nothing is told of that is not counted.

The number in the log has 64 bits, and sticks at the greatest there is. A run with a limit ends
before that can matter. One without a limit may go on, and halt with more instructions told of
than the log has counted (`CommandLine.count_sticks_below_record`).
-/

namespace RegisterMachine

/-! ## Steps that find an instruction -/

/-- Whether there was no instruction to execute. -/
def Fault.isFetch : Fault → Bool
  | .invalidOpcode .. | .pointerOutOfRange _ => true
  | .invalidOperand .. | .offsetOutOfRange .. | .stackUnderflow _ | .divisionByZero _
  | .inputExhausted _ | .console _ => false

/-- Whether a run broke off inside an instruction. -/
def Ending.brokeOff : Ending → Bool
  | .finished _ => false
  | .failed fault => !fault.isFetch

/-- Whether a step that returns this status found an instruction. -/
def Status.foundInstruction : Status → Bool
  | .ended (.failed fault) => !fault.isFetch
  | .running | .ended (.finished _) => true

namespace Session

variable {κ : Type} [Console κ] {s t : Session κ} {limit : Option UInt64} {fuel : Nat}

/-- The number of steps that find an instruction on the way of a run. -/
def findings (limit : Option UInt64) (fuel : Nat) (s : Session κ) : Nat :=
  (s.departures limit fuel).countP fun d => d.step.1.foundInstruction

/-- Where a run makes a step, the count moves by one if the step is counted, unless it sticks
at the greatest number there is, which it never does below a limit. -/
theorem tally_step (s : Session κ)
    (hlimit : Execution.limitReached limit s.machine.steps = false) :
    let added := if s.step.1.isCounted then 1 else 0
    s.step.2.machine.steps.toNat = min (s.machine.steps.toNat + added) (2 ^ 64 - 1)
      ∧ (limit.isSome → s.step.2.machine.steps.toNat = s.machine.steps.toNat + added) := by
  intro added
  refine ⟨?_, fun hsome => ?_⟩
  · have hs := s.machine.steps.toNat_lt
    rw [s.steps_step]
    show _ = min (_ + if s.step.1.isCounted then 1 else 0) _
    split
    · exact Processor.toNat_nextCount_eq_min s.machine.steps
    · omega
  · obtain ⟨n, rfl⟩ := Option.isSome_iff_exists.mp hsome
    have hbelow : s.machine.steps < n := UInt64.not_le.mp (of_decide_eq_false hlimit)
    exact s.toNat_steps_step hbelow

/-- **Findings and counted steps.** In a run from `s` that ends with `e` in `t`, a number of
steps are counted: so far does the count move, unless it sticks at the greatest number there
is, which it never does below a limit. And there is one more step that finds an instruction
if the run breaks off inside it. -/
theorem tally_loop {e : Ending} (h : s.loop? limit fuel = some (e, t)) :
    ∃ counted,
      t.machine.steps.toNat = min (s.machine.steps.toNat + counted) (2 ^ 64 - 1)
        ∧ (limit.isSome → t.machine.steps.toNat = s.machine.steps.toNat + counted)
        ∧ s.findings limit fuel = counted + if e.brokeOff then 1 else 0 := by
  refine Execution.run?_along (R := fun s ds e t => ∃ counted,
    t.machine.steps.toNat = min (s.machine.steps.toNat + counted) (2 ^ 64 - 1)
      ∧ (limit.isSome → t.machine.steps.toNat = s.machine.steps.toNat + counted)
      ∧ ds.countP (fun d : Session κ => d.step.1.foundInstruction)
        = counted + if e.brokeOff then 1 else 0) ?_ ?_ ?_ h
  · intro s _
    have hs := s.machine.steps.toNat_lt
    exact ⟨0, by omega, fun _ => rfl, rfl⟩
  · intro s e t hlimit hstep
    have htally := s.tally_step hlimit
    rw [hstep] at htally
    refine ⟨_, htally.1, htally.2, ?_⟩
    rw [List.countP_singleton, hstep]
    -- a good last step is counted, a bad one is not, and only a bad one can break off
    rcases e with outcome | fault
    · rfl
    · exact (Nat.zero_add _).symm
  · rintro s t later e u hlimit hstep ⟨counted, hmin, hexact, hfound⟩
    have htally := s.tally_step hlimit
    rw [hstep] at htally
    obtain ⟨hmin', hexact'⟩ := htally
    change t.machine.steps.toNat = min (s.machine.steps.toNat + 1) _ at hmin'
    change _ → t.machine.steps.toNat = s.machine.steps.toNat + 1 at hexact'
    refine ⟨counted + 1, by omega, fun hsome => ?_, ?_⟩
    · have hnext := hexact' hsome
      have hrest := hexact hsome
      omega
    · have hs : s.step.1.foundInstruction = true := by
        rw [hstep]
        rfl
      rw [List.countP_cons, hfound, if_pos hs]
      omega

/-- Every step on the way of a run that goes on has found an instruction. -/
theorem findings_of_walks {n : Nat} (h : Walks n s t) (fuel : Nat) :
    s.findings none (n + fuel) = n + t.findings none fuel := by
  induction h with
  | refl => rw [Nat.zero_add, Nat.zero_add]
  | @head n s t u _ hstep _ ih =>
    have hs : s.step.1.foundInstruction = true := by
      rw [hstep]
      rfl
    have hfirst : s.departures none (n + fuel + 1) = s :: t.departures none (n + fuel) :=
      Execution.departures_of_running rfl hstep
    rw [Nat.add_right_comm, findings, hfirst, List.countP_cons, if_pos hs]
    exact (congrArg (· + 1) ih).trans (Nat.add_right_comm n _ 1)

/-- **A run that halts after so many steps** finds as many instructions, and one more. -/
theorem loop?_of_walks {n : Nat} {u : Session κ} {outcome : Outcome} (h : Walks n s t)
    (hlast : t.step = (.ended (.finished outcome), u)) :
    s.loop? none (n + 1) = some (.finished outcome, u) ∧ s.findings none (n + 1) = n + 1 := by
  have hfound : t.step.1.foundInstruction = true := by
    rw [hlast]
    rfl
  have hone : t.findings none 1 = 1 := by
    rw [findings, departures, Execution.departures_of_ended rfl hlast, List.countP_singleton,
      if_pos hfound]
  refine ⟨Execution.run?_of_reaches_ended h (Nat.lt_succ_self n) rfl hlast, ?_⟩
  rw [findings_of_walks h, hone]

/-- **Loops in loops** are run to the end without a limit, in `laps` steps and one. The count
says so as long as it can. -/
theorem exists_run?_of_nest {rs : List Register} (hdistinct : rs.Nodup) {memory : Memory}
    (hholds : memory.Holds 0 (Loops.nest rs)) {k : Buffered} (hk : k.Reliable) :
    let s : Session Buffered := ⟨.ofMemory memory, k⟩
    ∃ t, s.run? none (Loops.laps rs.length + 1) = some (.finished .halted, t)
      ∧ t.machine.steps.toNat = min (Loops.laps rs.length + 1) (2 ^ 64 - 1)
      ∧ s.findings none (Loops.laps rs.length + 1) = Loops.laps rs.length + 1 := by
  intro s
  obtain ⟨t, u, hwalks, hlast, hconsole⟩ := exists_walks_halt rs hdistinct hholds k
  obtain ⟨hloop, hfound⟩ := loop?_of_walks hwalks hlast
  obtain ⟨l, hflush, -⟩ := hk.exists_flush
  have hclose : u.close (.finished .halted) = (.finished .halted, ⟨u.machine, l⟩) := by
    rw [close, hconsole, show Console.flush k = (.ok (), l) from hflush]
    rfl
  obtain ⟨counted, hsteps, -, htally⟩ := tally_loop hloop
  obtain rfl : counted = Loops.laps rs.length + 1 := htally.symm.trans hfound
  refine ⟨⟨u.machine, l⟩, ?_, ?_, hfound⟩
  · rw [run?, hloop, Option.map_some]
    exact congrArg some hclose
  · rw [← Nat.zero_add (Loops.laps rs.length + 1)]
    exact hsteps

/-! ## Announcements -/

/-- **An instruction is announced by the steps that find one**, and by no others. -/
theorem isSome_announced? (s : Session κ) :
    (CommandLine.announced? s.machine).isSome = s.step.1.foundInstruction := by
  have hnone : ∀ {fault : Fault}, s.machine.memory.decode s.machine.ip = .error fault →
      (CommandLine.announced? s.machine).isSome = false := by
    intro fault hdecode
    unfold CommandLine.announced?
    rw [hdecode]
    rfl
  have hsome : ∀ {i : Instruction Word}, s.machine.Fetches i →
      (CommandLine.announced? s.machine).isSome = true := by
    intro i hfetches
    unfold CommandLine.announced?
    rw [Memory.decode_of_holds hfetches]
    rfl
  obtain ⟨status, hverdict⟩ := s.exists_verdict
  rw [step_of_verdict hverdict]
  cases hverdict with
  | beyond hbeyond => exact hnone (Memory.decode_of_beyond hbeyond)
  | cutOff hload hcut => exact hnone (Memory.decode_of_cut_off hload hcut)
  | noOpcode hload hw => exact hnone (Memory.decode_of_no_opcode hload hw)
  | noOperand hfetches _ => exact hsome hfetches
  | halted hexecutes => exact hsome hexecutes.1
  | zeroDivisor hexecutes _ | emptyStack hexecutes _ | readOutOfRange hexecutes _
  | writeOutOfRange hexecutes _ | noInput hexecutes _ | readFailed hexecutes _
  | writeFailed hexecutes _ | returned hexecutes _ | proceeds hexecutes _ =>
    exact hsome hexecutes.1

end Session

namespace CommandLine

/-! ## What the log says

The entries are spelled out here as a reader of the log finds them, whatever the notices are
that they come from. -/

/-- **The entries about what is to be run**: the image, and the start. -/
def openingEntries (path : String) (words : Nat) (limit : Option UInt64) : List Entry :=
  [{ level := .debug, message := "image loaded"
     values := [("path", path), ("words", toString words)] },
   { level := .debug, message := "run start"
     values := [("ip", "0"),
       ("max_steps", match limit with
         | none => "None"
         | some n => "Some(" ++ toString n.toNat ++ ")")] }]

/-- **The entry about the instruction a machine is about to execute**, if there is one: its
address, and its text as it stands in memory. -/
def entryOfNext? (m : Machine) : Option Entry :=
  match m.memory.decode m.ip with
  | .error _ => none
  | .ok (instruction, _) =>
    some { level := .trace, message := "execute"
           values := [("address", toString m.ip.toNat), ("instr", instruction.text)] }

/-- **The entries about the end of a run.** What the console says about a failure is quoted. -/
def closingEntries (e : Ending) (m : Machine) : List Entry :=
  match e with
  | .finished outcome =>
    let values := [
      ("outcome", match outcome with
        | .halted => "Halted"
        | .returned => "Returned"
        | .stepLimit => "StepLimit"),
      ("steps", toString m.steps.toNat)]
    [{ level := .debug, message := "run finished", values },
     { level := .info, message := "program finished", values }]
  | .failed fault =>
    let words := match fault with
      | .invalidOpcode opcode address =>
        "invalid opcode " ++ toString opcode.toNat ++ " at " ++ toString address.toNat
      | .invalidOperand word address =>
        "invalid operand " ++ toString word.toNat ++ " at " ++ toString address.toNat
      | .pointerOutOfRange address =>
        "instruction at " ++ toString address.toNat ++ " runs past program memory"
      | .offsetOutOfRange offset address =>
        "memory offset " ++ toString offset.toNat ++ " at " ++ toString address.toNat
          ++ " is outside program memory"
      | .stackUnderflow address => "stack underflow at " ++ toString address.toNat
      | .divisionByZero address => "division by zero at " ++ toString address.toNat
      | .inputExhausted address => "input exhausted at " ++ toString address.toNat
      | .console message => message
    [{ level := .error, message := "program error: " ++ words
       values := [("steps", toString m.steps.toNat), ("ip", toString m.ip.toNat)] }]

/-! ## The story of a run, as it is logged -/

/-- What is told at the start. -/
theorem map_entry_opening (path : String) (words : Nat) (limit : Option UInt64) :
    [Notice.imageLoaded path words, .runStarted 0 limit].map Notice.entry
      = openingEntries path words limit := by
  cases limit <;> rfl

/-- An announcement is the entry of the instruction. -/
theorem map_entry_announced? (m : Machine) :
    (announced? m).map Notice.entry = entryOfNext? m := by
  unfold announced? entryOfNext?
  cases m.memory.decode m.ip with
  | error fault => rfl
  | ok found => rfl

/-- What is told at the end. -/
theorem map_entry_closing (e : Ending) (m : Machine) :
    (runNotices e m ++ callNotices e m).map Notice.entry = closingEntries e m := by
  cases e with
  | finished outcome => cases outcome <;> rfl
  | failed fault => cases fault <;> rfl

/-- **What is told of a run, from the loading of the image to the end, is its record.** -/
theorem map_entry_story {κ : Type} [Console κ] (memory : Memory) (path : String) (k : κ)
    (limit : Option UInt64) (fuel : Nat) (e : Ending) (t : Session κ) :
    let s : Session κ := ⟨.ofMemory memory, k⟩
    (Notice.imageLoaded path memory.imageLength :: story limit fuel s e t
        ++ callNotices e t.machine).map Notice.entry
      = openingEntries path memory.imageLength limit
        ++ (s.departures limit fuel).filterMap (entryOfNext? ·.machine)
        ++ closingEntries e t.machine := by
  intro s
  have hexecuted : ((s.departures limit fuel).filterMap (announced? ·.machine)).map Notice.entry
      = (s.departures limit fuel).filterMap (entryOfNext? ·.machine) := by
    rw [List.map_filterMap]
    exact congrArg (List.filterMap · _) (funext fun d => map_entry_announced? d.machine)
  have hstory : Notice.imageLoaded path memory.imageLength :: story limit fuel s e t
        ++ callNotices e t.machine
      = [Notice.imageLoaded path memory.imageLength, .runStarted 0 limit]
        ++ (s.departures limit fuel).filterMap (announced? ·.machine)
        ++ (runNotices e t.machine ++ callNotices e t.machine) := by
    rw [story, ← List.append_assoc]
    rfl
  rw [hstory, List.map_append, List.map_append, map_entry_opening, hexecuted, map_entry_closing]

/-- There is an entry for each step of a run that finds an instruction. -/
theorem length_told {κ : Type} [Console κ] (limit : Option UInt64) (fuel : Nat) (s : Session κ) :
    ((s.departures limit fuel).filterMap (entryOfNext? ·.machine)).length
      = s.findings limit fuel := by
  rw [List.length_filterMap_eq_countP, Session.findings]
  refine congrArg (List.countP · _) (funext fun d => ?_)
  rw [← map_entry_announced?, Option.isSome_map, d.isSome_announced?]

/-- Nothing else in a record is at the level of the trace. -/
theorem countP_trace_record {κ : Type} (path : String) (words : Nat) (limit : Option UInt64)
    (departures : List (Session κ)) (e : Ending) (m : Machine) :
    let told := departures.filterMap (entryOfNext? ·.machine)
    (openingEntries path words limit ++ told ++ closingEntries e m).countP (·.level = .trace)
      = told.length := by
  intro told
  have hopening : (openingEntries path words limit).countP (·.level = .trace) = 0 := rfl
  have hclosing : (closingEntries e m).countP (·.level = .trace) = 0 := by
    cases e <;> rfl
  have htold : told.countP (·.level = .trace) = told.length := by
    refine List.countP_eq_length.mpr fun entry hentry => ?_
    obtain ⟨d, -, hd⟩ := List.mem_filterMap.mp hentry
    unfold entryOfNext? at hd
    split at hd
    · cases hd
    · cases hd
      rfl
  rw [List.countP_append, List.countP_append, hopening, hclosing, htold, Nat.zero_add,
    Nat.add_zero]

variable {f : Frontend} {arguments : List String} {options : Options} {w : Surroundings}
  {memory : Memory} {source : Source} {fuel : Nat} {e : Ending} {t : Session Buffered}

/-- **A call that is asked to log everything logs the record of its run.** -/
theorem entries_of_run (hreads : f.ReadsLevels) (hoptions : f.parse arguments = .ok options)
    (htrace : f.Asks w.logSetting options.verbosity .trace)
    (hload : w.files.loadImage options.image = .ok memory)
    (hopen : w.openInput options.input = .ok source)
    (hrun : (⟨.ofMemory memory, w.console source⟩ : Session Buffered).run? options.maxSteps fuel
      = some (e, t)) :
    let s : Session Buffered := ⟨.ofMemory memory, w.console source⟩
    (invoke? f fuel arguments w).map (·.log.entries)
      = some (openingEntries options.image memory.imageLength options.maxSteps
        ++ (s.departures options.maxSteps fuel).filterMap (entryOfNext? ·.machine)
        ++ closingEntries e t.machine) := by
  intro s
  rw [invoke?_of_options hoptions, execute?_of_run hload hopen, hrun, Option.map_map,
    Option.map_some]
  refine congrArg some ?_
  show (Log.tell _ _).entries = _
  rw [Log.entries_tell_of_goesBy_trace (hreads.goesBy htrace)]
  exact map_entry_story memory options.image (w.console source) options.maxSteps fuel e t

/-- **The log is a record of the run.** Take a call whose image loads and whose input can be
opened, with or without a limit, that is to log everything, through any front end that reads
levels, and let its run end with `e` in `t`, over whatever input and output it has. Then its log
says that the image was loaded, with its path and how many words it has, that the run starts at
address 0 with this limit, and then, in the order of execution, the address and the text of each
instruction that a step finds in memory as it is at that moment. After that it says the outcome
and the count of steps twice, once of the run and once of the program, or how the run failed,
with the count and where the machine stands; and it says nothing else.

The steps of the run are made one after the other from the state at its start, up to `e₀` in `u`,
which the closing flush makes `e` in `t`. As many instructions are told of as steps were counted
if the steps of the run ended well, whatever came of the flush, or for want of an instruction;
and one more if an instruction that was found failed. The count that the log gives is that
number, unless it sticks at the greatest there is, which it cannot do below a limit. -/
theorem log_records_run (f : Frontend) (arguments : List String) (options : Options)
    (w : Surroundings) (memory : Memory) (source : Source) (fuel : Nat) (e : Ending)
    (t : Session Buffered) (hreads : f.ReadsLevels) (hoptions : f.parse arguments = .ok options)
    (htrace : f.Asks w.logSetting options.verbosity .trace)
    (hload : w.files.loadImage options.image = .ok memory)
    (hopen : w.openInput options.input = .ok source)
    (hrun : (⟨.ofMemory memory, w.console source⟩ : Session Buffered).run? options.maxSteps fuel
      = some (e, t)) :
    let s : Session Buffered := ⟨.ofMemory memory, w.console source⟩
    let told := (s.departures options.maxSteps fuel).filterMap (entryOfNext? ·.machine)
    (invoke? f fuel arguments w).map (·.log.entries)
        = some (openingEntries options.image memory.imageLength options.maxSteps ++ told
          ++ closingEntries e t.machine)
      ∧ ∃ e₀ u made counted, s.loop? options.maxSteps fuel = some (e₀, u) ∧ u.close e₀ = (e, t)
          ∧ s.departures options.maxSteps fuel
            = (List.range made).map (Execution.after Session.step · s)
          ∧ Execution.after Session.step made s = u
          ∧ (∀ outcome, e₀ = .finished outcome → told.length = counted)
          ∧ (∀ fault, e₀ = .failed fault →
              told.length = if fault.isFetch then counted else counted + 1)
          ∧ t.machine.steps.toNat = min counted (2 ^ 64 - 1)
          ∧ (options.maxSteps.isSome → t.machine.steps.toNat = counted) := by
  intro s told
  refine ⟨entries_of_run hreads hoptions htrace hload hopen hrun, ?_⟩
  obtain ⟨e₀, u, hloop, hclose⟩ := Session.exists_loop_of_run? hrun
  obtain ⟨counted, hmin, hexact, hfound⟩ := Session.tally_loop hloop
  have ht : u.machine = t.machine := congrArg (fun r => r.2.machine) hclose
  have htold : told.length = counted + if e₀.brokeOff then 1 else 0 :=
    (length_told options.maxSteps fuel s).trans hfound
  obtain ⟨made, hmade, hu⟩ := Execution.departures_eq_map_after hloop
  refine ⟨e₀, u, made, counted, hloop, hclose, hmade, hu, ?_, ?_, ?_, fun hsome => ?_⟩
  · rintro outcome rfl
    exact htold
  · rintro fault rfl
    rw [htold, Ending.brokeOff]
    cases fault.isFetch <;> rfl
  · rw [← ht, hmin, show s.machine.steps.toNat = 0 from rfl, Nat.zero_add]
  · rw [← ht, hexact hsome, show s.machine.steps.toNat = 0 from rfl, Nat.zero_add]

/-- A program that begins with a `pop`: the stack is empty, so the instruction is told of and
not counted. -/
theorem log_records_run_pop :
    let files : Files :=
      { find := fun path =>
          if path = "pop" then .ok (.file [3, 0, 0, 128]) else .error .notFound }
    (invoke? .standard 1 ["-vv", "pop"] { files }).map (·.log.entries)
      = some [⟨.debug, "image loaded", [("path", "pop"), ("words", "2")]⟩,
          ⟨.debug, "run start", [("ip", "0"), ("max_steps", "None")]⟩,
          ⟨.trace, "execute", [("address", "0"), ("instr", "pop r0")]⟩,
          ⟨.error, "program error: stack underflow at 0", [("steps", "0"), ("ip", "0")]⟩] := by
  intro files
  obtain ⟨memory, hmemory⟩ : ∃ memory, Memory.ofBytes [3, 0, 0, 128] = .ok memory := ⟨_, rfl⟩
  let w : Surroundings := { files }
  let s : Session Buffered := ⟨.ofMemory memory, w.console w.standardInput⟩
  obtain ⟨hfailed, htold, hlength⟩ :
      (s.run? none 1).map (fun r => (r.1, r.2.machine.steps, r.2.machine.ip))
        = some (.failed (.stackUnderflow 0), 0, 0)
      ∧ (s.departures none 1).filterMap (entryOfNext? ·.machine)
        = [⟨.trace, "execute", [("address", "0"), ("instr", "pop r0")]⟩]
      ∧ memory.imageLength = 2 := by
    cases hmemory
    decide +kernel
  obtain ⟨⟨e, t⟩, hrun, hends⟩ := Option.map_eq_some_iff.mp hfailed
  obtain ⟨rfl, hcount⟩ := Prod.mk.inj hends
  obtain ⟨hsteps, hip⟩ := Prod.mk.inj hcount
  have hload : files.loadImage "pop" = .ok memory := by
    rw [Files.loadImage_of_find rfl, hmemory]
    rfl
  obtain ⟨hentries, -⟩ := log_records_run .standard ["-vv", "pop"]
    { image := "pop", verbosity := 2 } w memory w.standardInput 1 _ t
    Frontend.standard_readsLevels rfl (.counted rfl rfl) hload rfl hrun
  rw [hentries, htold, closingEntries, hsteps, hip, hlength]
  decide +kernel

/-- **The count sticks below the record.** Five loops in loops, called without a limit: the
program halts, and the log tells of 75560169639294428839937 instructions and says that there
were 18446744073709551615. -/
theorem count_sticks_below_record :
    let words : List Word := [
      9, 32768, 32768, 1, 7, 32768, 0,
      9, 32769, 32769, 1, 7, 32769, 0,
      9, 32770, 32770, 1, 7, 32770, 0,
      9, 32771, 32771, 1, 7, 32771, 0,
      9, 32772, 32772, 1, 7, 32772, 0,
      0]
    let files : Files :=
      { find := fun path =>
          if path = "loops" then .ok (.file (Word.bytesOfList words)) else .error .notFound }
    ∃ fuel report, invoke? .standard fuel ["-vv", "loops"] { files } = some report
      ∧ report.log.entries.countP (·.level = .trace) = 75560169639294428839937
      ∧ report.log.entries.getLast? = some { level := .info, message := "program finished"
                                             values := [("outcome", "Halted"),
                                               ("steps", "18446744073709551615")] } := by
  intro words files
  let rs : List Register := [0, 1, 2, 3, 4]
  let w : Surroundings := { files }
  obtain ⟨memory, hmemory, hstarts⟩ :=
    Memory.ofWords_of_le (show words.length ≤ memoryWords by decide)
  have hload : files.loadImage "loops" = .ok memory := by
    rw [Files.loadImage_of_find rfl, Memory.ofBytes_bytesOfList (by decide), hmemory]
    rfl
  have hnest : words = Loops.nest rs := by decide
  have hholds : memory.Holds 0 (Loops.nest rs) := hnest ▸ hstarts.holds (by decide)
  have houtput : w.Accepting := ⟨Refusal.idle_none, Refusal.idle_none⟩
  have hreliable : (w.console w.standardInput).Reliable :=
    houtput.reliable Refusal.idle_none (by decide)
  obtain ⟨t, hrun, hsteps, hfound⟩ :=
    Session.exists_run?_of_nest (show rs.Nodup by decide) hholds hreliable
  have hoptions : Frontend.standard.parse ["-vv", "loops"]
      = .ok { image := "loops", verbosity := 2 } := rfl
  obtain ⟨report, hreport, hentries⟩ := Option.map_eq_some_iff.mp
    (entries_of_run Frontend.standard_readsLevels hoptions (.counted rfl rfl) hload rfl hrun)
  have hlaps : Loops.laps rs.length + 1 = 75560169639294428839937 := by decide
  have hcount : t.machine.steps.toNat = 18446744073709551615 := by
    rw [hsteps, hlaps]
    decide
  refine ⟨_, report, hreport, ?_, ?_⟩
  · rw [hentries, countP_trace_record, length_told]
    exact hfound.trans hlaps
  · rw [hentries, List.getLast?_append]
    show some (Entry.mk .info "program finished" [_, ("steps", toString t.machine.steps.toNat)]) = _
    rw [hcount]
    decide +kernel

end CommandLine

end RegisterMachine
