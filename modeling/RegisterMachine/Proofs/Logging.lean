import Mathlib.Data.List.Basic
import RegisterMachine.Proofs.Histories
import RegisterMachine.Proofs.Invocations
import RegisterMachine.Proofs.Settings

/-!
# Logging changes nothing but the log

How much is logged is asked for in two ways, by options and by a setting, and a program
that is run to find out what it does had better not do something else when it is watched.
That it does not is seen by writing down what a call has to tell, all of it, whether or
not somebody listens: a list of notices that comes with the report and **does not depend
on the log it is told to** (`CommandLine.execute?_tells`). The log only chooses among
them. So nothing about a call but its log depends on what is to be logged, and as far as
filters go by the levels, **the log at a level is the log with everything in it, without
the entries that matter less** (`CommandLine.logging_never_interferes`).

A run tells of its start, of each instruction before it is executed, and of its end
(`CommandLine.loggedRun?_eq`). The instructions are told at the departures of its steps,
since a logged step looks at the machine it finds.
-/

namespace RegisterMachine

namespace CommandLine

/-! ## Telling a log -/

namespace Log

/-- **The log after several notices**, each of which it keeps or drops. -/
def tell (log : Log) (notices : List Notice) : Log := notices.foldl add log

theorem tell_append (log : Log) (notices later : List Notice) :
    log.tell (notices ++ later) = (log.tell notices).tell later :=
  List.foldl_append

/-- **A log keeps what its filter lets through**, the latest first. -/
theorem notices_tell (log : Log) (notices : List Notice) :
    (log.tell notices).notices = (notices.filter log.filter).reverse ++ log.notices := by
  induction notices generalizing log with
  | nil => rfl
  | cons notice notices ih =>
    show ((log.add notice).tell notices).notices = _
    rw [ih, filter_add, notices_add]
    cases hkept : log.filter notice <;> simp [hkept]

/-- Its entries are those of the notices it keeps, in their order. -/
theorem entries_tell (filter : Filter) (notices : List Notice) :
    (({ filter } : Log).tell notices).entries = (notices.filter filter).map Notice.entry := by
  rw [entries, notices_tell, List.append_nil, List.reverse_reverse]

/-- **A log at a level has the entries that matter as much as the level.** -/
theorem entries_tell_of_goesBy {filter : Filter} {level : Level}
    (h : Frontend.GoesBy filter level) (notices : List Notice) :
    (({ filter } : Log).tell notices).entries
      = (notices.map Notice.entry).filter fun e => e.level.rank ≤ level.rank := by
  rw [entries_tell, List.filter_map]
  exact congrArg (List.map Notice.entry)
    (List.filter_congr fun n _ => Bool.eq_iff_iff.mpr ((h n).trans decide_eq_true_iff.symm))

/-- **A log at the least level has all entries.** -/
theorem entries_tell_of_goesBy_trace {filter : Filter} (h : Frontend.GoesBy filter .trace)
    (notices : List Notice) :
    (({ filter } : Log).tell notices).entries = notices.map Notice.entry := by
  rw [entries_tell_of_goesBy h]
  exact List.filter_eq_self.mpr fun e _ => decide_eq_true e.level.rank_le_trace

/-- A log that lets nothing through has no entries. -/
theorem entries_tell_of_silent {filter : Filter} (h : ∀ n, filter n = false)
    (notices : List Notice) : (({ filter } : Log).tell notices).entries = [] := by
  rw [entries_tell, List.filter_eq_nil_iff.mpr fun n _ => by rw [h n]; exact Bool.false_ne_true]
  rfl

end Log

/-! ## What is told -/

/-- What is told about the instruction a machine is about to execute, if there is one. -/
def announced? (m : Machine) : Option Notice :=
  match m.memory.decode m.ip with
  | .error _ => none
  | .ok (instruction, _) => some (.executing m.ip instruction)

/-- A log is told of the next instruction. -/
theorem noteInstruction_eq (m : Machine) (log : Log) :
    noteInstruction m log = log.tell (announced? m).toList := by
  unfold noteInstruction announced?
  cases m.memory.decode m.ip with
  | error fault => rfl
  | ok found => rfl

/-- Along the way it is told of one instruction after the other. -/
theorem foldl_noteInstruction {κ : Type} (departures : List (Session κ)) (log : Log) :
    departures.foldl (fun log s => noteInstruction s.machine log) log
      = log.tell (departures.filterMap fun s => announced? s.machine) := by
  rw [List.filterMap_eq_flatMap_toList]
  induction departures generalizing log with
  | nil => rfl
  | cons s departures ih =>
    rw [List.foldl_cons, ih, noteInstruction_eq, List.flatMap_cons, Log.tell_append]

/-- What a run tells at its end. -/
def runNotices (e : Ending) (m : Machine) : List Notice :=
  match e with
  | .finished outcome => [.runFinished outcome m.steps]
  | .failed _ => []

/-- What a call tells after its run. -/
def callNotices (e : Ending) (m : Machine) : List Notice :=
  match e with
  | .finished outcome => [.programFinished outcome m.steps]
  | .failed fault => [.programFailed fault m.steps m.ip]

section

variable {κ : Type} [Console κ]

/-- **What is told of a run** from `s` that ends with `e` in `t`. -/
def story (limit : Option UInt64) (fuel : Nat) (s : Session κ) (e : Ending)
    (t : Session κ) : List Notice :=
  .runStarted s.machine.ip limit :: (s.departures limit fuel).filterMap (announced? ·.machine)
    ++ runNotices e t.machine

/-- **A run that is logged is the run, and its log is told the story of it.** -/
theorem loggedRun?_eq (limit : Option UInt64) (fuel : Nat) (s : Session κ) (log : Log) :
    loggedRun? limit fuel s log
      = (s.run? limit fuel).map fun r => (r.1, r.2, log.tell (story limit fuel s r.1 r.2)) := by
  have hnoting (log : Log) :
      Execution.run? loggedStep (·.1.machine.steps) limit fuel (s, log)
        = (Execution.run? Session.step (·.machine.steps) limit fuel s).map fun r =>
            (r.1, r.2,
              (s.departures limit fuel).foldl (fun log s => noteInstruction s.machine log) log) :=
    Execution.run?_noting Session.step (·.machine.steps) (fun _ _ => rfl) fuel s log
  unfold loggedRun? Session.run? Session.loop?
  dsimp only
  rw [hnoting, foldl_noteInstruction, Option.map_map, Option.map_map]
  refine congrArg (Option.map · _) (funext fun ⟨e, t⟩ => ?_)
  simp only [Function.comp, story, Log.tell_append]
  rcases t.close e with ⟨outcome | fault, u⟩ <;> rfl

end

/-- What a call leaves behind after its run: all but the log depends on the run alone, and
the log is told how it ended. -/
theorem conclude_eq (e : Ending) (t : Session Buffered) (log : Log) :
    conclude e t log
      = { exitStatus := e.exitStatus, output := t.console.drop.sink.accepted.toList
          log := log.tell (callNotices e t.machine) } := by
  cases e <;> rfl

variable {w : Surroundings} {options : Options} {memory : Memory} {source : Source}

/-- **A call with an image and input** is the run, told to the log from the loading of the
image to the end. -/
theorem execute?_of_run (hload : w.files.loadImage options.image = .ok memory)
    (hopen : w.openInput options.input = .ok source) (fuel : Nat) (log : Log) :
    let s : Session Buffered := ⟨.ofMemory memory, w.console source⟩
    execute? fuel options w log
      = (s.run? options.maxSteps fuel).map fun r =>
          { exitStatus := r.1.exitStatus, output := r.2.console.drop.sink.accepted.toList
            log := log.tell (.imageLoaded options.image memory.imageLength
              :: story options.maxSteps fuel s r.1 r.2 ++ callNotices r.1 r.2.machine)
            starved := options.input.isNone && endedAtInput r.1 } := by
  intro s
  unfold execute?
  rw [hload]
  dsimp only
  rw [hopen]
  dsimp only
  rw [loggedRun?_eq, Option.map_map]
  refine congrArg (Option.map · _) (funext fun ⟨e, t⟩ => ?_)
  simp only [Function.comp, conclude_eq, Log.tell_append]
  rfl

/-- **What a call has to tell does not depend on the log it is told to**, and neither does
the rest of the report. -/
theorem execute?_tells (fuel : Nat) (options : Options) (w : Surroundings) :
    ∃ told : Option (Report × List Notice), ∀ log,
      execute? fuel options w log = told.map fun p => { p.1 with log := log.tell p.2 } := by
  let silent : Log := { filter := fun _ => false }
  cases hload : w.files.loadImage options.image with
  | error error =>
    refine ⟨some ({ exitStatus := fileStatus, log := silent },
      [.loadFailed options.image error]), fun log => ?_⟩
    rw [execute?_of_loadImage_error hload]
    rfl
  | ok memory =>
    cases hopen : w.openInput options.input with
    | error found =>
      refine ⟨some ({ exitStatus := fileStatus, log := silent },
        [.imageLoaded options.image memory.imageLength, .inputFailed found.1 found.2]),
        fun log => ?_⟩
      unfold execute?
      rw [hload]
      dsimp only
      rw [hopen]
      rfl
    | ok source =>
      let s : Session Buffered := ⟨.ofMemory memory, w.console source⟩
      refine ⟨(s.run? options.maxSteps fuel).map
        fun r => ({ exitStatus := r.1.exitStatus
                    output := r.2.console.drop.sink.accepted.toList
                    log := silent
                    starved := options.input.isNone && endedAtInput r.1 },
          .imageLoaded options.image memory.imageLength
            :: story options.maxSteps fuel s r.1 r.2 ++ callNotices r.1 r.2.machine), fun log => ?_⟩
      rw [execute?_of_run hload hopen, Option.map_map]
      rfl

/-- **Logging never interferes with a run, and a log at a level is the full one without what
matters less.** Take two calls whose arguments differ, for the front end at hand, only in how
often they ask for more logging, in the same surroundings but for the log setting, which may
be any. Then one of them ends exactly when the other does, with the same exit status and the
same bytes on standard output, however it ends and whatever the front end's filters do.

Now let the front end read levels. The level of a call is the one its setting names, in any
letter case; without a setting, or with one that is not understood, the options decide:
warnings and what is worse when they ask for nothing more, everything but the instructions
when they ask once, and everything when they ask again. If the second call is to log
everything, then

* the log of the first one has the entries of the second one's that matter at least as much
  as its level says, and no others, in the same order;
* with the empty setting it has none.

What matters most is an error, then come a warning, an information, what helps to find a
mistake, and the trace of a run. -/
theorem logging_never_interferes (f : Frontend) (arguments arguments' : List String)
    (options : Options) (verbosity' : Nat) (w : Surroundings) (setting' : Option String)
    (fuel : Nat) (hoptions : f.parse arguments = .ok options)
    (hoptions' : f.parse arguments' = .ok { options with verbosity := verbosity' }) :
    let call := invoke? f fuel arguments w
    let call' := invoke? f fuel arguments' { w with logSetting := setting' }
    call.map Report.visible = call'.map Report.visible
      ∧ (f.ReadsLevels → f.Asks setting' verbosity' .trace →
          (∀ level, f.Asks w.logSetting options.verbosity level →
            call.map (·.log.entries)
              = call'.map fun r => r.log.entries.filter fun e => e.level.rank ≤ level.rank)
          ∧ (w.logSetting = some "" → call.map (·.log.entries) = call'.map fun _ => []))
      ∧ [Level.error, .warn, .info, .debug, .trace].Pairwise (·.rank < ·.rank) := by
  intro call call'
  obtain ⟨told, htold⟩ := execute?_tells fuel options w
  have hcall : call = told.map fun p =>
      { p.1 with
        log := ({ filter := f.filter w.logSetting options.verbosity } : Log).tell p.2 } :=
    (invoke?_of_options hoptions fuel w).trans (htold _)
  -- neither how much logging is asked for nor the setting is read by anything but the filter
  have hcall' : call' = told.map fun p =>
      { p.1 with log := ({ filter := f.filter setting' verbosity' } : Log).tell p.2 } :=
    (invoke?_of_options hoptions' fuel _).trans (htold _)
  refine ⟨?_, fun hreads htrace => ⟨fun level hlevel => ?_, fun hempty => ?_⟩, by decide⟩
  · rw [hcall, hcall', Option.map_map, Option.map_map]
    rfl
  · rw [hcall, hcall', Option.map_map, Option.map_map]
    refine congrArg (Option.map · told) (funext fun p => ?_)
    show (Log.tell _ p.2).entries = (Log.tell _ p.2).entries.filter _
    rw [Log.entries_tell_of_goesBy (hreads.goesBy hlevel),
      Log.entries_tell_of_goesBy_trace (hreads.goesBy htrace)]
  · rw [hcall, hcall', Option.map_map, Option.map_map]
    refine congrArg (Option.map · told) (funext fun p => ?_)
    exact Log.entries_tell_of_silent (hempty ▸ hreads.silent options.verbosity) p.2

/-- A program that gives back the letter A, called with the setting `Info`, and with
everything logged. -/
theorem logging_never_interferes_echo :
    let files : Files :=
      { find := fun path =>
          if path = "echo" then .ok (.file [20, 0, 0, 128, 19, 0, 0, 128, 0, 0])
          else .error .notFound }
    let w : Surroundings :=
      { files, standardInput := { pending := [65] }, logSetting := some "Info" }
    let w' : Surroundings := { w with logSetting := none }
    let full : List Entry :=
      [⟨.debug, "image loaded", [("path", "echo"), ("words", "5")]⟩,
        ⟨.debug, "run start", [("ip", "0"), ("max_steps", "None")]⟩,
        ⟨.trace, "execute", [("address", "0"), ("instr", "in r0")]⟩,
        ⟨.trace, "execute", [("address", "2"), ("instr", "out r0")]⟩,
        ⟨.trace, "execute", [("address", "4"), ("instr", "halt")]⟩,
        ⟨.debug, "run finished", [("outcome", "Halted"), ("steps", "3")]⟩,
        ⟨.info, "program finished", [("outcome", "Halted"), ("steps", "3")]⟩]
    (invoke? .standard 3 ["echo"] w).map Report.visible = some (0, [65])
      ∧ (invoke? .standard 3 ["echo"] w).map (·.log.entries)
        = some [⟨.info, "program finished", [("outcome", "Halted"), ("steps", "3")]⟩]
      ∧ (invoke? .standard 3 ["-vv", "echo"] w').map Report.visible = some (0, [65])
      ∧ (invoke? .standard 3 ["-vv", "echo"] w').map (·.log.entries) = some full := by
  intro files w w' full
  obtain ⟨hvisible, hlog, -⟩ :=
    logging_never_interferes .standard ["echo"] ["-vv", "echo"] { image := "echo" } 2 w none 3
      rfl rfl
  obtain ⟨hlevel, -⟩ := hlog Frontend.standard_readsLevels (.counted rfl rfl)
  have hname : "Info".map Char.toLower = Level.info.word := by
    rw [← String.toList_inj, String.toList_map]
    rfl
  -- a filter that goes by a level is computed without reading the setting
  have hfilter : Frontend.standard.filter none 2
      = fun n => decide (n.level.rank ≤ Level.trace.rank) :=
    funext fun n => Bool.eq_iff_iff.mpr
      ((Frontend.standard_readsLevels.goesBy (.counted rfl rfl) n).trans decide_eq_true_iff.symm)
  have hcall : invoke? .standard 3 ["-vv", "echo"] w'
      = execute? 3 { image := "echo", verbosity := 2 } w'
          { filter := fun n => decide (n.level.rank ≤ Level.trace.rank) } := by
    rw [← hfilter]
    exact invoke?_of_options rfl 3 w'
  have hfull : (invoke? .standard 3 ["-vv", "echo"] w').map Report.visible = some (0, [65]) := by
    rw [hcall]
    decide +kernel
  have hentries : (invoke? .standard 3 ["-vv", "echo"] w').map (·.log.entries) = some full := by
    rw [hcall]
    decide +kernel
  refine ⟨hvisible.trans hfull, ?_, hfull, hentries⟩
  have hpart := hlevel .info (.named rfl hname)
  have hmap := congrArg (Option.map fun entries : List Entry =>
    entries.filter fun e => e.level.rank ≤ Level.info.rank) hentries
  rw [Option.map_map] at hmap
  exact hpart.trans hmap

end CommandLine

end RegisterMachine
