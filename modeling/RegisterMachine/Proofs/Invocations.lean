import RegisterMachine.CommandLine.Invocation
import RegisterMachine.CommandLine.Standard
import RegisterMachine.Proofs.Buffering
import RegisterMachine.Proofs.Observation

/-!
# A call of the program is a run

Around the machine there is a program that looks for an image, looks for input, keeps a log
and turns what happened into an exit status. None of that reaches the machine. **What is
seen of a call from outside, its exit status and the bytes on standard output, is what a
run over a console in memory comes to** (`CommandLine.invoke?_as_run`), provided there is
an image and there is input; where there is not, the call answers without running anything.
The front end may be any: it says what the arguments ask for, and nothing else of it matters.

The log is carried along a run and never asked (`CommandLine.map_loggedRun?`), and the
stream that input and output go through does not show, nor the buffer in front of it, since
nothing is refused and what is in the buffer is passed on at the end. So it makes no
difference where the input comes from, nor what is logged.
-/

namespace RegisterMachine

/-- **The exit status a run leads to.** -/
def Ending.exitStatus : Ending → Nat
  | .finished _ => 0
  | .failed fault => fault.exitCode

/-- **What is seen of a run from outside.** -/
def Session.visible {κ : Type} [Console.Accountable κ] (r : Ending × Session κ) : Nat × List Byte :=
  (r.1.exitStatus, Console.written r.2.console)

namespace CommandLine

/-- **What is seen of a call from outside**: its exit status, and standard output. -/
def Report.visible (r : Report) : Nat × List Byte := (r.exitStatus, r.output)

namespace Surroundings

/-- **Standard output takes everything.** -/
structure Accepting (w : Surroundings) : Prop where
  write : Refusal.Idle w.writeRefusal
  flush : Refusal.Idle w.flushRefusal

/-- **These bytes are the input of a call** that is told, by a path or by none, to read
from there: what is on standard input, which then refuses nothing, or in a file. -/
inductive Supplies (w : Surroundings) : Option String → List Byte → Prop where
  /-- No file was named. -/
  | standard : Refusal.Idle w.standardInput.refusal → 0 < w.standardInput.chunk →
      Supplies w none w.standardInput.pending
  /-- A file was named, and standard input does not matter. -/
  | file {path : String} {content : List Byte} : w.files.find path = .ok (.file content) →
      Supplies w (some path) content

variable {w : Surroundings} {input : List Byte}

/-- Either way, the input is with a source that refuses nothing. -/
theorem Supplies.openInput {path : Option String} (h : w.Supplies path input) :
    ∃ source, w.openInput path = .ok source ∧ source.pending = input
      ∧ Refusal.Idle source.refusal ∧ 0 < source.chunk := by
  cases h with
  | standard hrefusal hchunk => exact ⟨w.standardInput, rfl, rfl, hrefusal, hchunk⟩
  | file hfind =>
    refine ⟨{ pending := input, chunk := blockSize }, ?_, rfl, Refusal.idle_none, blockSize_pos⟩
    unfold Surroundings.openInput
    dsimp only
    rw [hfind]

/-- Over such a source, a console whose output is taken never fails. -/
theorem Accepting.reliable (h : w.Accepting) {source : Source}
    (hrefusal : Refusal.Idle source.refusal) (hchunk : 0 < source.chunk) :
    (w.console source).Reliable :=
  ⟨hchunk, hrefusal, h.write, h.flush⟩

end Surroundings

variable {f : Frontend} {w : Surroundings} {input : List Byte} {options : Options}
  {arguments : List String} {memory : Memory}

/-- Loading a file that is there is loading its content. -/
theorem Files.loadImage_of_find {files : Files} {path : String} {image : List Byte}
    (h : files.find path = .ok (.file image)) :
    files.loadImage path = (Memory.ofBytes image).mapError .image := by
  unfold Files.loadImage Files.read
  rw [h]

/-- **A run that is logged is the run**, with a log beside it. -/
theorem map_loggedRun? {κ : Type} [Console κ] (limit : Option UInt64) (fuel : Nat)
    (session : Session κ) (log : Log) :
    (loggedRun? limit fuel session log).map (fun r => (r.1, r.2.1)) = session.run? limit fuel := by
  have hstep : ∀ s : Session κ × Log,
      Session.step s.1 = ((loggedStep s).1, (loggedStep s).2.1) := fun _ => rfl
  have hloop : session.loop? limit fuel
      = (Execution.run? loggedStep (fun s => s.1.machine.steps) limit fuel
          (session, log.add (.runStarted session.machine.ip limit))).map fun p => (p.1, p.2.1) :=
    Execution.run?_map (f := Prod.fst) (fun _ => rfl) hstep fuel
      (session, log.add (.runStarted session.machine.ip limit))
  unfold loggedRun? Session.run?
  rw [hloop, Option.map_map, Option.map_map]
  refine congrArg (Option.map · _) (funext fun ⟨e, s, log⟩ => ?_)
  -- the notice at the end depends on the ending, and changes neither it nor the session
  simp only [Function.comp]
  rcases s.close e with ⟨_ | _, t⟩ <;> rfl

/-- The report on a run shows its ending, and the output that was taken in the end. -/
theorem visible_conclude (e : Ending) (s : Session Buffered) (log : Log) :
    (conclude e s log).visible = (e.exitStatus, s.console.drop.sink.accepted.toList) := by
  cases e <;> rfl

/-- **Over a console that never fails a report shows what a run over a console in memory
shows.** -/
theorem visible_run_reliable (m : Machine) {k : Buffered} (hk : k.Reliable)
    (hwritten : Console.written k = []) (limit : Option UInt64) (fuel : Nat) (log : Log) :
    (loggedRun? limit fuel ⟨m, k⟩ log).map (fun r => (conclude r.1 r.2.1 r.2.2).visible)
      = ((⟨m, .ofInput (Console.remaining k)⟩ : Session Buffer).run? limit fuel).map
          Session.visible := by
  have halike : Session.Alike Buffered.Reliable (fun _ : Buffer => True)
      ⟨m, k⟩ ⟨m, .ofInput (Console.remaining k)⟩ :=
    ⟨rfl, ⟨rfl, hwritten⟩, hk, trivial⟩
  have hagree := halike.run_agree Buffered.unfailing Buffer.unfailing limit fuel
  have hreport : ((⟨m, k⟩ : Session Buffered).run? limit fuel).map
        (fun r => (r.1.exitStatus, r.2.console.drop.sink.accepted.toList))
      = ((⟨m, .ofInput (Console.remaining k)⟩ : Session Buffer).run? limit fuel).map
          Session.visible := by
    refine hagree.map_eq fun {e s t} hst => ?_
    show (e.exitStatus, s.console.drop.sink.accepted.toList)
      = (e.exitStatus, Console.written t.console)
    rw [Buffered.Reliable.accepted_drop hst.left, hst.views.written]
  rw [← hreport, ← map_loggedRun? limit fuel ⟨m, k⟩ log, Option.map_map]
  exact congrArg (Option.map · _) (funext fun ⟨e, s, log⟩ => visible_conclude e s log)

/-- **With an image and input, a call shows what a run over a console in memory shows.** -/
theorem visible_execute? (hload : w.files.loadImage options.image = .ok memory)
    (houtput : w.Accepting) (hinput : w.Supplies options.input input) (fuel : Nat) (log : Log) :
    (execute? fuel options w log).map Report.visible
      = ((⟨.ofMemory memory, .ofInput input⟩ : Session Buffer).run? options.maxSteps fuel).map
          Session.visible := by
  obtain ⟨source, hopen, rfl, hrefusal, hchunk⟩ := hinput.openInput
  have hrun := visible_run_reliable (.ofMemory memory) (houtput.reliable hrefusal hchunk) rfl
    options.maxSteps fuel (log.add (.imageLoaded options.image memory.imageLength))
  refine Eq.trans ?_ hrun
  unfold execute?
  rw [hload]
  dsimp only
  rw [hopen]
  dsimp only
  rw [Option.map_map]
  rfl

/-- Without an image nothing is run, and the input is not looked at. -/
theorem execute?_of_loadImage_error {error : LoadError}
    (hload : w.files.loadImage options.image = .error error) (fuel : Nat) (log : Log) :
    execute? fuel options w log
      = some { exitStatus := 1, output := []
               log := log.add (.loadFailed options.image error) } := by
  unfold execute?
  rw [hload]
  rfl

/-- Nor is anything run when the input cannot be opened. -/
theorem execute?_of_find_error {path : String} {error : FileError}
    (hload : w.files.loadImage options.image = .ok memory) (hpath : options.input = some path)
    (hfind : w.files.find path = .error error) (fuel : Nat) (log : Log) :
    execute? fuel options w log
      = some { exitStatus := 1, output := []
               log := (log.add (.imageLoaded options.image memory.imageLength)).add
                 (.inputFailed path error) } := by
  unfold execute? Surroundings.openInput
  rw [hload, hpath]
  dsimp only
  rw [hfind]
  rfl

/-- Arguments that can be understood are carried out. -/
theorem invoke?_of_options (hoptions : f.parse arguments = .ok options) (fuel : Nat)
    (w : Surroundings) :
    invoke? f fuel arguments w
      = execute? fuel options w { filter := f.filter w.logSetting options.verbosity } := by
  unfold invoke?
  rw [hoptions]

/-- **What is seen of a call**, with an image file and input, depends on what is in them and
on the limit, and on nothing else. -/
theorem visible_invoke? {image : List Byte} (hoptions : f.parse arguments = .ok options)
    (himage : w.files.find options.image = .ok (.file image)) (houtput : w.Accepting)
    (hinput : w.Supplies options.input input) (fuel : Nat) :
    (invoke? f fuel arguments w).map Report.visible
      = match Memory.ofBytes image with
        | .error _ => some (1, [])
        | .ok memory =>
          ((⟨.ofMemory memory, .ofInput input⟩ : Session Buffer).run? options.maxSteps fuel).map
            Session.visible := by
  have hload := Files.loadImage_of_find himage
  rw [invoke?_of_options hoptions]
  cases hmemory : Memory.ofBytes image with
  | error error =>
    rw [hmemory] at hload
    rw [execute?_of_loadImage_error hload]
    rfl
  | ok memory =>
    rw [hmemory] at hload
    exact visible_execute? hload houtput hinput fuel _

/-- **What is seen of a call is a run over a console in memory.** For any front end and
arguments that it understands, with an image file at the path they give:

* content that is no image is answered with exit status 1 and no output, whatever is said
  about input;
* an image is answered likewise when the input file cannot be opened: the image was loaded,
  and that is all that happened;
* otherwise, as long as standard output takes what it is given, the call ends when the run
  does, with the exit status its ending leads to, and exactly its output on standard output.

None of this needs more than the two files and, where no input file is named, standard
input. So two calls with the same image, limit and input show the same, wherever each of
them finds its input and whatever it logs. -/
theorem invoke?_as_run (f : Frontend) (arguments : List String) (options : Options)
    (w : Surroundings) (image : List Byte) (hoptions : f.parse arguments = .ok options)
    (himage : w.files.find options.image = .ok (.file image)) :
    (∀ error, Memory.ofBytes image = .error error → ∀ fuel,
        invoke? f fuel arguments w
          = some { exitStatus := 1, output := []
                   log := ({ filter := f.filter w.logSetting options.verbosity } : Log).add
                     (.loadFailed options.image (.image error)) })
      ∧ (∀ memory, Memory.ofBytes image = .ok memory →
          (∀ path error, options.input = some path → w.files.find path = .error error →
            ∀ fuel, invoke? f fuel arguments w
              = some { exitStatus := 1, output := []
                       log := (({ filter := f.filter w.logSetting options.verbosity } : Log).add
                         (.imageLoaded options.image memory.imageLength)).add
                           (.inputFailed path error) })
          ∧ ∀ input, w.Accepting → w.Supplies options.input input → ∀ fuel,
              (invoke? f fuel arguments w).map Report.visible
                = ((⟨.ofMemory memory, .ofInput input⟩ : Session Buffer).run?
                    options.maxSteps fuel).map Session.visible)
      ∧ ∀ arguments' options' w' input, f.parse arguments' = .ok options' →
          w'.files.find options'.image = .ok (.file image) → options'.maxSteps = options.maxSteps →
          w.Accepting → w'.Accepting → w.Supplies options.input input →
          w'.Supplies options'.input input →
          ∀ fuel, (invoke? f fuel arguments' w').map Report.visible
            = (invoke? f fuel arguments w).map Report.visible := by
  have hload := Files.loadImage_of_find himage
  refine ⟨fun error herror fuel => ?_, fun memory hmemory => ⟨?_, ?_⟩, ?_⟩
  · rw [herror] at hload
    rw [invoke?_of_options hoptions, execute?_of_loadImage_error hload]
  · intro path error hpath hfind fuel
    rw [hmemory] at hload
    rw [invoke?_of_options hoptions, execute?_of_find_error hload hpath hfind]
  · intro input houtput hinput fuel
    rw [visible_invoke? hoptions himage houtput hinput, hmemory]
  · intro arguments' options' w' input hoptions' himage' hlimit houtput houtput' hinput hinput' fuel
    rw [visible_invoke? hoptions' himage' houtput' hinput',
      visible_invoke? hoptions himage houtput hinput, hlimit]

/-- A program that gives back a byte, called with that byte on standard input, with a file
that has it, and with a file that is not there. -/
theorem invoke?_as_run_echo :
    let files : Files :=
      { find := fun path =>
          if path = "echo" then .ok (.file [20, 0, 0, 128, 19, 0, 0, 128, 0, 0])
          else if path = "text" then .ok (.file [104])
          else .error .notFound }
    let w : Surroundings := { files, standardInput := { pending := [104] } }
    let w' : Surroundings := { files, logSetting := some "trace" }
    (invoke? .standard 3 ["echo"] w).map Report.visible = some (0, [104])
      ∧ (invoke? .standard 3 ["--input=text", "echo"] w').map Report.visible = some (0, [104])
      ∧ (invoke? .standard 0 ["echo", "--input", "nowhere"] w).map Report.visible
        = some (1, []) := by
  intro files w w'
  obtain ⟨memory, hmemory⟩ :
      ∃ memory, Memory.ofBytes [20, 0, 0, 128, 19, 0, 0, 128, 0, 0] = .ok memory := ⟨_, rfl⟩
  have houtput : w.Accepting := ⟨Refusal.idle_none, Refusal.idle_none⟩
  have hinput : w.Supplies none [104] := .standard Refusal.idle_none (by decide)
  obtain ⟨-, hruns, hsame⟩ :=
    invoke?_as_run .standard ["echo"] { image := "echo" } w _ rfl rfl
  obtain ⟨-, hvisible⟩ := hruns memory hmemory
  have hstandard : (invoke? .standard 3 ["echo"] w).map Report.visible = some (0, [104]) := by
    rw [hvisible [104] houtput hinput]
    cases hmemory
    decide +kernel
  obtain ⟨-, hmissing, -⟩ :=
    invoke?_as_run .standard ["echo", "--input", "nowhere"]
      { image := "echo", input := some "nowhere" } w _ rfl rfl
  refine ⟨hstandard, ?_, ?_⟩
  · rw [← hstandard]
    exact hsame ["--input=text", "echo"] { image := "echo", input := some "text" } w' [104] rfl rfl
      rfl houtput ⟨Refusal.idle_none, Refusal.idle_none⟩ hinput (.file rfl) 3
  · rw [(hmissing memory hmemory).1 "nowhere" .notFound rfl rfl]
    rfl

end CommandLine

end RegisterMachine
