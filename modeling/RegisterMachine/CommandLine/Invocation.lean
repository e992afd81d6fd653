import RegisterMachine.CommandLine.Frontend
import RegisterMachine.Console.Buffered
import RegisterMachine.Session.Run

/-!
# A call of the program

From the arguments and the surroundings of a call, which are its files, standard
input and output, and the log setting, follow an exit status, the bytes on
standard output and a log. `invoke?` is that function, up to the fuel that a run
without a step limit may need.

The image is loaded first, and the input file is not looked at unless that
worked. The run then goes over a `Buffered` console, and whatever it wrote and
standard output has taken when the console is gone is the output of the call,
however the run ended.
-/

namespace RegisterMachine.CommandLine

/-- **What is there when the program is called.** -/
structure Surroundings where
  /-- The files. -/
  files : Files
  /-- Standard input. -/
  standardInput : Source := { pending := [] }
  /-- After how many bytes standard output refuses one. -/
  writeRefusal : Option Refusal := none
  /-- Which requests to flush standard output refuses. -/
  flushRefusal : Option Refusal := none
  /-- What is to be logged, in the environment. -/
  logSetting : Option String := none

/-- **What a call leaves behind.** -/
structure Report where
  /-- The exit status. -/
  exitStatus : Nat
  /-- The bytes on standard output. -/
  output : List Byte := []
  /-- The log. -/
  log : Log
  /-- Whether the run ended for want of standard input. -/
  starved : Bool := false

/-- The exit status for a file that cannot be had. -/
def fileStatus : Nat := 1

/-- How many bytes are asked of a file at once. -/
def blockSize : Nat := 8192

/-- They are some. -/
theorem blockSize_pos : 0 < blockSize := by decide

namespace Surroundings

/-- **The input of a run**: standard input, or what is at a path. A folder is
opened but cannot be read. -/
def openInput (w : Surroundings) (path : Option String) : Except (String × FileError) Source :=
  match path with
  | none => .ok w.standardInput
  | some path =>
    match w.files.find path with
    | .error error => .error (path, error)
    | .ok (.file content) => .ok { pending := content, chunk := blockSize }
    | .ok .folder =>
      .ok { pending := [], refusal := some (.lasting 0 fun _ => FileError.isADirectory.message) }

/-- The console of a run whose input comes from a source. -/
def console (w : Surroundings) (source : Source) : Buffered where
  stream := { source, sink := { writeRefusal := w.writeRefusal, flushRefusal := w.flushRefusal } }

end Surroundings

section

variable {κ : Type} [Console κ]

/-- The log after it was told which instruction comes next, if there is
one. -/
def noteInstruction (machine : Machine) (log : Log) : Log :=
  match machine.memory.decode machine.ip with
  | .error _ => log
  | .ok (instruction, _) => log.add (.executing machine.ip instruction)

/-- A step of a session that is logged. -/
def loggedStep (s : Session κ × Log) : Status × Session κ × Log :=
  let (session, log) := s
  let log := noteInstruction session.machine log
  let (status, session) := session.step
  (status, session, log)

/-- **A run that is logged**, from its start to its end. -/
def loggedRun? (limit : Option UInt64) (fuel : Nat) (session : Session κ) (log : Log) :
    Option (Ending × Session κ × Log) :=
  let log := log.add (.runStarted session.machine.ip limit)
  (Execution.run? loggedStep (fun s => s.1.machine.steps) limit fuel (session, log)).map
    fun (ending, session, log) =>
      let (ending, session) := session.close ending
      match ending with
      | .finished outcome =>
        (ending, session, log.add (.runFinished outcome session.machine.steps))
      | .failed _ => (ending, session, log)

end

/-- Whether a run ended because there was no more input. -/
def endedAtInput : Ending → Bool
  | .failed (.inputExhausted _) => true
  | _ => false

/-- What a call leaves behind after a run. -/
def conclude (ending : Ending) (session : Session Buffered) (log : Log) : Report :=
  let output := session.console.drop.sink.accepted.toList
  let steps := session.machine.steps
  match ending with
  | .finished outcome =>
    { exitStatus := 0, output, log := log.add (.programFinished outcome steps) }
  | .failed fault =>
    { exitStatus := fault.exitCode, output
      log := log.add (.programFailed fault steps session.machine.ip) }

/-- **Do what the options ask for.** -/
def execute? (fuel : Nat) (options : Options) (w : Surroundings) (log : Log) : Option Report :=
  match w.files.loadImage options.image with
  | .error error =>
    some { exitStatus := fileStatus, log := log.add (.loadFailed options.image error) }
  | .ok memory =>
    let log := log.add (.imageLoaded options.image memory.imageLength)
    match w.openInput options.input with
    | .error (path, error) =>
      some { exitStatus := fileStatus, log := log.add (.inputFailed path error) }
    | .ok source =>
      (loggedRun? options.maxSteps fuel ⟨.ofMemory memory, w.console source⟩ log).map
        fun (ending, session, log) =>
          { conclude ending session log with
            starved := options.input.isNone && endedAtInput ending }

/-- **A call of the program**: what it leaves behind, or nothing if its run
does not end within `fuel` steps. -/
def invoke? (f : Frontend) (fuel : Nat) (arguments : List String) (w : Surroundings) :
    Option Report :=
  match f.parse arguments with
  | .error dismissal =>
    some { exitStatus := dismissal.exitStatus, output := dismissal.output
           log := { filter := fun _ => false } }
  | .ok options =>
    execute? fuel options w { filter := f.filter w.logSetting options.verbosity }

end RegisterMachine.CommandLine
