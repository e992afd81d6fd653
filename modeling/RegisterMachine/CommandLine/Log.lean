import RegisterMachine.CommandLine.Files
import RegisterMachine.Fault
import RegisterMachine.Instruction

/-!
# The log

What the program has to tell about a run is a list of notices. A notice says
one thing, and `Notice.entry` is how it says it: with a level that tells how
much it matters, a sentence, and named values after it.

A log keeps the notices that its filter lets through and drops the others at
once, so that a long run that is not watched closely costs nothing. What a
filter goes by is its own affair: the program only ever asks it.
-/

namespace RegisterMachine.CommandLine

/-- **How much a notice matters**, the most first. -/
inductive Level where
  | error
  | warn
  | info
  | debug
  | trace
  deriving DecidableEq, Repr

namespace Level

/-- The place of a level in the order, counted from one. -/
def rank : Level → Nat
  | .error => 1
  | .warn => 2
  | .info => 3
  | .debug => 4
  | .trace => 5

/-- The name of a level in a setting. -/
def word : Level → String
  | .error => "error"
  | .warn => "warn"
  | .info => "info"
  | .debug => "debug"
  | .trace => "trace"

end Level

/-- **Something worth telling.** -/
inductive Notice where
  /-- The program image was loaded. -/
  | imageLoaded (path : String) (words : Nat)
  /-- The run begins. -/
  | runStarted (ip : Word) (limit : Option UInt64)
  /-- An instruction is about to be executed. -/
  | executing (address : Word) (instruction : Instruction Word)
  /-- The run ended well. -/
  | runFinished (outcome : Outcome) (steps : UInt64)
  /-- The program did what it was asked to. -/
  | programFinished (outcome : Outcome) (steps : UInt64)
  /-- The run ended in a fault. -/
  | programFailed (fault : Fault) (steps : UInt64) (ip : Word)
  /-- The program image could not be loaded. -/
  | loadFailed (path : String) (error : LoadError)
  /-- The input file could not be opened. -/
  | inputFailed (path : String) (error : FileError)
  deriving DecidableEq, Repr

/-- **What a log says of a notice.** -/
structure Entry where
  /-- How much it matters. -/
  level : Level
  /-- The sentence. -/
  message : String
  /-- The values that go with it, by name. -/
  values : List (String × String) := []
  deriving DecidableEq, Repr

namespace Notice

/-- How much a notice matters. -/
def level : Notice → Level
  | .imageLoaded .. | .runStarted .. | .runFinished .. => .debug
  | .executing .. => .trace
  | .programFinished .. => .info
  | .programFailed .. | .loadFailed .. | .inputFailed .. => .error

/-- How a step limit is written. -/
def limitText : Option UInt64 → String
  | none => "None"
  | some n => s!"Some({n.toNat})"

/-- The wording of a notice. -/
def message : Notice → String
  | .imageLoaded .. => "image loaded"
  | .runStarted .. => "run start"
  | .executing .. => "execute"
  | .runFinished .. => "run finished"
  | .programFinished .. => "program finished"
  | .programFailed fault .. => "program error: " ++ fault.message
  | .loadFailed path error => s!"failed to load {path}: {error.message}"
  | .inputFailed path error => s!"failed to open input {path}: {error.message}"

/-- The values that go with a notice, by name. -/
def values : Notice → List (String × String)
  | .imageLoaded path words => [("path", path), ("words", toString words)]
  | .runStarted ip limit => [("ip", toString ip.toNat), ("max_steps", limitText limit)]
  | .executing address instruction =>
    [("address", toString address.toNat), ("instr", instruction.text)]
  | .runFinished outcome steps | .programFinished outcome steps =>
    [("outcome", outcome.text), ("steps", toString steps.toNat)]
  | .programFailed _ steps ip => [("steps", toString steps.toNat), ("ip", toString ip.toNat)]
  | .loadFailed .. | .inputFailed .. => []

/-- **The entry of a notice.** -/
def entry (n : Notice) : Entry := { level := n.level, message := n.message, values := n.values }

end Notice

/-- **What lets notices through to a log.** -/
abbrev Filter := Notice → Bool

/-- **A log.** -/
structure Log where
  /-- What is kept. -/
  filter : Filter
  /-- The notices kept so far, the latest first. -/
  notices : List Notice := []

namespace Log

/-- The log after a notice, which it keeps or drops. -/
def add (log : Log) (notice : Notice) : Log :=
  if log.filter notice then { log with notices := notice :: log.notices } else log

/-- The entries of a log, in the order of the notices. -/
def entries (log : Log) : List Entry := log.notices.reverse.map Notice.entry

/-- A notice is kept when the filter lets it through. -/
theorem notices_add (log : Log) (notice : Notice) :
    (log.add notice).notices = [notice].filter log.filter ++ log.notices := by
  unfold add
  split <;> simp_all

/-- What is kept does not change what will be. -/
@[simp] theorem filter_add (log : Log) (notice : Notice) :
    (log.add notice).filter = log.filter := by
  unfold add
  split <;> rfl

end Log

end RegisterMachine.CommandLine
