import RegisterMachine.Execution
import RegisterMachine.Session

/-!
# Running a session

A run makes steps until one ends it or as many steps are counted as allowed,
and then flushes the console once, however it ended. Steps are counted since
the machine was made, not since the run began, so a run that is interrupted
by a limit and taken up again with the same limit makes no step.

A fault outlives the flush that follows it: only the flush after a good
outcome can turn a run into a failure.
-/

namespace RegisterMachine.Session

variable {κ : Type} [Console κ]

/-- **Steps until the session ends or the limit is reached.** -/
def loop? (limit : Option UInt64) (fuel : Nat) (s : Session κ) : Option (Ending × Session κ) :=
  Execution.run? step (fun s => s.machine.steps) limit fuel s

/-- The ending of a run when the flush after it got this answer. -/
def closeEnding (e : Ending) (flushed : Answer Unit) : Ending :=
  match e, flushed with
  | .finished _, .error message => .failed (.console message)
  | e, _ => e

/-- A flush that works leaves the ending of a run as it is. -/
theorem closeEnding_ok (e : Ending) : closeEnding e (.ok ()) = e := by
  cases e <;> rfl

/-- A fault outlives the flush after it. -/
theorem closeEnding_failed (fault : Fault) (flushed : Answer Unit) :
    closeEnding (.failed fault) flushed = .failed fault := by
  cases flushed <;> rfl

/-- Flush the console at the end of a run. -/
def close (e : Ending) (s : Session κ) : Ending × Session κ :=
  let (flushed, console) := Console.flush s.console
  (closeEnding e flushed, { s with console })

/-- **A run**, or nothing if it does not end within `fuel` steps. -/
def run? (limit : Option UInt64) (fuel : Nat) (s : Session κ) : Option (Ending × Session κ) :=
  (s.loop? limit fuel).map fun (e, s) => s.close e

/-- A step that first notes where the machine is and what it finds there. -/
def tracedStep (s : Session κ × List String) : Status × Session κ × List String :=
  let (s, lines) := s
  let line := toString s.machine.ip.toNat ++ ": " ++ s.instructionText?.getD "-"
  let (status, s) := s.step
  (status, s, line :: lines)

/-- **At most `n` steps**, with a line for each that says what was about to
be executed. -/
def trace (n : Nat) (s : Session κ) : Status × Session κ × List String :=
  let (status, s, lines) := Execution.advance tracedStep n (s, [])
  (status, s, lines.reverse)

end RegisterMachine.Session
