import RegisterMachine.Session.Run

/-!
# Operating a session

Between its steps a machine can be handled from outside: registers, stack
and instruction pointer can be changed, and the console can be used
directly. A `Command` is one such action, and steps and runs are commands
too, so a list of commands is everything that can happen to a session.
-/

namespace RegisterMachine

/-- **An action on a session.** -/
inductive Command where
  /-- Put a word into a register. -/
  | setRegister (r : Register) (w : Word)
  /-- Put a word on the stack. -/
  | push (w : Word)
  /-- Take the top of the stack. -/
  | pop
  /-- Move the instruction pointer. -/
  | setPointer (w : Word)
  /-- Count a step that was not executed. -/
  | countStep
  /-- Execute one instruction. -/
  | step
  /-- Run until something ends it, or the limit. -/
  | run (limit : Option UInt64)
  /-- Read a byte from the console. -/
  | read
  /-- Write a byte to the console. -/
  | write (b : Byte)
  /-- Flush the console. -/
  | flush
  deriving DecidableEq, Repr

/-- **What a command gives back.** -/
inductive Reply where
  /-- There was nothing to give back. -/
  | done
  /-- The word that was taken, if there was one. -/
  | word (w : Option Word)
  /-- The byte that was read, if there was one. -/
  | byte (b : Option Byte)
  /-- What a step left behind. -/
  | status (s : Status)
  /-- How a run ended. -/
  | ending (e : Ending)
  /-- The console failed, with this message. -/
  | refused (message : String)
  deriving DecidableEq, Repr

namespace Session

variable {κ : Type} [Console κ]

/-- The reply to a use of the console. -/
def replyOf (answer : Answer Unit) : Reply :=
  match answer with
  | .ok () => .done
  | .error message => .refused message

/-- **Carry out a command.** Only a run can fail to give an answer, when it
does not end within `fuel` steps. -/
def perform? (fuel : Nat) (s : Session κ) : Command → Option (Reply × Session κ)
  | .setRegister r w => some (.done, s.withProcessor (s.machine.toProcessor.set r w))
  | .push w => some (.done, s.withProcessor (s.machine.toProcessor.push w))
  | .pop =>
    let (w, p) := s.machine.toProcessor.pop
    some (.word w, s.withProcessor p)
  | .setPointer w => some (.done, s.withProcessor { s.machine.toProcessor with ip := w })
  | .countStep => some (.done, s.withProcessor s.machine.toProcessor.countStep)
  | .step =>
    let (status, s) := s.step
    some (.status status, s)
  | .run limit => (s.run? limit fuel).map fun (e, s) => (.ending e, s)
  | .read =>
    match Console.read s.console with
    | (.ok b, console) => some (.byte b, { s with console })
    | (.error message, console) => some (.refused message, { s with console })
  | .write b =>
    let (answer, console) := Console.write b s.console
    some (replyOf answer, { s with console })
  | .flush =>
    let (answer, console) := Console.flush s.console
    some (replyOf answer, { s with console })

/-- A step replies with its status. -/
theorem perform?_step (s : Session κ) (fuel : Nat) :
    s.perform? fuel .step = some (.status s.step.1, s.step.2) := rfl

end Session

end RegisterMachine
