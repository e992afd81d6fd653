import RegisterMachine.Console
import RegisterMachine.Instruction.Encoding
import RegisterMachine.Machine

/-!
# Sessions

A session is a machine together with the console it is attached to, and
`Session.step` executes one instruction of it. It does so in place, one
action after the other: operand words are resolved, the stack is pushed or
popped, the console is called, a word is written to its place. Many of these
actions can fail, and **a failure undoes nothing**: what was done before it
stays done (`Session.Action`).

Why a failed step leaves the processor and the memory as they were all the
same is thus a question of the order in which things are done. The source of
every fault comes before the first change, but for two changes: a `pop` takes
its word off the stack before it is written, and an `in` its byte off the
console. Writing to a place has to succeed there, and it does, although
`Action.store` might refuse: a place is a register or an address.
-/

namespace RegisterMachine

/-- **A machine and its console.** -/
structure Session (κ : Type) where
  machine : Machine
  console : κ

namespace Session

variable {κ α : Type}

/-- The session with another processor around its memory. -/
@[inline] def withProcessor (s : Session κ) (p : Processor) : Session κ :=
  { s with machine := { s.machine with toProcessor := p } }

/-- **Something done to a session that may fail**, and then leaves the session
as it has become. -/
abbrev Action (κ α : Type) := EStateM Fault (Session κ) α

namespace Action

/-- Fail, and blame the instruction decoded last. -/
@[inline] def fail (fault : Word → Fault) : Action κ α := do
  throw (fault (← get).machine.lastDecoded)

/-- Go on with a result, or fail where there is none. -/
@[inline] def require (result : Option α) (fault : Word → Fault) : Action κ α :=
  match result with
  | some a => return a
  | none => fail fault

/-- Look something up in the machine. -/
@[inline] def lookUp (f : Machine → Except Fault α) : Action κ α := do
  match f (← get).machine with
  | .ok a => return a
  | .error fault => throw fault

/-- The value of an operand word. -/
def resolveValue (w : Word) : Action κ Word := lookUp (·.resolveValue w)

/-- The place an operand word names. -/
def resolvePlace (w : Word) : Action κ Place := lookUp (·.resolvePlace w)

/-- Change the processor. -/
@[inline] def change (f : Processor → Processor) : Action κ Unit :=
  modify fun s => s.withProcessor (f s.machine.toProcessor)

/-- Take the top of the stack, if there is one. -/
def pop : Action κ (Option Word) :=
  modifyGet fun s =>
    let (w, p) := s.machine.toProcessor.pop
    (w, s.withProcessor p)

/-- The word at an offset. -/
def load (offset : Word) : Action κ Word := do
  require ((← get).machine.memory.load? offset) (.offsetOutOfRange offset)

/-- **Store a word at an offset.** -/
def store (offset w : Word) : Action κ Unit := do
  let stored ← modifyGet fun s =>
    let (stored, memory) := s.machine.memory.store offset w
    (stored, { s with machine := { s.machine with memory } })
  require stored (.offsetOutOfRange offset)

/-- **Write a word to a place.** -/
def write (w : Word) : Place → Action κ Unit
  | .register r => change (·.set r w)
  | .cell a => store a.toWord w

/-- Call the console. -/
@[inline] def call (f : κ → Answer α × κ) : Action κ α := do
  let answer ← modifyGet fun s =>
    let (answer, console) := f s.console
    (answer, { s with console })
  match answer with
  | .ok a => return a
  | .error message => throw (.console message)

end Action

/-- **Where to go on after an instruction.** -/
inductive Flow where
  /-- Behind it. -/
  | next
  /-- At an address. -/
  | jump (target : Word)
  /-- Nowhere. -/
  | stop (outcome : Outcome)
  deriving DecidableEq, Repr

variable [Console κ]

open RegisterMachine.Session.Action in
/-- **Execute an instruction** that is followed by address `next`. -/
def execute (next : Word) : Instruction Word → Action κ Flow
  | .halt => return .stop .halted
  | .set dst src => do
    let w ← resolveValue src
    let place ← resolvePlace dst
    write w place
    return .next
  | .push src => do
    let w ← resolveValue src
    change (·.push w)
    return .next
  | .pop dst => do
    let place ← resolvePlace dst
    let w ← require (← pop) .stackUnderflow
    write w place
    return .next
  | .binary op dst lhs rhs => do
    let x ← resolveValue lhs
    let y ← resolveValue rhs
    let place ← resolvePlace dst
    let w ← require (op.apply x y) .divisionByZero
    write w place
    return .next
  | .jmp target => return .jump (← resolveValue target)
  | .jt condition target => do
    let condition ← resolveValue condition
    let target ← resolveValue target
    return if condition = 0 then .next else .jump target
  | .jf condition target => do
    let condition ← resolveValue condition
    let target ← resolveValue target
    return if condition = 0 then .jump target else .next
  | .not dst src => do
    let w ← resolveValue src
    let place ← resolvePlace dst
    write (~~~ w &&& Word.valueMask) place
    return .next
  | .rmem dst address => do
    let offset ← resolveValue address
    let place ← resolvePlace dst
    let w ← load offset
    write w place
    return .next
  | .wmem address src => do
    let offset ← resolveValue address
    let w ← resolveValue src
    store offset w
    return .next
  | .call target => do
    let target ← resolveValue target
    change (·.push next)
    return .jump target
  | .ret => do
    match ← pop with
    | some target => return .jump target
    | none => return .stop .returned
  | .output src => do
    let w ← resolveValue src
    call (Console.write w.lowByte)
    return .next
  | .input dst => do
    let place ← resolvePlace dst
    let b ← require (← call Console.read) .inputExhausted
    write b.toUInt16 place
    return .next
  | .noop => return .next

/-- Count an instruction that was executed, and go on behind it, at address
`next`, or where it says. -/
def proceed (next : Word) (flow : Flow) : Action κ Status := do
  Action.change Processor.countStep
  match flow with
  | .next =>
    Action.change ({ · with ip := next })
    return .running
  | .jump target =>
    Action.change ({ · with ip := target })
    return .running
  | .stop outcome =>
    Action.change ({ · with ip := next })
    return .ended (.finished outcome)

/-- Decode the instruction at the instruction pointer, remember where it
stands, and execute it. -/
def advance : Action κ Status := do
  let address := (← get).machine.ip
  let (i, next) ← Action.lookUp (·.memory.decode address)
  modify fun s => { s with machine := { s.machine with lastDecoded := address } }
  proceed next (← execute next i)

/-- **Execute one instruction.** -/
def step (s : Session κ) : Status × Session κ :=
  match advance.run s with
  | .ok status s => (status, s)
  | .error fault s => (.ended (.failed fault), s)

/-- The instruction the next step would decode, as text. -/
def instructionText? (s : Session κ) : Option String :=
  match s.machine.memory.decode s.machine.ip with
  | .error _ => none
  | .ok (raw, _) => some raw.text

end Session

end RegisterMachine
