import RegisterMachine.CommandLine.Invocation
import RegisterMachine.CommandLine.Standard

/-!
# The program

`main` looks up the two files that the options may name, and then asks
`CommandLine.invoke?` what the call comes to. A call is a function of its
input, and with more input it does again what it did with less. So standard
input is read only when a run ends for want of it: the call is repeated with
what was added, and only the output that is new is written. A prompt is
seen before an answer is asked for, and a program that reads nothing waits
for nothing.
-/

namespace RegisterMachine.Main

open CommandLine

/-- More steps than anyone will wait for. -/
def fuel : Nat := Nat.pow 2 62

/-- The environment variable that holds the log setting. -/
def logVariable : String := "RUST_LOG"

/-- What went wrong with a file. The code of an error comes with either
sign, depending on which call reported it. -/
def fileError : IO.Error → FileError
  | .noFileOrDirectory .. => .notFound
  | .inappropriateType _ code details =>
    if code = 20 ∨ code + 20 = 0 then .notADirectory
    else if code = 21 ∨ code + 21 = 0 then .isADirectory
    else .other details
  | error => .other (toString error)

/-- What there is at a path. -/
def lookUp (path : String) : IO (Except FileError Node) := do
  try
    return .ok (.file (← IO.FS.readBinFile path).toList)
  catch error =>
    match fileError error with
    | .isADirectory => return .ok .folder
    | error => return .error error

/-- The files at some paths, and no others. -/
def filesAt (paths : List String) : IO Files := do
  let found ← paths.mapM fun path => return (path, ← lookUp path)
  return { find := fun path => (found.lookup path).getD (.error .notFound) }

/-- Carry out a call, with this much of standard input, of whose output so many
bytes were written already. -/
partial def call (arguments : List String) (w : Surroundings) (input : List Byte) (shown : Nat) :
    IO UInt32 := do
  let standardInput : Source := { pending := input, chunk := blockSize }
  match invoke? .standard fuel arguments { w with standardInput } with
  | none => throw (IO.userError "the run did not end")
  | some report =>
    let output ← IO.getStdout
    output.write ⟨(report.output.drop shown).toArray⟩
    output.flush
    if report.starved then
      let more ← (← IO.getStdin).read blockSize.toUSize
      unless more.isEmpty do
        return ← call arguments w (input ++ more.toList) report.output.length
    (Frontend.standard.lines report.log.entries).forM IO.eprintln
    return report.exitStatus.toUInt32

/-- Carry out the call that the arguments ask for. -/
def run (arguments : List String) : IO UInt32 := do
  match Frontend.standard.parse arguments with
  | .error dismissal =>
    (← IO.getStdout).write ⟨dismissal.output.toArray⟩
    unless dismissal.complaint.isEmpty do
      IO.eprintln dismissal.complaint
    return dismissal.exitStatus.toUInt32
  | .ok options =>
    let files ← filesAt (options.image :: options.input.toList)
    call arguments { files, logSetting := ← IO.getEnv logVariable } [] 0

end RegisterMachine.Main

/-- The program. -/
def main (arguments : List String) : IO UInt32 := RegisterMachine.Main.run arguments
