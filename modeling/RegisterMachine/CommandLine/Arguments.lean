import RegisterMachine.CommandLine.Frontend
import RegisterMachine.Text.Decimal

/-!
# Reading arguments

The program is called with the path of an image and some options, in any
order:

* `--input FILE`, or `--input=FILE`: where input comes from;
* `--max-steps N`, or `--max-steps=N`: after how many steps to stop;
* `-v`, `-vv` and so on, or `--verbose`: how much to log, by how often it is
  given;
* `-h` or `--help`: say how the program is called, and do nothing else.

The path of the image and either of the first two options may be given once.
After `--` nothing is an option any more. The value of an option cannot look
like an option itself, unless it is joined to it by `=`.

Arguments are taken one after the other, and `Reader` is what has been
understood so far; an option that still waits for its value is part of it.
-/

namespace RegisterMachine.CommandLine

/-- **Why arguments are not a call of the program.** -/
inductive UsageError where
  /-- Help was asked for. -/
  | help
  /-- There is no such option. -/
  | unknownOption (argument : String)
  /-- An option that is no good without a value has none. -/
  | missingValue (option : String)
  /-- An option that takes no value has one. -/
  | unexpectedValue (option : String)
  /-- A value is not of the kind its option takes. -/
  | invalidValue (option value : String)
  /-- An option is given twice. -/
  | repeatedOption (option : String)
  /-- There is one path too many. -/
  | unexpectedArgument (argument : String)
  /-- The path of the image is missing. -/
  | missingImage
  deriving DecidableEq, Repr

/-- The wording of a usage error. -/
def UsageError.message : UsageError → String
  | .help => ""
  | .unknownOption argument => s!"unknown option '{argument}'"
  | .missingValue option => s!"a value is required for '{option}'"
  | .unexpectedValue option => s!"'{option}' takes no value"
  | .invalidValue option value => s!"invalid value '{value}' for '{option}'"
  | .repeatedOption option => s!"'{option}' is given more than once"
  | .unexpectedArgument argument => s!"unexpected argument '{argument}'"
  | .missingImage => "the path of a program image is required"

/-- What is told to someone who asks for help. -/
def helpLines : List String := [
  "Run a program image on the 15-bit register VM",
  "",
  "Usage: synacor-vm [OPTIONS] <IMAGE>",
  "",
  "Arguments:",
  "  <IMAGE>  Path to the program image (little-endian 16-bit words)",
  "",
  "Options:",
  "      --input <INPUT>          Read \u0060in\u0060 characters from this file instead of stdin",
  "      --max-steps <MAX_STEPS>  Stop after this many instructions (default: run until halt)",
  "  -v, --verbose...             Log more (-v debug, -vv trace); RUST_LOG takes precedence",
  "  -h, --help                   Print help"]

/-- **The answer to arguments that are not a call of the program.** Help is
output like any other, and asking for it no mistake. -/
def UsageError.dismissal : UsageError → Dismissal
  | .help => { exitStatus := 0, output := helpLines.flatMap fun line => (line ++ "\n").toUTF8.toList }
  | error => { exitStatus := 2, complaint := error.message }

/-- **What an argument looks like.** -/
inductive Argument where
  /-- Two dashes and nothing else. -/
  | endOfOptions
  /-- Two dashes and a name, perhaps with a value behind `=`. -/
  | long (name : String) (value : Option String)
  /-- One dash and letters. -/
  | short (letters : List Char)
  /-- Anything else, a single dash included. -/
  | plain

/-- The look of an argument. -/
def Argument.ofString (text : String) : Argument :=
  match text.toList with
  | ['-', '-'] => .endOfOptions
  | '-' :: '-' :: rest =>
    .long (.ofList (rest.takeWhile (· ≠ '=')))
      (match rest.dropWhile (· ≠ '=') with
        | [] => none
        | _ :: value => some (.ofList value))
  | '-' :: letter :: letters => .short (letter :: letters)
  | _ => .plain

/-- **The count a text denotes**: decimal digits, perhaps after a plus, and
nothing that does not fit into 64 bits. -/
def countOfText? (text : String) : Option UInt64 := do
  let n ← Decimal.ofDigits? (match text.toList with
    | '+' :: digits => digits
    | digits => digits)
  if n < UInt64.size then some (.ofNat n) else none

/-- An option that takes a value. -/
inductive Setting where
  | input
  | maxSteps
  deriving DecidableEq, Repr

namespace Setting

/-- How an option is written. -/
def text : Setting → String
  | .input => "--input"
  | .maxSteps => "--max-steps"

/-- The option of a name. -/
def ofName? : String → Option Setting
  | "input" => some .input
  | "max-steps" => some .maxSteps
  | _ => none

end Setting

/-- **What has been understood of the arguments so far.** -/
structure Reader where
  image : Option String := none
  input : Option String := none
  maxSteps : Option UInt64 := none
  verbosity : Nat := 0
  /-- The option whose value the next argument has to be. -/
  waiting : Option Setting := none
  /-- Whether nothing is an option any more. -/
  optionsEnded : Bool := false

namespace Reader

/-- Take an argument as the path of the image. No path is empty. -/
def takeImage (r : Reader) (path : String) : Except UsageError Reader :=
  if r.image.isSome then .error (.unexpectedArgument path)
  else if path.isEmpty then .error (.invalidValue "IMAGE" path)
  else .ok { r with image := some path }

/-- Take the value of an option. -/
def takeValue (r : Reader) (setting : Setting) (value : String) : Except UsageError Reader :=
  let r := { r with waiting := none }
  match setting with
  | .input =>
    if r.input.isSome then .error (.repeatedOption setting.text)
    else if value.isEmpty then .error (.invalidValue setting.text value)
    else .ok { r with input := some value }
  | .maxSteps =>
    if r.maxSteps.isSome then .error (.repeatedOption setting.text)
    else match countOfText? value with
      | none => .error (.invalidValue setting.text value)
      | some n => .ok { r with maxSteps := some n }

/-- Take the letters behind a dash, of which `argument` is made. -/
def takeLetters (argument : String) (r : Reader) : List Char → Except UsageError Reader
  | [] => .ok r
  | 'v' :: letters => takeLetters argument { r with verbosity := r.verbosity + 1 } letters
  | 'h' :: _ => .error .help
  | _ => .error (.unknownOption argument)

/-- Take an argument that is not the value of an option before it. -/
def takeFresh (r : Reader) (text : String) : Except UsageError Reader :=
  match Argument.ofString text with
  | .plain => r.takeImage text
  | .endOfOptions => .ok { r with optionsEnded := true }
  | .short letters => r.takeLetters text letters
  | .long "help" none => .error .help
  | .long "help" (some _) => .error (.unexpectedValue "--help")
  | .long "verbose" none => .ok { r with verbosity := r.verbosity + 1 }
  | .long "verbose" (some _) => .error (.unexpectedValue "--verbose")
  | .long name value =>
    match Setting.ofName? name, value with
    | none, _ => .error (.unknownOption text)
    | some setting, none => .ok { r with waiting := some setting }
    | some setting, some value => r.takeValue setting value

/-- **Take the next argument.** -/
def take (r : Reader) (text : String) : Except UsageError Reader :=
  if r.optionsEnded then r.takeImage text
  else
    match r.waiting with
    | none => r.takeFresh text
    | some setting =>
      match Argument.ofString text with
      | .plain => r.takeValue setting text
      | _ => .error (.missingValue setting.text)

/-- The options, once there are no more arguments. -/
def finish (r : Reader) : Except UsageError Options :=
  match r.waiting, r.image with
  | some setting, _ => .error (.missingValue setting.text)
  | none, none => .error .missingImage
  | none, some image =>
    .ok { image, input := r.input, maxSteps := r.maxSteps, verbosity := r.verbosity }

end Reader

/-- **The options that arguments spell out.** -/
def Options.ofArguments (arguments : List String) : Except UsageError Options := do
  (← arguments.foldlM Reader.take {}).finish

end RegisterMachine.CommandLine
