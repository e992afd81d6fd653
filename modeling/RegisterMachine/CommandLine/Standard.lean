import RegisterMachine.CommandLine.Arguments
import RegisterMachine.Text.Terminal

/-!
# The standard front end

The front end that the program is run with. What it takes for arguments is in
`Options.ofArguments`. This is the other half: which notices a setting lets
through, and what an entry of the log looks like. The program is as it is with
any other front end; this one is an example, and it is the one in use.

A setting is a list of directives with commas between them. Each sets a
threshold, for all notices or for those that come from certain parts of the
program, and of several that concern a notice the one that says most about its
origin decides, or else the last.

Of an entry only the message is made safe to look at: it is a sentence for a
person, and the values are what they are.
-/

namespace RegisterMachine.CommandLine

/-- The name of a level in the log. -/
def Level.text : Level → String
  | .error => "ERROR"
  | .warn => "WARN"
  | .info => "INFO"
  | .debug => "DEBUG"
  | .trace => "TRACE"

/-- **The least important level that is logged**, or that nothing is. -/
abbrev Threshold := Option Level

namespace Threshold

/-- Whether notices of a level are logged. -/
def admits (threshold : Threshold) (level : Level) : Bool :=
  match threshold with
  | none => false
  | some least => level.rank ≤ least.rank

/-- The threshold that lets so many of the levels through. -/
def ofRank? : Nat → Option Threshold
  | 0 => some none
  | 1 => some (some .error)
  | 2 => some (some .warn)
  | 3 => some (some .info)
  | 4 => some (some .debug)
  | 5 => some (some .trace)
  | _ => none

/-- The threshold of a word: the name of a level in any case, or a rank in
decimal digits. -/
def ofWord? (word : String) : Option Threshold :=
  match word.map Char.toLower with
  | "off" => some none
  | "error" => some (some .error)
  | "warn" => some (some .warn)
  | "info" => some (some .info)
  | "debug" => some (some .debug)
  | "trace" => some (some .trace)
  | _ => (Decimal.ofDigits? word.toList).bind ofRank?

end Threshold

/-- Where in the program a notice comes from. -/
def Notice.origin : Notice → String
  | .runStarted .. | .executing .. | .runFinished .. => "synacor_vm::machine"
  | .imageLoaded .. | .programFinished .. | .programFailed .. | .loadFailed .. | .inputFailed .. =>
    "synacor_vm"

/-- **One part of a setting**: a threshold for the notices whose origin begins
like this. -/
structure Directive where
  /-- How the origin begins. -/
  origin : List Char := []
  threshold : Threshold

namespace Directive

/-- Whether a character can be part of an origin. -/
def isNameChar (c : Char) : Bool := c.isAlphanum || c = '_' || c = ':' || c = '-'

/-- The directive of a word: a threshold, or an origin, perhaps with a threshold
behind `=`. -/
def ofWord? (word : String) : Option Directive :=
  match Threshold.ofWord? word with
  | some threshold => some { threshold }
  | none =>
    let origin := word.toList.takeWhile (· ≠ '=')
    if origin.isEmpty || !origin.all isNameChar then none
    else
      match word.toList.dropWhile (· ≠ '=') with
      | [] | ['='] => some { origin, threshold := some .trace }
      | _ :: level => (Threshold.ofWord? (.ofList level)).map fun threshold => { origin, threshold }

/-- **The directives of a setting.** Empty words do not count; a setting with any
other word in it that is no directive is not understood. -/
def ofSetting? (setting : String) : Option (List Directive) :=
  ((setting.splitOn ",").filter (· ≠ "")).mapM ofWord?

/-- Whether a directive concerns a notice. -/
def concerns (d : Directive) (n : Notice) : Bool := d.origin.isPrefixOf n.origin.toList

/-- The directive that decides about a notice: the one that says most about its
origin, and the last of several such ones. -/
def deciding? (directives : List Directive) (n : Notice) : Option Directive :=
  directives.foldl
    (fun found? d =>
      if d.concerns n && found?.all fun found => found.origin.length ≤ d.origin.length then some d
      else found?)
    none

/-- **The filter that directives make.** What none of them concerns is dropped. -/
def filter (directives : List Directive) : Filter := fun n =>
  match deciding? directives n with
  | none => false
  | some d => d.threshold.admits n.level

end Directive

/-- **An entry as it is written**: its level, its message, and its values behind
it. -/
def Entry.text (e : Entry) : String :=
  e.values.foldl (fun t (name, value) => t ++ " " ++ name ++ "=" ++ value)
    (e.level.text ++ " " ++ Terminal.escape e.message)

/-- **The standard front end.** -/
def Frontend.standard : Frontend where
  parse arguments := (Options.ofArguments arguments).mapError UsageError.dismissal
  filterOfSetting? setting := (Directive.ofSetting? setting).map Directive.filter
  filterOf setting := Directive.filter ((Directive.ofSetting? setting).getD [])
  text := Entry.text

end RegisterMachine.CommandLine
