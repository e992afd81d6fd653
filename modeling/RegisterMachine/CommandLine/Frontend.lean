import RegisterMachine.CommandLine.Log
import RegisterMachine.CommandLine.Options

/-!
# What stands between the program and its user

The program does not read its arguments itself, nor the setting that says what
to log, and it does not write its log itself. Three libraries do that for it,
and `Frontend` is what the program makes use of in them. What is proved of the
program holds for every front end: nothing is taken for granted of how
arguments are spelled, what a setting may look like, or how an entry of the log
is written.

Where it matters what is logged, one thing is relied on: that a filter asked
for by the name of a level goes by the levels (`Frontend.ReadsLevels`).
-/

namespace RegisterMachine.CommandLine

/-- **The answer to arguments that are not a call of the program**: mistaken
ones, or a request for help. -/
structure Dismissal where
  /-- The exit status. -/
  exitStatus : Nat
  /-- The bytes on standard output. -/
  output : List Byte := []
  /-- What is said about it elsewhere. -/
  complaint : String := ""

/-- **What the program makes use of to talk to its user.** -/
structure Frontend where
  /-- What arguments ask for. -/
  parse : List String → Except Dismissal Options
  /-- The filter that a setting asks for, if it can be understood. -/
  filterOfSetting? : String → Option Filter
  /-- The filter that the program asks for in words of its own. -/
  filterOf : String → Filter
  /-- How an entry of the log is written. -/
  text : Entry → String

namespace Frontend

/-- What the program asks for itself when more logging is asked for so often. -/
def wordOfVerbosity : Nat → String
  | 0 => "warn"
  | 1 => "debug"
  | _ => "trace"

/-- **The filter in force**: that of a setting that is there and can be
understood, and else that of the verbosity. -/
def filter (f : Frontend) (setting : Option String) (verbosity : Nat) : Filter :=
  (setting.bind f.filterOfSetting?).getD (f.filterOf (wordOfVerbosity verbosity))

/-- The lines that entries are written in. An entry has more than one when there
is a line break in it. -/
def lines (f : Frontend) (entries : List Entry) : List String :=
  entries.flatMap fun entry => (f.text entry).splitOn "\n"

/-- **A filter lets through exactly what matters as much as this level.** -/
def GoesBy (filter : Filter) (level : Level) : Prop :=
  ∀ n : Notice, filter n = true ↔ n.level.rank ≤ level.rank

/-- **What is relied on about filters**: the name of a level stands for that
level, in a setting in any letter case, and an empty setting lets nothing
through. -/
structure ReadsLevels (f : Frontend) : Prop where
  /-- In words of the program. -/
  own : ∀ level : Level, GoesBy (f.filterOf level.word) level
  /-- In a setting. -/
  named : ∀ (level : Level) (name : String), name.map Char.toLower = level.word →
    ∃ filter, f.filterOfSetting? name = some filter ∧ GoesBy filter level
  /-- In an empty setting. -/
  empty : ∃ filter, f.filterOfSetting? "" = some filter ∧ ∀ n, filter n = false

/-- **The level that a setting and a verbosity ask for.** A setting that is the
name of a level decides; without a setting that can be understood it is the
verbosity. -/
inductive Asks (f : Frontend) (setting : Option String) (verbosity : Nat) : Level → Prop where
  /-- The setting names the level. -/
  | named {level : Level} {name : String} : setting = some name →
      name.map Char.toLower = level.word → Asks f setting verbosity level
  /-- There is no setting, or none that can be understood. -/
  | counted {level : Level} : setting.bind f.filterOfSetting? = none →
      level = (match verbosity with
        | 0 => .warn
        | 1 => .debug
        | _ => .trace) → Asks f setting verbosity level

end Frontend

end RegisterMachine.CommandLine
