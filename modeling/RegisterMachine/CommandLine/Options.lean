/-!
# Command line options

What the program is asked to do by its arguments. How the arguments say it is
the business of whoever reads them; the program is given the options.
-/

namespace RegisterMachine.CommandLine

/-- **What the program is asked to do.** -/
structure Options where
  /-- The path of the program image. -/
  image : String
  /-- The path of the file that input is read from, instead of standard
  input. -/
  input : Option String := none
  /-- How many steps to make at most. -/
  maxSteps : Option UInt64 := none
  /-- How often more logging was asked for. -/
  verbosity : Nat := 0
  deriving DecidableEq, Repr

end RegisterMachine.CommandLine
