/-!
# Decimal numbers

A number is read from decimal digits, the most significant first. Zeros may
stand in front of it; signs, blanks and separators may not.
-/

namespace RegisterMachine.Decimal

/-- The value of a digit. -/
def valueOfDigit (c : Char) : Nat := c.toNat - '0'.toNat

/-- **The number that digits denote.** Nothing is denoted by no digits, or
where something else is among them. -/
def ofDigits? (digits : List Char) : Option Nat :=
  if digits.isEmpty || !digits.all Char.isDigit then none
  else some (digits.foldl (fun n c => n * 10 + valueOfDigit c) 0)

end RegisterMachine.Decimal
