/-!
# Text that is safe on a terminal

A terminal does not show every character: some begin a sequence that it
obeys. A text that quotes what came from elsewhere, a file name for instance,
has those characters spelled out, so that reading it cannot do anything but
show it. They are the escape character and the other controls that terminals
act on in the middle of a line, and the whole second block of control
characters, which are escape sequences in one piece. Tabs, line breaks and
all other characters stay as they are.
-/

namespace RegisterMachine.Terminal

/-- The hexadecimal digits of a number, without leading zeros. -/
def hexDigits (n : Nat) : String := .ofList (Nat.toDigits 16 n)

/-- Bell, backspace, form feed, escape and delete. -/
def controls : List Char := ['\x07', '\x08', '\x0c', '\x1b', '\x7f']

/-- Whether a character is of the second block of control characters. -/
def isHighControl (c : Char) : Bool := 0x80 ≤ c.toNat && c.toNat ≤ 0x9f

/-- **How a character is written.** -/
def spell (c : Char) : String :=
  if c ∈ controls then
    "\\x" ++ (if c.toNat < 16 then "0" else "") ++ hexDigits c.toNat
  else if isHighControl c then
    "\\u\x7b" ++ hexDigits c.toNat ++ "\x7d"
  else
    .singleton c

/-- **A text with every character written as it is on a terminal.** -/
def escape (text : String) : String := String.join (text.toList.map spell)

end RegisterMachine.Terminal
