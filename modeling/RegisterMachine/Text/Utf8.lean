import RegisterMachine.Word

/-!
# Bytes as UTF-8 text

Output is bytes, and not every sequence of bytes is UTF-8. To show one as
text, whatever is not part of a well-formed character becomes a replacement
character. How many of those depends on where the damage starts: **the
longest run of bytes that begins some well-formed character is replaced as
one**, and a byte that begins none is replaced by itself.

Which bytes may follow a first byte is the table of the Unicode standard:
`continuation` gives one range per byte that has to follow.
-/

namespace RegisterMachine.Utf8

/-- The least and the greatest byte allowed at a position. -/
abbrev Range := Byte × Byte

/-- The range of a byte about which no more is known than that it is not
the first. -/
def tail : Range := (0x80, 0xBF)

/-- **The bytes that have to follow a first byte**, as ranges; a byte that
begins no character has no answer. After `E0` and `F0` the shorter forms are
left out, after `ED` the surrogates, and after `F4` what lies beyond the
last code point. -/
def continuation (first : Byte) : Option (List Range) :=
  if first ≤ 0x7F then some []
  else if first < 0xC2 then none
  else if first ≤ 0xDF then some [tail]
  else if first = 0xE0 then some [(0xA0, 0xBF), tail]
  else if first = 0xED then some [(0x80, 0x9F), tail]
  else if first ≤ 0xEF then some [tail, tail]
  else if first = 0xF0 then some [(0x90, 0xBF), tail, tail]
  else if first ≤ 0xF3 then some [tail, tail, tail]
  else if first = 0xF4 then some [(0x80, 0x8F), tail, tail]
  else none

/-- How many bytes at the front lie in the ranges, one after the other. -/
def matching : List Range → List Byte → Nat
  | (low, high) :: ranges, b :: bytes =>
    if low ≤ b ∧ b ≤ high then matching ranges bytes + 1 else 0
  | _, _ => 0

/-- The payload of the first byte of a character of so many more bytes. -/
def payload (first : Byte) (more : Nat) : Nat :=
  match more with
  | 0 => first.toNat
  | 1 => first.toNat % 32
  | 2 => first.toNat % 16
  | _ => first.toNat % 8

/-- The character of a first byte and all the bytes that have to follow. -/
def character (first : Byte) (run : List Byte) : Char :=
  .ofNat (run.foldl (fun n b => n * 64 + b.toNat % 64) (payload first run.length))

/-- What stands for bytes that are no character. -/
def replacement : Char := '\uFFFD'

/-- **A text continued by the characters of a sequence of bytes**, with
replacement characters where it is not well formed. -/
def appendTo (text : String) : List Byte → String
  | [] => text
  | first :: bytes =>
    match continuation first with
    | none => appendTo (text.push replacement) bytes
    | some ranges =>
      let n := matching ranges bytes
      let c := if n = ranges.length then character first (bytes.take n) else replacement
      appendTo (text.push c) (bytes.drop n)
termination_by bytes => bytes.length
decreasing_by
  · exact Nat.lt_succ_self _
  · exact Nat.lt_succ_of_le (List.length_drop ▸ Nat.sub_le ..)

/-- **The text of a sequence of bytes.** -/
def text (bytes : List Byte) : String := appendTo "" bytes

end RegisterMachine.Utf8
