import Mathlib.Data.List.Nodup
import RegisterMachine.Proofs.Locality
import RegisterMachine.Proofs.Places

/-!
# What the text of an instruction tells

The text of an instruction is its name and its operands, with a blank before each. It fixes
no widths and marks no ends, and a word that is no operand is written with a blank inside.
All the same **the text tells which instruction it is, and whether a step would refuse one
of its operand words** (`Session.text_tells_instruction`).

The text is read from the left. A name consists of letters and a number of digits, so that
either ends where the first character of another kind stands (`Text.split_unique`). Which of
the three ways an operand word is written in shows at its first character
(`Operand.Style.ofFirst`), so what follows the number is known before the number is read.
-/

namespace RegisterMachine

/-! ## Reading from the left -/

namespace Text

/-- **Where characters of one kind are followed by another kind**, or by nothing, the text is
split there and nowhere else. -/
theorem split_unique {p : Char → Bool} {l l' t t' : List Char} (hl : ∀ c ∈ l, p c = true)
    (hl' : ∀ c ∈ l', p c = true) (ht : ∀ c ∈ t.head?, p c = false)
    (ht' : ∀ c ∈ t'.head?, p c = false) (h : l ++ t = l' ++ t') : l = l' ∧ t = t' := by
  have hnone : ∀ {t : List Char}, (∀ c ∈ t.head?, p c = false) → t.takeWhile p = [] := by
    intro t ht
    cases t with
    | nil => rfl
    | cons c t => exact List.takeWhile_cons_of_neg (by rw [ht c rfl]; exact Bool.false_ne_true)
  have hsame : l = l' := by
    have htake := congrArg (List.takeWhile p) h
    rwa [List.takeWhile_append_of_pos hl, List.takeWhile_append_of_pos hl', hnone ht, hnone ht',
      List.append_nil, List.append_nil] at htake
  subst hsame
  exact ⟨rfl, List.append_cancel_left h⟩

/-- A number is known by its digits. -/
theorem toDigits_injective : Function.Injective (Nat.toDigits 10) := by
  intro n n' h
  calc
    n = Nat.ofDigitChars 10 (Nat.toDigits 10 n) 0 := Nat.ofDigitChars_ten_toDigits.symm
    _ = Nat.ofDigitChars 10 (Nat.toDigits 10 n') 0 := by rw [h]
    _ = n' := Nat.ofDigitChars_ten_toDigits

theorem isDigit_of_mem_toDigits {n : Nat} {c : Char} (h : c ∈ Nat.toDigits 10 n) :
    c.isDigit = true :=
  Nat.isDigit_of_mem_toDigits (by decide) (Nat.le_refl 10) h

end Text

/-! ## One operand word -/

namespace Operand

/-- **The three ways to write an operand word**, each of them a number between two marks. -/
inductive Style where
  | literal
  | register
  | bad

namespace Style

/-- What is written before the number. -/
def front : Style → List Char
  | .literal => []
  | .register => ['r']
  | .bad => ['<', 'b', 'a', 'd', ' ']

/-- What is written behind the number. -/
def back : Style → List Char
  | .literal | .register => []
  | .bad => ['>']

/-- The word that would be written with a zero. -/
def base : Style → Nat
  | .literal | .bad => 0
  | .register => memoryWords

/-- A number between the marks. -/
def spell (style : Style) (n : Nat) : List Char := style.front ++ Nat.toDigits 10 n ++ style.back

/-- The style that begins with a character. -/
def ofFirst (c : Char) : Style := if c = 'r' then .register else if c = '<' then .bad else .literal

/-- **The first character tells the style.** -/
theorem ofFirst_spell (style : Style) (n : Nat) (t : List Char) :
    (style.spell n ++ t).head?.map ofFirst = some style := by
  cases style with
  | literal =>
    have hdigits : Nat.toDigits 10 n ≠ [] := Nat.toDigits_ne_nil
    obtain ⟨c, digits, hdigits⟩ := List.exists_cons_of_ne_nil hdigits
    have hc : c.isDigit = true := Text.isDigit_of_mem_toDigits (hdigits ▸ List.mem_cons_self)
    have hr : c ≠ 'r' := fun h => absurd (h ▸ hc) (by decide)
    have hbad : c ≠ '<' := fun h => absurd (h ▸ hc) (by decide)
    rw [spell, front, List.nil_append, hdigits]
    show some (ofFirst c) = _
    rw [ofFirst, if_neg hr, if_neg hbad]
  | register | bad => rfl

/-- A number with its marks ends where a blank follows, or nothing. -/
theorem spell_unique {style style' : Style} {n n' : Nat} {t t' : List Char}
    (ht : ∀ c ∈ t.head?, c = ' ') (ht' : ∀ c ∈ t'.head?, c = ' ')
    (h : style.spell n ++ t = style'.spell n' ++ t') : style = style' ∧ n = n' ∧ t = t' := by
  obtain rfl : style = style' := by
    have hfirst := congrArg (fun text => text.head?.map ofFirst) h
    simpa only [ofFirst_spell, Option.some_inj] using hfirst
  -- the mark behind the number is no digit, and neither is the blank behind the mark
  have hback : ∀ {t : List Char}, (∀ c ∈ t.head?, c = ' ') →
      ∀ c ∈ (style.back ++ t).head?, c.isDigit = false := by
    intro t ht c hc
    cases style with
    | literal | register => rw [ht c hc]; rfl
    | bad => cases hc; rfl
  simp only [spell, List.append_assoc] at h
  obtain ⟨hdigits, hrest⟩ := Text.split_unique (fun c => Text.isDigit_of_mem_toDigits)
    (fun c => Text.isDigit_of_mem_toDigits) (hback ht) (hback ht') (List.append_cancel_left h)
  exact ⟨rfl, Text.toDigits_injective hdigits, List.append_cancel_left hrest⟩

/-- Only what is no operand is written with an angle. -/
theorem eq_bad_of_mem_spell {style : Style} {n : Nat} (h : '<' ∈ style.spell n) : style = .bad := by
  have hdigits : '<' ∉ Nat.toDigits 10 n := fun hc =>
    absurd (Text.isDigit_of_mem_toDigits hc) (by decide)
  cases style with
  | bad => rfl
  | literal | register => simp [spell, front, back, hdigits] at h

end Style

/-- **Every word is written in one of the three styles**, and as bad exactly if it is beyond
the last register. -/
theorem exists_spell (w : Word) :
    ∃ style n, (textOfWord w).toList = Style.spell style n ∧ w.toNat = style.base + n
      ∧ (style = .bad ↔ Word.registerLast < w) := by
  by_cases hlast : Word.registerLast < w
  · refine ⟨.bad, w.toNat, ?_, (Nat.zero_add _).symm, fun _ => hlast, fun _ => rfl⟩
    rw [textOfWord, ofWord?_eq_none_iff.mpr hlast]
    simp only [String.toList_append, Nat.toString_eq_ofList_toDigits, String.toList_ofList]
    rfl
  · obtain ⟨o, ho⟩ := Option.ne_none_iff_exists'.mp fun h => hlast (ofWord?_eq_none_iff.mp h)
    have hnames := names_named hlast
    rw [named, ho, Option.getD_some] at hnames
    rw [textOfWord, ho]
    cases o with
    | literal a =>
      refine ⟨.literal, a.val, ?_, hnames.trans (Nat.zero_add _).symm, nofun, (absurd · hlast)⟩
      simp [text, Style.spell, Style.front, Style.back]
    | register r =>
      refine ⟨.register, r.val, ?_, hnames, nofun, (absurd · hlast)⟩
      simp [text, Register.text, Style.spell, Style.front, Style.back]

/-- **An operand word ends where a blank follows, or nothing**, and is known by its text. -/
theorem textOfWord_unique {w w' : Word} {t t' : List Char} (ht : ∀ c ∈ t.head?, c = ' ')
    (ht' : ∀ c ∈ t'.head?, c = ' ')
    (h : (textOfWord w).toList ++ t = (textOfWord w').toList ++ t') : w = w' ∧ t = t' := by
  obtain ⟨style, n, htext, hnumber, -⟩ := exists_spell w
  obtain ⟨style', n', htext', hnumber', -⟩ := exists_spell w'
  rw [htext, htext'] at h
  obtain ⟨rfl, rfl, hrest⟩ := Style.spell_unique ht ht' h
  exact ⟨UInt16.toNat_inj.mp (hnumber.trans hnumber'.symm), hrest⟩

/-! ## Several operand words -/

/-- The characters of operand words, with a blank before each word. -/
def textOfWords (ws : List Word) : List Char :=
  ws.flatMap fun w => ' ' :: (textOfWord w).toList

/-- Operands begin with a blank, if there are any. -/
theorem head?_textOfWords (ws : List Word) : ∀ c ∈ (textOfWords ws).head?, c = ' ' := by
  intro c hc
  cases ws with
  | nil => cases hc
  | cons w ws => exact (Option.some.inj hc).symm

/-- **Operands are known by what is written behind the name**, without asking for how many
there are. -/
theorem textOfWords_injective : Function.Injective textOfWords := by
  intro ws ws' h
  induction ws generalizing ws' with
  | nil =>
    cases ws' with
    | nil => rfl
    | cons w' ws' => cases h
  | cons w ws ih =>
    cases ws' with
    | nil => cases h
    | cons w' ws' =>
      -- behind one word stands the blank before the next one, or nothing
      rw [textOfWords, textOfWords, List.flatMap_cons, List.flatMap_cons, List.cons_append,
        List.cons_append] at h
      obtain ⟨rfl, hrest⟩ := textOfWord_unique (head?_textOfWords ws)
        (head?_textOfWords ws') (List.cons.inj h).2
      rw [ih hrest]

end Operand

/-! ## The whole text -/

namespace Opcode

/-- The names of the opcodes are different. -/
theorem mnemonic_injective : Function.Injective mnemonic := by
  have hall : ∀ o : Opcode, o ∈ all := by
    intro o
    cases o <;> decide
  have hnodup : (all.map mnemonic).Nodup := by decide
  exact fun o o' h => List.inj_on_of_nodup_map hnodup (hall o) (hall o') h

/-- A name consists of small letters. -/
theorem isLower_of_mem_mnemonic (o : Opcode) : ∀ c ∈ o.mnemonic.toList, c.isLower = true := by
  have hall : o.mnemonic.toList.all Char.isLower = true := by
    cases o <;> decide
  exact List.all_eq_true.mp hall

end Opcode

namespace Instruction

/-- An instruction is known by its opcode and its operands. -/
theorem eq_of_operands {i j : Instruction Word} (hopcode : i.opcode = j.opcode)
    (hoperands : i.operands = j.operands) : i = j := by
  have hi : i.operands = (List.range i.opcode.arity).map (i.operands.getD · 0) :=
    List.ext_getElem (by simp) fun n hn _ => by simp [List.getElem?_eq_getElem hn]
  have hj := hi
  rw [hopcode, hoperands] at hj
  rw [← assemble_of_operands hi, ← assemble_of_operands hj, hopcode, hoperands]

/-- **The text of an instruction** is its name and, behind it, its operands. -/
theorem toList_text (i : Instruction Word) :
    i.text.toList = i.opcode.mnemonic.toList ++ Operand.textOfWords i.operands := by
  -- one operand after the other is put behind what was written already
  have hbehind : ∀ (ws : List Word) (before : String),
      (ws.foldl (fun t w => t ++ " " ++ Operand.textOfWord w) before).toList
        = before.toList ++ Operand.textOfWords ws := by
    intro ws
    induction ws with
    | nil => exact fun before => (List.append_nil _).symm
    | cons w ws ih =>
      intro before
      rw [List.foldl_cons, ih, String.toList_append, String.toList_append, List.append_assoc,
        List.append_assoc]
      rfl
  exact hbehind i.operands i.opcode.mnemonic

/-- **The text of an instruction can be read in one way only.** -/
theorem text_injective : Function.Injective text := by
  intro i j h
  have hblank : ∀ (o : Opcode), ∀ c ∈ o.mnemonic.toList, (c != ' ') = true := by
    intro o c hc
    refine bne_iff_ne.mpr fun hsame => ?_
    exact absurd (hsame ▸ o.isLower_of_mem_mnemonic c hc) (by decide)
  have hoperands : ∀ ws, ∀ c ∈ (Operand.textOfWords ws).head?, (c != ' ') = false := by
    intro ws c hc
    rw [Operand.head?_textOfWords ws c hc]
    rfl
  have htext := congrArg String.toList h
  rw [i.toList_text, j.toList_text] at htext
  obtain ⟨hname, hrest⟩ := Text.split_unique (hblank _) (hblank _) (hoperands _) (hoperands _) htext
  exact eq_of_operands (Opcode.mnemonic_injective (String.toList_inj.mp hname))
    (Operand.textOfWords_injective hrest)

/-- **A bad operand word can be seen in the text.** -/
theorem contains_bad_iff {i : Instruction Word} :
    i.text.contains "<bad " = true ↔ ∃ w ∈ i.operands, Word.registerLast < w := by
  rw [String.contains_string_iff, i.toList_text]
  constructor
  · intro h
    -- there is no angle in a name, nor before an operand
    have hangle := h.subset (show '<' ∈ "<bad ".toList by decide)
    rcases List.mem_append.mp hangle with hname | hoperand
    · exact absurd (i.opcode.isLower_of_mem_mnemonic '<' hname) (by decide)
    · obtain ⟨w, hw, hc⟩ := List.mem_flatMap.mp hoperand
      obtain ⟨style, n, htext, -, hbad⟩ := Operand.exists_spell w
      rw [htext] at hc
      have hspell : '<' ∈ style.spell n := (List.mem_cons.mp hc).resolve_left (by decide)
      exact ⟨w, hw, hbad.mp (Operand.Style.eq_bad_of_mem_spell hspell)⟩
  · rintro ⟨w, hw, hlast⟩
    obtain ⟨style, n, htext, -, hbad⟩ := Operand.exists_spell w
    obtain rfl := hbad.mpr hlast
    have hword : "<bad ".toList <:+: ' ' :: (Operand.textOfWord w).toList :=
      ⟨[' '], Nat.toDigits 10 n ++ ['>'], by rw [htext]; rfl⟩
    have hoperands : ' ' :: (Operand.textOfWord w).toList
        <:+: Operand.textOfWords i.operands :=
      List.infix_of_mem_flatten (List.mem_map_of_mem hw)
    exact (hword.trans hoperands).trans (List.suffix_append _ _).isInfix

end Instruction

/-! ## Text and step -/

namespace Session

variable {κ : Type} [Console κ]

/-- **A step blames an operand word exactly if one is beyond the last register**, whatever
else may be wrong with the instruction. -/
theorem step_blames_operand_iff {s : Session κ} {i : Instruction Word}
    (h : s.machine.Fetches i) :
    (∃ w address, s.step.1 = .ended (.failed (.invalidOperand w address)))
      ↔ ∃ w ∈ i.operands, Word.registerLast < w := by
  constructor
  · rintro ⟨w, address, hstep⟩
    cases (s.step_status_iff _).mp hstep with
    | noOperand hfetches hinvalid =>
      obtain rfl := hfetches.unique h
      by_contra hnone
      have hvalid := Instruction.firstInvalid?_eq_none_iff.mpr fun w hw hlast =>
        hnone ⟨w, hw, hlast⟩
      rw [hvalid] at hinvalid
      cases hinvalid
  · rintro ⟨w, hw, hlast⟩
    cases hinvalid : i.firstInvalid? with
    | none => exact absurd hlast (Instruction.firstInvalid?_eq_none_iff.mp hinvalid w hw)
    | some blamed => exact ⟨blamed, _, step_of_verdict (.noOperand h hinvalid)⟩

/-- **The text tells the instruction, and whether its operands are valid.** Instructions with
the same text are the same, down to the operand words. And where an instruction stands at the
instruction pointer, its text has a `<bad ` in it exactly if the step fails on account of an
operand word, whatever the registers, the stack, the rest of the memory and the console
are. -/
theorem text_tells_instruction :
    (∀ i j : Instruction Word, i.text = j.text → i = j)
      ∧ ∀ {κ : Type} [Console κ] (s : Session κ) (i : Instruction Word) (next : Word),
          s.machine.memory.decode s.machine.ip = .ok (i, next) →
            (i.text.contains "<bad " = true
              ↔ ∃ w address, s.step.1 = .ended (.failed (.invalidOperand w address))) := by
  refine ⟨fun i j h => Instruction.text_injective h, fun s i next hdecode => ?_⟩
  have hfetches : s.machine.Fetches i := (Memory.decode_eq_ok_iff.mp hdecode).1
  exact Instruction.contains_bad_iff.trans (step_blames_operand_iff hfetches).symm

/-- The target of a jump that would not be taken is blamed, and its text says so. -/
theorem text_tells_instruction_jt :
    let program := ((Memory.empty.set 0 7).set 1 0).set 2 40000
    let s : Session Buffer := ⟨Machine.ofMemory program, .ofInput []⟩
    let i : Instruction Word := .jt 0 40000
    Instruction.assemble .jt (fun n => program.wordAt (1 + n)) = i
      ∧ s.step.1 = .ended (.failed (.invalidOperand 40000 0))
      ∧ i.text.contains "<bad " = true := by
  intro program s i
  have hdecode : program.decode 0 = .ok (i, 3) := rfl
  have hstep : s.step.1 = .ended (.failed (.invalidOperand 40000 0)) := by decide
  exact ⟨text_tells_instruction.1 _ i rfl, hstep,
    (text_tells_instruction.2 s i 3 hdecode).mpr ⟨40000, 0, hstep⟩⟩

end Session

end RegisterMachine
