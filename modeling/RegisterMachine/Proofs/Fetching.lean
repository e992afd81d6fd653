import RegisterMachine.Instruction.Encoding

/-!
# Finding an instruction

Decoding at an address asks whether an instruction stands there, and the answer
does not need the decoder: the words of the instruction are what the memory
holds from that address on. `Memory.Holds` says just that, of any words at all.

Decoding finds an instruction exactly where the memory holds its words
(`Memory.decode_eq_ok_iff`), and the two ways to find none are told apart by
the first word: a number beyond the last opcode, or an instruction that does
not fit behind it.
-/

namespace RegisterMachine

namespace Opcode

/-- A number encodes no opcode when it is beyond the last one. -/
theorem ofNumber?_eq_none_iff {w : Word} : ofNumber? w = none ↔ count ≤ w.toNat := by
  rw [ofNumber?, List.getElem?_eq_none_iff, length_all]

/-- Each place of the list holds the opcode of that number. -/
theorem number_getElem_all :
    ∀ n, (h : n < all.length) → (all[n]).number.toNat = n := by
  decide

/-- **A number encodes the opcode it is the number of**, and no other. -/
theorem ofNumber?_eq_some_iff {w : Word} {o : Opcode} :
    ofNumber? w = some o ↔ w = o.number := by
  constructor
  · intro h
    obtain ⟨hlt, rfl⟩ := List.getElem?_eq_some_iff.mp h
    exact UInt16.toNat_inj.mp (number_getElem_all w.toNat hlt).symm
  · rintro rfl
    exact ofNumber?_number o

end Opcode

namespace Instruction

variable {α : Type}

/-- An assembled instruction has the operands it was assembled from. -/
theorem operands_assemble (o : Opcode) (operand : Nat → α) :
    (assemble o operand).operands = (List.range o.arity).map operand := by
  cases o <;> rfl

/-- **An instruction is assembled from its own operands.** -/
theorem assemble_of_operands {i : Instruction α} {operand : Nat → α}
    (h : i.operands = (List.range i.opcode.arity).map operand) :
    assemble i.opcode operand = i := by
  cases i with
  | binary op dst lhs rhs =>
    obtain ⟨rfl, rfl, rfl⟩ : dst = operand 0 ∧ lhs = operand 1 ∧ rhs = operand 2 := by
      cases op <;> simpa [operands, destination, sources, opcode, BinaryOp.opcode, Opcode.arity,
        List.range_succ] using h
    cases op <;> rfl
  | _ =>
    simp_all [operands, destination, sources, opcode, Opcode.arity, assemble, List.range_succ]

end Instruction

namespace Memory

/-- **The memory holds these words**, one after the other from an offset on. -/
def Holds (m : Memory) (start : Nat) (ws : List Word) : Prop :=
  ws <+: m.words.toList.drop start

/-- The first word is at the offset, the others behind it. -/
theorem holds_cons_iff {m : Memory} {start : Nat} {w : Word} {ws : List Word} :
    m.Holds start (w :: ws)
      ↔ (∃ h : start < memoryWords, m.get ⟨start, h⟩ = w) ∧ m.Holds (start + 1) ws := by
  unfold Holds
  by_cases h : start < memoryWords
  · rw [List.drop_eq_getElem_cons (by simpa using h), List.cons_prefix_cons]
    refine and_congr_left (fun _ => ⟨fun hw => ⟨h, ?_⟩, fun ⟨_, hw⟩ => ?_⟩)
    · rw [hw]; rfl
    · rw [← hw]; rfl
  · rw [List.drop_eq_nil_of_le (by simpa using h)]
    exact ⟨fun hp => absurd hp (by simp), fun ⟨⟨hlt, _⟩, _⟩ => absurd hlt h⟩

/-- What the memory holds behind an offset ends inside it. -/
theorem add_length_le_of_holds {m : Memory} {start : Nat} {ws : List Word}
    (h : m.Holds start ws) (hstart : start ≤ memoryWords) : start + ws.length ≤ memoryWords := by
  have hle := h.length_le
  simp only [List.length_drop, Vector.length_toList] at hle
  omega

/-- The words read one by one are held, as far as the memory reaches. -/
theorem holds_map_wordAt (m : Memory) {start n : Nat} (h : start + n ≤ memoryWords) :
    m.Holds start ((List.range n).map fun i => m.wordAt (start + i)) := by
  refine List.prefix_iff_getElem.mpr ⟨by simp; omega, fun j hj => ?_⟩
  have hj' : start + j < memoryWords := by
    simp only [List.length_map, List.length_range] at hj
    omega
  simp [wordAt, hj']

/-- As many words held at one offset are the same words. -/
theorem eq_of_holds {m : Memory} {start : Nat} {ws ws' : List Word} (h : m.Holds start ws)
    (h' : m.Holds start ws') (hlength : ws.length = ws'.length) : ws = ws' :=
  (List.prefix_of_prefix_length_le h h' (Nat.le_of_eq hlength)).eq_of_length hlength

/-- A word that is an address is loaded from there. -/
theorem load?_eq_some_iff {m : Memory} {a w : Word} :
    m.load? a = some w ↔ ∃ h : a.toNat < memoryWords, m.get ⟨a.toNat, h⟩ = w := by
  unfold load? Address.ofWord?
  by_cases h : a.toNat < memoryWords
  · rw [dif_pos h, Option.map_some, Option.some_inj]
    exact ⟨fun hw => ⟨h, hw⟩, fun ⟨_, hw⟩ => hw⟩
  · rw [dif_neg h]
    exact ⟨fun hw => absurd hw (by simp), fun ⟨hlt, _⟩ => absurd hlt h⟩

/-- A word that is no address is loaded from nowhere. -/
theorem load?_eq_none_iff {m : Memory} {a : Word} :
    m.load? a = none ↔ memoryWords ≤ a.toNat := by
  unfold load? Address.ofWord?
  by_cases h : a.toNat < memoryWords
  · rw [dif_pos h]
    exact ⟨fun hw => absurd hw (by simp), fun hle => absurd h (Nat.not_lt.mpr hle)⟩
  · rw [dif_neg h]
    exact ⟨fun _ => Nat.not_lt.mp h, fun _ => rfl⟩

/-! ## The decoder -/

/-- Of an instruction that is held the last word is in the memory. -/
theorem end_le_of_holds {m : Memory} {a : Nat} {i : Instruction Word} (h : m.Holds a i.words) :
    a + 1 + i.opcode.arity ≤ memoryWords := by
  obtain ⟨⟨hlt, -⟩, hoperands⟩ := holds_cons_iff.mp h
  have hle := add_length_le_of_holds hoperands (by omega)
  rwa [i.length_operands] at hle

/-- No number up to that of the memory words is too great for a word. -/
theorem toNat_ofNat_of_le {n : Nat} (h : n ≤ memoryWords) : (UInt16.ofNat n).toNat = n :=
  UInt16.toNat_ofNat_of_lt' (Nat.lt_of_le_of_lt h (by decide))

/-- **The decoder finds an instruction whose words are held.** -/
theorem decode_of_holds {m : Memory} {a : Word} {i : Instruction Word}
    (h : m.Holds a.toNat i.words) :
    m.decode a = .ok (i, .ofNat (a.toNat + 1 + i.opcode.arity)) := by
  obtain ⟨⟨ha, hget⟩, hoperands⟩ := holds_cons_iff.mp h
  have hload : m.load? a = some i.opcode.number := load?_eq_some_iff.mpr ⟨ha, hget⟩
  have hnext := end_le_of_holds h
  -- as many words are held there as the instruction has operands, so they are its operands
  have hsame : i.operands
      = (List.range i.opcode.arity).map fun j => m.wordAt (a.toNat + 1 + j) :=
    eq_of_holds hoperands (holds_map_wordAt m hnext) (by simp)
  unfold decode
  rw [hload]
  dsimp only
  rw [Opcode.ofNumber?_number]
  dsimp only
  rw [if_pos hnext, Instruction.assemble_of_operands hsame]

/-- A first word beyond the last opcode is blamed. -/
theorem decode_of_no_opcode {m : Memory} {a w : Word} (hload : m.load? a = some w)
    (hw : Opcode.count ≤ w.toNat) : m.decode a = .error (.invalidOpcode w a) := by
  unfold decode
  rw [hload]
  dsimp only
  rw [Opcode.ofNumber?_eq_none_iff.mpr hw]

/-- An address beyond the last word is blamed. -/
theorem decode_of_beyond {m : Memory} {a : Word} (h : memoryWords ≤ a.toNat) :
    m.decode a = .error (.pointerOutOfRange a) := by
  unfold decode
  rw [load?_eq_none_iff.mpr h]

/-- An instruction that does not fit is blamed like one that is not there. -/
theorem decode_of_cut_off {m : Memory} {a : Word} {o : Opcode}
    (hload : m.load? a = some o.number) (h : memoryWords ≤ a.toNat + o.arity) :
    m.decode a = .error (.pointerOutOfRange a) := by
  unfold decode
  rw [hload]
  dsimp only
  rw [Opcode.ofNumber?_number]
  dsimp only
  rw [if_neg (by omega)]

/-- **The four things there can be at an address**: an instruction, a number
beyond the last opcode, nothing at all, and the front of an instruction. -/
theorem found_at (m : Memory) (a : Word) :
    (∃ i : Instruction Word, m.Holds a.toNat i.words)
      ∨ (∃ w, m.load? a = some w ∧ Opcode.count ≤ w.toNat)
      ∨ memoryWords ≤ a.toNat
      ∨ ∃ o : Opcode, m.load? a = some o.number ∧ memoryWords ≤ a.toNat + o.arity := by
  cases hload : m.load? a with
  | none => exact .inr (.inr (.inl (load?_eq_none_iff.mp hload)))
  | some w =>
    cases ho : Opcode.ofNumber? w with
    | none => exact .inr (.inl ⟨w, rfl, Opcode.ofNumber?_eq_none_iff.mp ho⟩)
    | some o =>
      obtain rfl := Opcode.ofNumber?_eq_some_iff.mp ho
      by_cases hfits : a.toNat + o.arity < memoryWords
      · refine .inl ⟨.assemble o fun j => m.wordAt (a.toNat + 1 + j), ?_⟩
        rw [Instruction.words, Instruction.opcode_assemble, Instruction.operands_assemble]
        exact holds_cons_iff.mpr
          ⟨load?_eq_some_iff.mp hload, holds_map_wordAt m (by omega)⟩
      · exact .inr (.inr (.inr ⟨o, rfl, Nat.not_lt.mp hfits⟩))

/-- **Decoding finds exactly the instruction whose words are held**, and the
address behind its last word. -/
theorem decode_eq_ok_iff {m : Memory} {a next : Word} {i : Instruction Word} :
    m.decode a = .ok (i, next)
      ↔ m.Holds a.toNat i.words ∧ next = .ofNat (a.toNat + 1 + i.opcode.arity) := by
  constructor
  · intro h
    rcases m.found_at a with ⟨j, hj⟩ | ⟨w, hload, hw⟩ | hbeyond | ⟨o, hload, hcut⟩
    · rw [decode_of_holds hj] at h
      cases h
      exact ⟨hj, rfl⟩
    · rw [decode_of_no_opcode hload hw] at h
      cases h
    · rw [decode_of_beyond hbeyond] at h
      cases h
    · rw [decode_of_cut_off hload hcut] at h
      cases h
  · rintro ⟨h, rfl⟩
    exact decode_of_holds h

end Memory

end RegisterMachine
