import RegisterMachine.Proofs.Fetching
import RegisterMachine.Proofs.Places

/-!
# Decoding undoes encoding

An instruction has one form in memory: the number of its opcode, and behind it its operands,
in an order and of a number that depend on the opcode alone. The encoder knows this form from
`Instruction.operands`, the decoder from `Opcode.arity` and `Instruction.assemble`, and the
two have nothing in common but the list of opcodes. **They fit together both ways**
(`Memory.decode_undoes_encoding`): an instruction that is stored is decoded again, whatever
its operand words are and whatever stands around it, and what is decoded is what is stored
there, word for word. Where nothing is decoded, no instruction could be.

That nothing gets in the way of an instruction while it is stored is a matter of order: each
word is stored behind those before it (`Memory.holds_storeAll`).
-/

namespace RegisterMachine.Memory

/-! ## Storing word by word -/

/-- **Storing words one after the other**, from an offset on. One that is refused makes the
whole fail. -/
def storeEach? (m : Memory) (offset : Nat) : List Word → Option Memory
  | [] => some m
  | w :: ws => (m.store? (.ofNat offset) w).bind fun stored => stored.storeEach? (offset + 1) ws

/-- An address is not refused. -/
theorem store?_toWord (m : Memory) (a : Address) (w : Word) :
    m.store? a.toWord w = some (m.set a w) := by
  rw [store?, store, Address.ofWord?_toWord]

/-- **Inside the memory no store is refused.** -/
theorem storeEach?_eq_storeAll {m : Memory} {offset : Nat} {ws : List Word}
    (h : offset + ws.length ≤ memoryWords) :
    m.storeEach? offset ws = some (m.storeAll offset ws) := by
  induction ws generalizing m offset with
  | nil => rfl
  | cons w ws ih =>
    rw [List.length_cons] at h
    have hlt : offset < memoryWords := by omega
    have hstored : m.store? (.ofNat offset) w = some (m.set ⟨offset, hlt⟩ w) :=
      m.store?_toWord ⟨offset, hlt⟩ w
    rw [storeEach?, hstored, Option.bind_some, storeAll, dif_pos hlt]
    exact ih (by omega)

/-- Words are stored behind an offset, and leave alone what is before it. -/
theorem get_storeAll_of_lt {m : Memory} {start : Nat} {ws : List Word} {a : Address}
    (h : a.val < start) : (m.storeAll start ws).get a = m.get a := by
  induction ws generalizing m start with
  | nil => rfl
  | cons w ws ih =>
    rw [storeAll]
    split
    · rw [ih (Nat.lt_succ_of_lt h)]
      exact m.get_set_of_ne w fun hsame => Nat.lt_irrefl _ (hsame ▸ h)
    · rfl

/-- **What was stored is held**, if it fits. -/
theorem holds_storeAll {m : Memory} {start : Nat} {ws : List Word}
    (h : start + ws.length ≤ memoryWords) : (m.storeAll start ws).Holds start ws := by
  induction ws generalizing m start with
  | nil => exact List.nil_prefix
  | cons w ws ih =>
    rw [List.length_cons] at h
    have hlt : start < memoryWords := by omega
    rw [storeAll, dif_pos hlt]
    refine holds_cons_iff.mpr ⟨⟨hlt, ?_⟩, ih (by omega)⟩
    -- the words behind the first one do not reach back to it
    rw [get_storeAll_of_lt (Nat.lt_succ_self start)]
    exact m.get_set_self ⟨start, hlt⟩ w

/-! ## Both ways -/

/-- Words that are held are those that stand there. -/
theorem take_drop_of_holds {m : Memory} {start : Nat} {ws : List Word} (h : m.Holds start ws) :
    (m.words.toList.drop start).take ws.length = ws :=
  (List.prefix_iff_eq_take.mp h).symm

/-- **Decoding fails exactly where no instruction is**: beyond the memory, at a number beyond
the last opcode, and at an opcode too close to the end for its operands. -/
theorem decode_eq_error_iff {m : Memory} {a : Word} :
    (∃ fault, m.decode a = .error fault)
      ↔ memoryWords ≤ a.toNat ∨ (∃ w, m.load? a = some w ∧ Opcode.count ≤ w.toNat)
        ∨ ∃ o : Opcode, m.load? a = some o.number ∧ memoryWords ≤ a.toNat + o.arity := by
  constructor
  · rintro ⟨fault, h⟩
    rcases m.found_at a with ⟨i, hi⟩ | hnumber | hbeyond | hcut
    · rw [decode_of_holds hi] at h
      cases h
    · exact .inr (.inl hnumber)
    · exact .inl hbeyond
    · exact .inr (.inr hcut)
  · rintro (hbeyond | ⟨w, hload, hw⟩ | ⟨o, hload, hcut⟩)
    · exact ⟨_, decode_of_beyond hbeyond⟩
    · exact ⟨_, decode_of_no_opcode hload hw⟩
    · exact ⟨_, decode_of_cut_off hload hcut⟩

/-- **Decoding undoes encoding, and encoding decoding.** An instruction with any operand
words can be stored wherever it fits, over any memory, and is then decoded from there,
together with the address behind it. What is decoded anywhere is an instruction with as many
operands as its opcode says; the address that comes with it is the one behind its last word,
no greater than 32768; and the words of the memory from the one to the other are the words of
the instruction. And nothing is decoded exactly at an address of 32768 or more, at a word
greater than 21, and at an opcode with fewer words behind it than it has operands. -/
theorem decode_undoes_encoding (m : Memory) (a : Word) :
    (∀ i : Instruction Word, a.toNat + i.opcode.arity ≤ 32767 →
        ∃ stored next, m.storeEach? a.toNat (i.opcode.number :: i.operands) = some stored
          ∧ stored.decode a = .ok (i, next) ∧ next.toNat = a.toNat + 1 + i.opcode.arity)
      ∧ (∀ i next, m.decode a = .ok (i, next) →
          i.operands.length = i.opcode.arity ∧ next.toNat = a.toNat + 1 + i.opcode.arity
            ∧ next.toNat ≤ 32768
            ∧ (m.words.toList.drop a.toNat).take (next.toNat - a.toNat)
              = i.opcode.number :: i.operands)
      ∧ ((∃ fault, m.decode a = .error fault)
        ↔ 32768 ≤ a.toNat ∨ (∃ w, m.load? a = some w ∧ 21 < w.toNat)
          ∨ ∃ o : Opcode, m.load? a = some o.number ∧ 32768 ≤ a.toNat + o.arity) := by
  refine ⟨fun i hfits => ?_, fun i next hdecode => ?_, decode_eq_error_iff⟩
  · have hend : a.toNat + 1 + i.opcode.arity ≤ memoryWords := by
      show _ ≤ 32768
      omega
    have hlength : a.toNat + (i.opcode.number :: i.operands).length ≤ memoryWords := by
      rw [List.length_cons, i.length_operands]
      omega
    exact ⟨_, _, storeEach?_eq_storeAll hlength, decode_of_holds (holds_storeAll hlength),
      toNat_ofNat_of_le hend⟩
  · obtain ⟨hholds, rfl⟩ := decode_eq_ok_iff.mp hdecode
    have hend := end_le_of_holds hholds
    have hcount : a.toNat + 1 + i.opcode.arity - a.toNat = i.words.length := by
      rw [Instruction.words, List.length_cons, i.length_operands]
      omega
    refine ⟨i.length_operands, toNat_ofNat_of_le hend, ?_, ?_⟩
    · rw [toNat_ofNat_of_le hend]
      exact hend
    · rw [toNat_ofNat_of_le hend, hcount]
      exact take_drop_of_holds hholds

/-- An instruction that ends with the last word of the memory, with an operand word that is
no operand, is stored, decoded and found again; behind that word nothing is decoded. -/
theorem decode_undoes_encoding_set :
    (∃ stored next, empty.storeEach? 32765 [1, 40000, 5] = some stored
        ∧ stored.decode 32765 = .ok (.set 40000 5, next) ∧ next.toNat = 32768
        ∧ (stored.words.toList.drop 32765).take (next.toNat - 32765) = [1, 40000, 5])
      ∧ ∃ fault, empty.decode 32768 = .error fault := by
  refine ⟨?_, (decode_undoes_encoding empty 32768).2.2.mpr (.inl (by decide))⟩
  obtain ⟨stored, next, hstored, hdecode, hnext⟩ :=
    (decode_undoes_encoding empty 32765).1 (.set 40000 5) (by decide)
  obtain ⟨-, -, -, hwords⟩ := (decode_undoes_encoding stored 32765).2.1 _ _ hdecode
  exact ⟨stored, next, hstored, hdecode, hnext, hwords⟩

end RegisterMachine.Memory
