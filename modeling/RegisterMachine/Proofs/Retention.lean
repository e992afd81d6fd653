import RegisterMachine.Proofs.Images
import RegisterMachine.Proofs.Writes

/-!
# A memory keeps what it is given

That there is a word at every address, and only there, is what the type of `Memory` says. What
the words are is a matter of what was done to them, and to a memory many things can be done: it
is built from an image, or from none; words are stored in it directly, or refused; it is put
into a machine, where instructions write to it, and are executed from it, and fail; and it may
be taken out and put into another one. `Memory.History` is any sequence of all this, with the
words that were written on it, in order.

**At every address there is the word that was written there last, or else that of the image,
or else zero** (`Memory.History.holds_last_written`). No write goes anywhere else, and none is
lost.
-/

namespace RegisterMachine.Memory

/-! ## Building a memory -/

/-- **A memory is built from an image**: from no image at all, from one in words, or from one
in bytes. -/
inductive BuiltFrom : Memory → List Word → Prop where
  | empty : BuiltFrom .empty []
  | words {image : List Word} {m : Memory} : ofWords image = .ok m → BuiltFrom m image
  | bytes {bs : List Byte} {m : Memory} : ofBytes bs = .ok m → BuiltFrom m (Word.listOfBytes bs)

/-- Then it starts with the image. -/
theorem BuiltFrom.starts {m : Memory} {image : List Word} (h : m.BuiltFrom image) :
    m.Starts image := by
  cases h with
  | empty => exact starts_empty
  | words hwords => exact starts_of_ofWords hwords
  | bytes hbytes => exact (starts_of_ofBytes hbytes).2.2.2

/-! ## Storing a word -/

/-- What is written by storing a word at an offset: nothing, if the offset is no address. -/
def storeWrites (offset w : Word) : List (Place × Word) :=
  ((Address.ofWord? offset).map fun a => (.cell a, w)).toList

section

variable {m : Memory} {offset w : Word}

/-- **Storing gives an answer and sets the word of an address, or it gives none and leaves the
memory alone**, and which of these it is depends on the offset alone. -/
theorem store_cases (m : Memory) (offset w : Word) :
    (∃ a, Address.ofWord? offset = some a ∧ offset.toNat ≤ 32767
        ∧ m.store offset w = (some (), m.set a w))
      ∨ ¬ offset.toNat ≤ 32767 ∧ Address.ofWord? offset = none ∧ m.store offset w = (none, m) := by
  unfold store
  cases ha : Address.ofWord? offset with
  | some a =>
    have hoffset : offset.toNat = a.val := Address.toNat_of_ofWord? ha
    exact .inl ⟨a, rfl, hoffset ▸ Nat.le_of_lt_succ a.isLt, rfl⟩
  | none =>
    refine .inr ⟨fun hle => ?_, rfl, rfl⟩
    rw [Address.ofWord?, dif_pos (Nat.lt_succ_of_le hle)] at ha
    cases ha

/-- A word is stored exactly at an offset that is an address. -/
theorem store_fst_eq_some_iff : (m.store offset w).1 = some () ↔ offset.toNat ≤ 32767 := by
  rcases m.store_cases offset w with ⟨a, -, hle, hstore⟩ | ⟨hle, -, hstore⟩
  · rw [hstore]
    exact iff_of_true rfl hle
  · rw [hstore]
    exact iff_of_false (nomatch ·) hle

/-- And a word is loaded from just these, which are as many as the memory has words. -/
theorem exists_load?_iff : (∃ w, m.load? offset = some w) ↔ offset.toNat < m.size :=
  ⟨fun ⟨_, hw⟩ => (load?_eq_some_iff.mp hw).1, fun h => ⟨_, load?_eq_some_iff.mpr ⟨h, rfl⟩⟩⟩

/-- What was stored is loaded again, and what is at another offset is left alone. -/
theorem load?_of_store (h : (m.store offset w).1 = some ()) :
    (m.store offset w).2.load? offset = some w
      ∧ ∀ other, other ≠ offset → (m.store offset w).2.load? other = m.load? other := by
  rcases m.store_cases offset w with ⟨a, ha, -, hstore⟩ | ⟨-, -, hstore⟩
  · rw [hstore]
    refine ⟨?_, fun other hne => load?_congr fun hlt => get_set_of_ne m w fun hsame => hne ?_⟩
    · rw [load?, ha, Option.map_some, get_set_self]
    · rw [← UInt16.toNat_inj, Address.toNat_of_ofWord? ha, hsame]
  · rw [hstore] at h
    cases h

/-- **A word that is refused changes nothing.** -/
theorem store_of_refused (h : (m.store offset w).1 = none) : (m.store offset w).2 = m := by
  rcases m.store_cases offset w with ⟨a, -, -, hstore⟩ | ⟨-, -, hstore⟩
  · rw [hstore] at h
    cases h
  · rw [hstore]

/-- **Storing writes what it says it writes.** -/
theorem get_store (m : Memory) (offset w : Word) (a : Address) :
    (m.store offset w).2.get a
      = ((Place.cell a).lastWritten? (storeWrites offset w)).getD (m.get a) := by
  unfold storeWrites
  rcases m.store_cases offset w with ⟨b, hb, -, hstore⟩ | ⟨-, hnone, hstore⟩
  · rw [hstore, hb]
    exact (Machine.Writes.write (.ofMemory m) w (.cell b)).wordAt (.cell a)
  · rw [hstore, hnone]
    rfl

theorem imageLength_store (m : Memory) (offset w : Word) :
    (m.store offset w).2.imageLength = m.imageLength := by
  rcases m.store_cases offset w with ⟨a, -, -, hstore⟩ | ⟨-, -, hstore⟩ <;> rw [hstore]
  exact m.imageLength_set a w

end

/-! ## Histories -/

/-- **What can become of a memory**, with all that was written on the way, in order. Words are
stored in it directly, and in a machine, whatever the rest of the machine and its console are,
any command is carried out. -/
inductive History (built : Memory) : List (Place × Word) → Memory → Prop where
  /-- Nothing is done. -/
  | start : History built [] built
  /-- One more word is stored at an offset, or refused there. -/
  | store {writes : List (Place × Word)} {m : Memory} (offset w : Word) : History built writes m →
      History built (writes ++ storeWrites offset w) (m.store offset w).2
  /-- One more command is carried out on a machine with this memory. -/
  | command {κ : Type} [Console κ] {writes : List (Place × Word)} {s t : Session κ} {fuel : Nat}
      {c : Command} {reply : Reply} : History built writes s.machine.memory →
      s.perform? fuel c = some (reply, t) →
      History built (writes ++ s.writesOf fuel c) t.machine.memory

namespace History

variable {built m : Memory} {writes : List (Place × Word)}

/-- **At an address there is what was written there last**, or what there was at first. -/
theorem get_eq (h : built.History writes m) (a : Address) :
    m.get a = ((Place.cell a).lastWritten? writes).getD (built.get a) := by
  induction h with
  | start => rfl
  | store offset w _ ih => rw [get_store, ih, Place.getD_lastWritten?_append]
  | command _ hperform ih =>
    rw [Place.getD_lastWritten?_append, ← ih]
    exact (Session.writes_perform hperform).wordAt (.cell a)

/-- The length of the image is never changed. -/
theorem imageLength_eq (h : built.History writes m) : m.imageLength = built.imageLength := by
  induction h with
  | start => rfl
  | store offset w _ ih => exact (imageLength_store _ offset w).trans ih
  | command _ hperform ih => exact (Session.writes_perform hperform).imageLength.trans ih

/-- **A memory is a total map that keeps what it is given.** Whatever became of a memory that
was built from an image, it has 32768 words, and of these as many are still said to be the
image's as there were at first. A word is loaded from an offset exactly if the memory has so
many words, that is if the offset is at most 32767, and is stored at one exactly then; it is
found there afterwards, with all other offsets as they were, and a word that is refused leaves
the memory it should have gone to as it was. And the word at an offset is the one that was last
written there, whether it was stored or an instruction has written it, or else that of the
image, or else zero. -/
theorem holds_last_written {image : List Word} (hbuilt : built.BuiltFrom image)
    (h : built.History writes m) :
    m.size = 32768 ∧ m.imageLength = image.length
      ∧ (∀ o : Word, (∃ w, m.load? o = some w) ↔ o.toNat < m.size)
      ∧ (∀ o : Word, (∃ w, m.load? o = some w) ↔ o.toNat ≤ 32767)
      ∧ (∀ o v : Word, (m.store o v).1 = some () ↔ o.toNat ≤ 32767)
      ∧ (∀ o v : Word, (m.store o v).1 = some () → (m.store o v).2.load? o = some v
          ∧ ∀ other, other ≠ o → (m.store o v).2.load? other = m.load? other)
      ∧ (∀ o v : Word, (m.store o v).1 = none → (m.store o v).2 = m)
      ∧ ∀ (o : Word) (ho : o.toNat < 32768), m.load? o
          = some (((Place.cell ⟨o.toNat, ho⟩).lastWritten? writes).getD
            (image[o.toNat]?.getD 0)) := by
  have hstarts : built.Starts image := hbuilt.starts
  refine ⟨rfl, h.imageLength_eq.trans hstarts.imageLength, fun o => exists_load?_iff, fun o => ?_,
    fun o v => store_fst_eq_some_iff, fun o v => load?_of_store, fun o v => store_of_refused,
    fun o ho => ?_⟩
  · exact exists_load?_iff.trans Nat.lt_succ_iff
  · rw [← hstarts.get ⟨o.toNat, ho⟩, ← h.get_eq ⟨o.toNat, ho⟩]
    exact load?_eq_some_iff.mpr ⟨ho, rfl⟩

/-- A `set` of a literal destination: its source was stored over the image, a word was refused,
and the step writes that source to the memory. -/
theorem holds_last_written_set :
    ∃ built writes m, ofWords [1, 5, 7] = .ok built ∧ built.History writes m
      ∧ writes = [(.cell 2, 9), (.cell 5, 9)]
      ∧ m.load? 5 = some 9 ∧ m.load? 2 = some 9 ∧ m.load? 1 = some 5 ∧ m.load? 6 = some 0
      ∧ m.imageLength = 3 := by
  let built : Memory := (ofWords [1, 5, 7]).toOption.getD empty
  let s : Session Buffer :=
    ⟨.ofMemory ((built.store 2 9).2.store 40000 3).2, .ofInput []⟩
  have hbuilt : ofWords [1, 5, 7] = .ok built := rfl
  have hstored : built.History (storeWrites 2 9 ++ storeWrites 40000 3) s.machine.memory :=
    .store 40000 3 (.store 2 9 .start)
  have hstep : s.perform? 0 .step = some (.status s.step.1, s.step.2) := s.perform?_step 0
  have hwrites : storeWrites 2 9 ++ storeWrites 40000 3 ++ s.writesOf 0 .step
      = [(.cell 2, 9), (.cell 5, 9)] := by decide +kernel
  have hhistory : built.History [(.cell 2, 9), (.cell 5, 9)] s.step.2.machine.memory :=
    hwrites ▸ hstored.command hstep
  obtain ⟨-, hlength, -, -, -, -, -, hheld⟩ := holds_last_written (.words hbuilt) hhistory
  exact ⟨built, _, _, hbuilt, hhistory, rfl, hheld 5 (by decide), hheld 2 (by decide),
    hheld 1 (by decide), hheld 6 (by decide), hlength⟩

end History

end RegisterMachine.Memory
