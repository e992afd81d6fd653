import RegisterMachine.Memory.Image
import RegisterMachine.Proofs.Fetching

/-!
# An image and the memory it is loaded to

A word is written as two bytes, the low one first, and a memory is longer than most images. So
there are two ways for a loader to lose something, between bytes and words and between words
and memory, and none of them is taken: **a memory that was loaded from bytes holds the words
they spell, in their order and with zeros behind them, and can be written back to the same
bytes** (`Memory.images_load_exactly`).

Between bytes and words the two directions undo each other (`Word.listOfBytes_bytesOfList`,
`Word.bytesOfList_listOfBytes`), the second one where the bytes pair up. Between words and
memory all there is to say is `Memory.Starts`, and it is what loading comes to whether the image
was given in words or in bytes (`Memory.ofBytes_of_even`).
-/

namespace RegisterMachine

namespace Word

/-! ## A word and its two bytes -/

/-- **The high byte counts 256 times.** -/
theorem toNat_ofBytes (low high : Byte) :
    (ofBytes low high).toNat = low.toNat + 256 * high.toNat := by
  have hlow : low.toNat < 2 ^ 8 := low.toNat_lt
  have hhigh : high.toNat < 2 ^ 8 := high.toNat_lt
  have hshift : high.toNat <<< 8 % 2 ^ 16 = 2 ^ 8 * high.toNat := by
    rw [Nat.shiftLeft_eq, Nat.mod_eq_of_lt (by omega), Nat.mul_comm]
  calc (ofBytes low high).toNat
      = low.toNat ||| high.toNat <<< 8 % 2 ^ 16 := by
        rw [ofBytes, UInt16.toNat_or, UInt16.toNat_shiftLeft]
        rfl
    _ = 2 ^ 8 * high.toNat + low.toNat := by
        rw [hshift, Nat.or_comm, Nat.two_pow_add_eq_or_of_lt hlow]
    _ = low.toNat + 256 * high.toNat := Nat.add_comm _ _

theorem toNat_lowByte (w : Word) : w.lowByte.toNat = w.toNat % 256 :=
  UInt16.toNat_toUInt8 w

theorem toNat_highByte (w : Word) : w.highByte.toNat = w.toNat / 256 := by
  have hw := w.toNat_lt
  show (w >>> 8).toUInt8.toNat = _
  rw [UInt16.toNat_toUInt8, UInt16.toNat_shiftRight]
  show w.toNat >>> 8 % 256 = _
  rw [Nat.shiftRight_eq_div_pow]
  exact Nat.mod_eq_of_lt (by omega)

/-- A word is put together again from its bytes. -/
@[simp] theorem ofBytes_lowByte_highByte (w : Word) : ofBytes w.lowByte w.highByte = w := by
  refine UInt16.toNat_inj.mp ?_
  rw [toNat_ofBytes, toNat_lowByte, toNat_highByte]
  exact Nat.mod_add_div _ _

@[simp] theorem lowByte_ofBytes (low high : Byte) : (ofBytes low high).lowByte = low := by
  have hlow := low.toNat_lt
  refine UInt8.toNat_inj.mp ?_
  rw [toNat_lowByte, toNat_ofBytes]
  omega

@[simp] theorem highByte_ofBytes (low high : Byte) : (ofBytes low high).highByte = high := by
  have hlow := low.toNat_lt
  refine UInt8.toNat_inj.mp ?_
  rw [toNat_highByte, toNat_ofBytes]
  omega

/-! ## Words and their bytes -/

@[simp] theorem length_bytesOfList (ws : List Word) : (bytesOfList ws).length = 2 * ws.length := by
  induction ws with
  | nil => rfl
  | cons w ws ih =>
    show (bytesOfList ws).length + 1 + 1 = 2 * (ws.length + 1)
    rw [ih]
    omega

@[simp] theorem length_listOfBytes : ∀ bs : List Byte, (listOfBytes bs).length = bs.length / 2
  | [] => rfl
  | [_] => show 0 = 1 / 2 from rfl
  | low :: high :: rest => by
    show (listOfBytes rest).length + 1 = (rest.length + 1 + 1) / 2
    rw [length_listOfBytes rest]
    omega

/-- **The bytes of words spell these words.** -/
@[simp] theorem listOfBytes_bytesOfList (ws : List Word) : listOfBytes (bytesOfList ws) = ws := by
  induction ws with
  | nil => rfl
  | cons w ws ih =>
    show ofBytes w.lowByte w.highByte :: listOfBytes (bytesOfList ws) = w :: ws
    rw [ofBytes_lowByte_highByte, ih]

/-- **Bytes that pair up are the bytes of the words they spell.** -/
theorem bytesOfList_listOfBytes : ∀ bs : List Byte, bs.length % 2 = 0 →
    bytesOfList (listOfBytes bs) = bs
  | [], _ => rfl
  | [_], h => absurd (show 1 % 2 = 0 from h) (by decide)
  | low :: high :: rest, h => by
    have hrest : rest.length % 2 = 0 := (Nat.add_mod_right rest.length 2).symm.trans h
    show (ofBytes low high).lowByte :: (ofBytes low high).highByte
      :: bytesOfList (listOfBytes rest) = low :: high :: rest
    rw [lowByte_ofBytes, highByte_ofBytes, bytesOfList_listOfBytes rest hrest]

/-- **Each word is spelled by two bytes**, at twice its place and behind it. -/
theorem getElem?_listOfBytes : ∀ (bs : List Byte) (i : Nat) (h : 2 * i + 1 < bs.length),
    (listOfBytes bs)[i]? = some (ofBytes bs[2 * i] bs[2 * i + 1])
  | [_], _, h => absurd h (Nat.not_lt.mpr (Nat.le_add_left 1 _))
  | _ :: _ :: _, 0, _ => rfl
  | _ :: _ :: rest, i + 1, h =>
    getElem?_listOfBytes rest i (show 2 * i + 1 < rest.length from Nat.lt_of_add_lt_add_right
      (show 2 * i + 1 + 2 < rest.length + 2 from h))

end Word

/-! ## What can be wrong with bytes -/

/-- **What an image error blames bytes for.** -/
def ImageError.Blames (bs : List Byte) : ImageError → Prop
  | .empty => bs = []
  | .oddLength n => bs.length % 2 = 1 ∧ n = bs.length
  | .tooLarge n => bs.length % 2 = 0 ∧ 65536 < bs.length ∧ n = bs.length / 2

/-- There is something wrong with bytes, or they pair up and are neither none nor too many. -/
theorem ImageError.exists_blames_or (bs : List Byte) :
    (∃ e : ImageError, e.Blames bs) ∨ (bs ≠ [] ∧ bs.length % 2 = 0 ∧ bs.length ≤ 65536) := by
  by_cases hne : bs = []
  · exact .inl ⟨.empty, hne⟩
  rcases Nat.mod_two_eq_zero_or_one bs.length with heven | hodd
  · rcases Nat.lt_or_ge 65536 bs.length with hlarge | hroom
    · exact .inl ⟨.tooLarge _, heven, hlarge, rfl⟩
    · exact .inr ⟨hne, heven, hroom⟩
  · exact .inl ⟨.oddLength _, hodd, rfl⟩

namespace Memory

/-! ## Words in a memory -/

/-- **A memory starts with an image**, and holds nothing else. -/
structure Starts (m : Memory) (image : List Word) : Prop where
  imageLength : m.imageLength = image.length
  /-- The words of the image, and zeros behind them. -/
  get : ∀ a : Address, m.get a = image[a.val]?.getD 0

theorem starts_empty : empty.Starts [] :=
  ⟨rfl, fun a => Vector.getElem_replicate a.isLt⟩

/-- **Words are loaded exactly if there is room for them.** -/
theorem ofWords_of_le {image : List Word} (h : image.length ≤ memoryWords) :
    ∃ m, ofWords image = .ok m ∧ m.Starts image := by
  refine ⟨_, dif_pos h, rfl, fun a => ?_⟩
  have hbound : a.val < (image ++ List.replicate (memoryWords - image.length) 0).length := by
    rw [List.length_append, List.length_replicate, Nat.add_sub_cancel' h]
    exact a.isLt
  show (image ++ List.replicate (memoryWords - image.length) 0)[a.val] = _
  by_cases hlt : a.val < image.length
  · rw [List.getElem_append_left hlt, List.getElem?_eq_getElem hlt, Option.getD_some]
  · rw [List.getElem_append_right (Nat.not_lt.mp hlt), List.getElem_replicate,
      List.getElem?_eq_none (Nat.not_lt.mp hlt), Option.getD_none]

theorem ofWords_of_lt {image : List Word} (h : memoryWords < image.length) :
    ofWords image = .error (.tooLarge image.length) :=
  dif_neg (Nat.not_le.mpr h)

/-- So what was loaded is the image. -/
theorem starts_of_ofWords {image : List Word} {m : Memory} (h : ofWords image = .ok m) :
    m.Starts image := by
  by_cases hroom : image.length ≤ memoryWords
  · obtain ⟨m', hm', hstarts⟩ := ofWords_of_le hroom
    obtain rfl : m' = m := Except.ok.inj (hm'.symm.trans h)
    exact hstarts
  · rw [ofWords_of_lt (Nat.not_le.mp hroom)] at h
    cases h

variable {m : Memory} {image : List Word}

/-- A number up to that of the memory words is an offset to load from. -/
theorem load?_ofNat (m : Memory) {i : Nat} (h : i < memoryWords) :
    m.load? (.ofNat i) = some (m.get ⟨i, h⟩) := by
  have hoffset : (UInt16.ofNat i).toNat = i := toNat_ofNat_of_le (Nat.le_of_lt h)
  refine load?_eq_some_iff.mpr ⟨hoffset.symm ▸ h, congrArg m.get (Fin.ext hoffset)⟩

namespace Starts

/-- The words of the image are found at their places. -/
theorem load?_of_lt (hm : m.Starts image) {i : Nat} (h : i < image.length) (hi : i < memoryWords) :
    m.load? (.ofNat i) = some image[i] := by
  rw [load?_ofNat m hi, hm.get, List.getElem?_eq_getElem h, Option.getD_some]

/-- Behind them there are zeros. -/
theorem load?_of_le (hm : m.Starts image) {i : Nat} (h : image.length ≤ i) (hi : i < memoryWords) :
    m.load? (.ofNat i) = some 0 := by
  rw [load?_ofNat m hi, hm.get, List.getElem?_eq_none h, Option.getD_none]

/-- **The image is found again.** -/
theorem imageWords (hm : m.Starts image) (h : image.length ≤ memoryWords) :
    m.imageWords = image := by
  rw [Memory.imageWords, hm.imageLength]
  refine List.ext_getElem (by simp; omega) fun i hi hlt => ?_
  rw [List.getElem_take, Vector.getElem_toList]
  show m.get ⟨i, Nat.lt_of_lt_of_le hlt h⟩ = image[i]
  rw [hm.get, List.getElem?_eq_getElem hlt, Option.getD_some]

/-- It is held from the beginning of the memory. -/
theorem holds (hm : m.Starts image) (h : image.length ≤ memoryWords) : m.Holds 0 image := by
  have hprefix : m.imageWords <+: m.words.toList := List.take_prefix _ _
  rwa [hm.imageWords h] at hprefix

end Starts

/-! ## Bytes in a memory -/

theorem ofBytes_nil : ofBytes [] = .error .empty := rfl

/-- Bytes that do not pair up are refused, however many there are. -/
theorem ofBytes_of_odd {bs : List Byte} (h : bs.length % 2 = 1) :
    ofBytes bs = .error (.oddLength bs.length) := by
  have hne : ¬ bs.isEmpty = true := by
    intro hempty
    rw [List.isEmpty_iff.mp hempty] at h
    exact absurd h (by decide)
  rw [ofBytes, if_neg hne, if_pos h]

/-- **Bytes that pair up are loaded as the words they spell**, and refused as these are. -/
theorem ofBytes_of_even {bs : List Byte} (hne : bs ≠ []) (h : bs.length % 2 = 0) :
    ofBytes bs = ofWords (Word.listOfBytes bs) := by
  rw [ofBytes, if_neg (mt List.isEmpty_iff.mp hne), if_neg (by rw [h]; decide)]
  by_cases hroom : memoryWords < bs.length / 2
  · rw [if_pos hroom, ofWords_of_lt (by rwa [Word.length_listOfBytes]), Word.length_listOfBytes]
  · rw [if_neg hroom]

/-- Words are loaded from their bytes as they are themselves. -/
theorem ofBytes_bytesOfList {ws : List Word} (h : ws ≠ []) :
    ofBytes (Word.bytesOfList ws) = ofWords ws := by
  have hpairs : (Word.bytesOfList ws).length = 2 * ws.length := Word.length_bytesOfList ws
  have hne : Word.bytesOfList ws ≠ [] := by
    refine List.ne_nil_of_length_pos ?_
    rw [hpairs]
    exact Nat.mul_pos (by decide) (List.length_pos_iff.mpr h)
  rw [ofBytes_of_even hne (by rw [hpairs]; exact Nat.mul_mod_right 2 _),
    Word.listOfBytes_bytesOfList]

/-- Bytes that pair up, and spell more words than there is room for, are refused. -/
theorem ofBytes_of_large {bs : List Byte} (h : bs.length % 2 = 0) (hlarge : 65536 < bs.length) :
    ofBytes bs = .error (.tooLarge (bs.length / 2)) := by
  have hne : bs ≠ [] := List.ne_nil_of_length_pos (Nat.zero_lt_of_lt hlarge)
  have hcount : (Word.listOfBytes bs).length = bs.length / 2 := Word.length_listOfBytes bs
  have hwords : memoryWords < (Word.listOfBytes bs).length := by
    show 32768 < _
    omega
  rw [ofBytes_of_even hne h, ofWords_of_lt hwords, hcount]

/-- The others are loaded, unless there are none. -/
theorem ofBytes_of_le {bs : List Byte} (hne : bs ≠ []) (h : bs.length % 2 = 0)
    (hroom : bs.length ≤ 65536) : ∃ m, ofBytes bs = .ok m ∧ m.Starts (Word.listOfBytes bs) := by
  have hcount : (Word.listOfBytes bs).length = bs.length / 2 := Word.length_listOfBytes bs
  rw [ofBytes_of_even hne h]
  exact ofWords_of_le (show _ ≤ 32768 by omega)

/-- **Bytes are refused for what an error blames them for.** -/
theorem ofBytes_of_blames {bs : List Byte} {e : ImageError} (h : e.Blames bs) :
    ofBytes bs = .error e := by
  cases e with
  | empty =>
    obtain rfl : bs = [] := h
    exact ofBytes_nil
  | oddLength n =>
    obtain ⟨hodd, rfl⟩ := h
    exact ofBytes_of_odd hodd
  | tooLarge n =>
    obtain ⟨heven, hlarge, rfl⟩ := h
    exact ofBytes_of_large heven hlarge

/-- **And for nothing else.** -/
theorem ofBytes_eq_error_iff {bs : List Byte} {e : ImageError} :
    ofBytes bs = .error e ↔ e.Blames bs := by
  refine ⟨fun h => ?_, ofBytes_of_blames⟩
  rcases ImageError.exists_blames_or bs with ⟨e', hblames⟩ | ⟨hne, heven, hroom⟩
  · obtain rfl : e' = e := Except.error.inj ((ofBytes_of_blames hblames).symm.trans h)
    exact hblames
  · obtain ⟨m, hm, -⟩ := ofBytes_of_le hne heven hroom
    rw [hm] at h
    cases h

/-- What was loaded nothing is wrong with, and it is the words that the bytes spell. -/
theorem starts_of_ofBytes {bs : List Byte} {m : Memory} (h : ofBytes bs = .ok m) :
    bs ≠ [] ∧ bs.length % 2 = 0 ∧ bs.length ≤ 65536 ∧ m.Starts (Word.listOfBytes bs) := by
  rcases ImageError.exists_blames_or bs with ⟨e, hblames⟩ | ⟨hne, heven, hroom⟩
  · rw [ofBytes_of_blames hblames] at h
    cases h
  · obtain ⟨m', hm', hstarts⟩ := ofBytes_of_le hne heven hroom
    obtain rfl : m' = m := Except.ok.inj (hm'.symm.trans h)
    exact ⟨hne, heven, hroom, hstarts⟩

/-- **The loader accepts exactly the images, and loses nothing of them.** Bytes are refused
as empty exactly if there are none, as odd exactly if they do not pair up, and as too many
exactly if they pair up and there are more than 65536 of them; otherwise they are loaded. A
memory loaded from bytes has as many words of an image as there are pairs, each of them its
first byte and 256 times its second, and zeros behind them up to the last of its 32768 words;
and its image is written back as the same bytes. Words are loaded exactly if there are no more
than 32768 of them, also if there are none, and in the same way as the bytes they are written
as, if there are any. -/
theorem images_load_exactly (bs : List Byte) (ws : List Word) :
    (ofBytes bs = .error .empty ↔ bs = [])
      ∧ (∀ n, ofBytes bs = .error (.oddLength n) ↔ bs.length % 2 = 1 ∧ n = bs.length)
      ∧ (∀ n, ofBytes bs = .error (.tooLarge n)
        ↔ bs.length % 2 = 0 ∧ 65536 < bs.length ∧ n = bs.length / 2)
      ∧ ((∃ m, ofBytes bs = .ok m) ↔ bs ≠ [] ∧ bs.length % 2 = 0 ∧ bs.length ≤ 65536)
      ∧ (∀ m, ofBytes bs = .ok m →
          m.imageLength = bs.length / 2 ∧ m.size = 32768
            ∧ (∀ i, (h : 2 * i + 1 < bs.length) → ∃ w, m.load? (.ofNat i) = some w
              ∧ w.toNat = bs[2 * i].toNat + 256 * bs[2 * i + 1].toNat)
            ∧ (∀ i, bs.length / 2 ≤ i → i < 32768 → m.load? (.ofNat i) = some 0)
            ∧ m.imageBytes = bs)
      ∧ (ws.length ≤ 32768 → ∃ m, ofWords ws = .ok m
          ∧ m.imageLength = ws.length ∧ m.size = 32768
          ∧ (∀ i, (h : i < ws.length) → m.load? (.ofNat i) = some ws[i])
          ∧ ∀ i, ws.length ≤ i → i < 32768 → m.load? (.ofNat i) = some 0)
      ∧ (32768 < ws.length → ofWords ws = .error (.tooLarge ws.length))
      ∧ (ws ≠ [] → ofBytes (Word.bytesOfList ws) = ofWords ws) := by
  refine ⟨ofBytes_eq_error_iff, fun n => ofBytes_eq_error_iff, fun n => ofBytes_eq_error_iff,
    ⟨?_, ?_⟩, fun m hm => ?_, fun hroom => ?_, ofWords_of_lt, ofBytes_bytesOfList⟩
  · rintro ⟨m, hm⟩
    obtain ⟨hne, heven, hroom, -⟩ := starts_of_ofBytes hm
    exact ⟨hne, heven, hroom⟩
  · rintro ⟨hne, heven, hroom⟩
    obtain ⟨m, hm, -⟩ := ofBytes_of_le hne heven hroom
    exact ⟨m, hm⟩
  · obtain ⟨-, heven, hroom, hstarts⟩ := starts_of_ofBytes hm
    have hcount : (Word.listOfBytes bs).length = bs.length / 2 := Word.length_listOfBytes bs
    have hwords : (Word.listOfBytes bs).length ≤ memoryWords := by
      show _ ≤ 32768
      omega
    refine ⟨hstarts.imageLength.trans hcount, rfl, fun i h => ?_, fun i h hi => ?_, ?_⟩
    · have hplace : i < (Word.listOfBytes bs).length := by omega
      refine ⟨_, hstarts.load?_of_lt hplace (Nat.lt_of_lt_of_le hplace hwords), ?_⟩
      rw [← Word.toNat_ofBytes]
      exact congrArg UInt16.toNat (List.getElem_eq_iff hplace |>.mpr
        (Word.getElem?_listOfBytes bs i h))
    · exact hstarts.load?_of_le (hcount ▸ h) hi
    · rw [imageBytes, hstarts.imageWords hwords, Word.bytesOfList_listOfBytes bs heven]
  · obtain ⟨m, hm, hstarts⟩ := ofWords_of_le hroom
    exact ⟨m, hm, hstarts.imageLength, rfl,
      fun i h => hstarts.load?_of_lt h (Nat.lt_of_lt_of_le h hroom),
      fun i h hi => hstarts.load?_of_le h hi⟩

/-- Three words, of which one is a register and one has two bytes that differ: they are loaded
from their bytes as from themselves, with a zero behind them. One byte less and they are
refused, and so is one word more than there is room for. -/
theorem images_load_exactly_three :
    let bs : List Byte := [9, 0, 0, 128, 52, 18]
    (∃ m, ofBytes bs = .ok m ∧ ofWords [9, 32768, 4660] = .ok m
        ∧ m.imageLength = 3 ∧ m.size = 32768 ∧ m.load? 2 = some 4660 ∧ m.load? 3 = some 0
        ∧ m.imageBytes = bs)
      ∧ ofBytes (bs.take 5) = .error (.oddLength 5)
      ∧ ofWords (List.replicate 32769 7) = .error (.tooLarge 32769) := by
  intro bs
  have hthree : bs.length / 2 = 3 := by decide
  obtain ⟨-, -, -, hloads, hholds, -, -, hbytes⟩ := images_load_exactly bs [9, 32768, 4660]
  obtain ⟨m, hm⟩ := hloads.mpr ⟨by decide, by decide, by decide⟩
  obtain ⟨hlength, hsize, hwords, hzeros, himage⟩ := hholds m hm
  rw [hthree] at hlength hzeros
  obtain ⟨w, hw, hvalue⟩ := hwords 2 (by decide)
  obtain rfl : w = 4660 := UInt16.toNat_inj.mp hvalue
  obtain ⟨-, hodd, -, -, -, -, hlarge, -⟩ :=
    images_load_exactly (bs.take 5) (List.replicate 32769 7)
  rw [List.length_replicate] at hlarge
  have hsame : ofWords [9, 32768, 4660] = .ok m := (hbytes (by decide)).symm.trans hm
  have hzero := hzeros 3 (Nat.le_refl 3) (by decide)
  exact ⟨⟨m, hm, hsame, hlength, hsize, hw, hzero, himage⟩, (hodd 5).mpr (by decide),
    hlarge (by decide)⟩

end Memory

end RegisterMachine
