import RegisterMachine.Memory

/-!
# Program images

A program image is a sequence of words, each written with its low byte
first. Loading one puts it at the front of the memory and leaves zeros
behind it. There are three ways for bytes to be no image, and they are asked
about in a fixed order: whether there are any, whether they pair up, and
whether they fit.

`Memory.imageBytes` writes the image of a memory back.
-/

namespace RegisterMachine

/-- **Why bytes or words are no program image.** -/
inductive ImageError where
  /-- There are no bytes. -/
  | empty
  /-- The last byte has no partner. -/
  | oddLength (bytes : Nat)
  /-- There are more words than the memory has. -/
  | tooLarge (words : Nat)
  deriving DecidableEq, Repr

/-- The wording of an image error. -/
def ImageError.message : ImageError → String
  | .empty => "program image is empty"
  | .oddLength bytes => s!"program image has odd length ({bytes} bytes)"
  | .tooLarge words => s!"program image has {words} words; at most {memoryWords} fit in memory"

namespace Word

/-- The words that pairs of bytes encode, the low byte first. A last byte
without a partner encodes nothing. -/
def listOfBytes : List Byte → List Word
  | low :: high :: rest => .ofBytes low high :: listOfBytes rest
  | _ => []

/-- The bytes that encode words, the low byte of each first. -/
def bytesOfList (ws : List Word) : List Byte := ws.flatMap fun w => [lowByte w, highByte w]

end Word

namespace Memory

/-- **The memory that starts with the words of an image**, of any number up
to the size of the memory. -/
def ofWords (image : List Word) : Except ImageError Memory :=
  if h : image.length ≤ memoryWords then
    .ok {
      words := ⟨(image ++ List.replicate (memoryWords - image.length) 0).toArray, by
        simp only [List.size_toArray, List.length_append, List.length_replicate]
        omega⟩
      imageLength := image.length }
  else
    .error (.tooLarge image.length)

/-- **The memory that starts with an image given in bytes.** Whether it fits
is asked of the bytes, so nothing is made of an image that does not. -/
def ofBytes (image : List Byte) : Except ImageError Memory :=
  if image.isEmpty then .error .empty
  else if image.length % 2 = 1 then .error (.oddLength image.length)
  else if memoryWords < image.length / 2 then .error (.tooLarge (image.length / 2))
  else ofWords (Word.listOfBytes image)

/-- The words at the addresses the image was loaded to, as they are now. -/
def imageWords (m : Memory) : List Word := m.words.toList.take m.imageLength

/-- Those words in bytes. -/
def imageBytes (m : Memory) : List Byte := Word.bytesOfList m.imageWords

end Memory

end RegisterMachine
