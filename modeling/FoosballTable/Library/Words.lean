import Mathlib.Data.List.Basic

/-!
# Arrays of words in memory

A word of 32 bits is stored as four bytes, the lowest one first, and an array of words as the
bytes of its words in order. `memcpy` copies bytes, so it may end within a word: `blend` says
which words are found afterwards in an array that was the target of such a copy.
-/

namespace FoosballTable.Library

/-- The four bytes of a word. -/
def wordBytes (word : BitVec 32) : List Nat :=
  [word.toNat % 256, word.toNat / 256 % 256, word.toNat / 65536 % 256, word.toNat / 16777216]

/-- The word with the given bytes. -/
def wordFrom (b₀ b₁ b₂ b₃ : Nat) : BitVec 32 :=
  BitVec.ofNat 32 (b₀ + 256 * b₁ + 65536 * b₂ + 16777216 * b₃)

/-- The bytes of an array of words. -/
def arrayBytes (words : List (BitVec 32)) : List Nat :=
  words.flatMap wordBytes

/-- The words that the bytes of an array make up. -/
def arrayWords : List Nat → List (BitVec 32)
  | b₀ :: b₁ :: b₂ :: b₃ :: bytes => wordFrom b₀ b₁ b₂ b₃ :: arrayWords bytes
  | _ => []

/-- The bytes of the target after `count` bytes of the source were copied to its start. -/
def memcpy (count : Nat) (target source : List Nat) : List Nat :=
  source.take count ++ target.drop count

/-- The word found where `count` bytes of a new word were copied over an old one. -/
def blend (count : Nat) (old new : BitVec 32) : BitVec 32 :=
  match count with
  | 0 => old
  | 1 => wordFrom (new.toNat % 256) (old.toNat / 256 % 256) (old.toNat / 65536 % 256)
      (old.toNat / 16777216)
  | 2 => wordFrom (new.toNat % 256) (new.toNat / 256 % 256) (old.toNat / 65536 % 256)
      (old.toNat / 16777216)
  | 3 => wordFrom (new.toNat % 256) (new.toNat / 256 % 256) (new.toNat / 65536 % 256)
      (old.toNat / 16777216)
  | _ + 4 => new

/-- The upper two bytes of a word. -/
def upperHalf (word : BitVec 32) : Nat :=
  word.toNat / 65536

/-- A word is made up of its bytes. -/
theorem word_of_bytes (word : BitVec 32) :
    wordFrom (word.toNat % 256) (word.toNat / 256 % 256) (word.toNat / 65536 % 256)
      (word.toNat / 16777216) = word := by
  have hsum : word.toNat % 256 + 256 * (word.toNat / 256 % 256) +
      65536 * (word.toNat / 65536 % 256) + 16777216 * (word.toNat / 16777216) = word.toNat := by
    omega
  rw [wordFrom, hsum, BitVec.ofNat_toNat, BitVec.setWidth_eq]

/-- Copying half of a word gives the new word exactly when the upper halves agree. -/
theorem blend_half (old new : BitVec 32) :
    blend 2 old new = new ↔ upperHalf old = upperHalf new := by
  have hold := old.isLt
  have hnew := new.isLt
  unfold blend wordFrom upperHalf
  rw [← BitVec.toNat_inj, BitVec.toNat_ofNat]
  omega

/-- A copy treats the first words of two arrays apart from their other words. -/
theorem array_words_memcpy_cons (count : Nat) (old new : BitVec 32)
    (target source : List (BitVec 32)) :
    arrayWords (memcpy count (arrayBytes (old :: target)) (arrayBytes (new :: source))) =
      blend count old new ::
        arrayWords (memcpy (count - 4) (arrayBytes target) (arrayBytes source)) := by
  match count with
  | 0 => exact congrArg (· :: _) (word_of_bytes old)
  | 1 | 2 | 3 => rfl
  | _ + 4 => exact congrArg (· :: _) (word_of_bytes new)

/-- A copy leaves in each cell the blend of the two words there. -/
theorem get_array_words_memcpy (count : Nat) {target source : List (BitVec 32)}
    (hlength : target.length = source.length) {index : Nat} (h : index < target.length)
    (hsource : index < source.length) :
    (arrayWords (memcpy count (arrayBytes target) (arrayBytes source)))[index]? =
      some (blend (count - 4 * index) target[index] source[index]) := by
  induction target generalizing source count index with
  | nil => cases h
  | cons old target ih =>
      cases source with
      | nil => cases hlength
      | cons new source =>
          rw [array_words_memcpy_cons]
          cases index with
          | zero => rfl
          | succ index =>
              have hrest := ih (count - 4) (Nat.succ.inj hlength) (Nat.lt_of_succ_lt_succ h)
                (Nat.lt_of_succ_lt_succ hsource)
              rw [Nat.sub_sub, Nat.add_comm 4] at hrest
              exact hrest

/-- A copy keeps the number of words. -/
theorem length_array_words_memcpy (count : Nat) {target source : List (BitVec 32)}
    (hlength : target.length = source.length) :
    (arrayWords (memcpy count (arrayBytes target) (arrayBytes source))).length =
      target.length := by
  induction target generalizing source count with
  | nil =>
      cases source with
      | nil => simp [arrayBytes, memcpy, arrayWords]
      | cons new source => cases hlength
  | cons old target ih =>
      cases source with
      | nil => cases hlength
      | cons new source =>
          rw [array_words_memcpy_cons, List.length_cons, ih (count - 4) (Nat.succ.inj hlength),
            List.length_cons]

end FoosballTable.Library
