import Mathlib.Algebra.Group.Nat.Defs
import Mathlib.Data.List.GetD
import Mathlib.Tactic.Common

/-!
# Little-endian words in byte strings

A 32-bit word occupies four bytes, least significant first.  This file encodes
lists of words into byte strings, reads a word back from any byte position, and
proves that the two agree.
-/

namespace LittleEndianWords

abbrev Byte := UInt8

abbrev Word := BitVec 32

/-- The four bytes of a word, least significant first. -/
def wordBytes (word : Word) : List Byte :=
  [UInt8.ofNat word.toNat, UInt8.ofNat (word.toNat / 2 ^ 8),
    UInt8.ofNat (word.toNat / 2 ^ 16), UInt8.ofNat (word.toNat / 2 ^ 24)]

/-- The word whose bytes start at position `offset`; missing bytes count as
zero. -/
def wordAt (bytes : List Byte) (offset : Nat) : Word :=
  BitVec.ofNat 32 ((bytes.getD offset 0).toNat +
    2 ^ 8 * (bytes.getD (offset + 1) 0).toNat +
    2 ^ 16 * (bytes.getD (offset + 2) 0).toNat +
    2 ^ 24 * (bytes.getD (offset + 3) 0).toNat)

def encodeWords (words : List Word) : List Byte :=
  words.flatMap wordBytes

@[simp]
theorem length_wordBytes (word : Word) : (wordBytes word).length = 4 :=
  rfl

@[simp]
theorem encodeWords_nil : encodeWords [] = [] :=
  rfl

@[simp]
theorem encodeWords_cons (word : Word) (words : List Word) :
    encodeWords (word :: words) = wordBytes word ++ encodeWords words :=
  rfl

@[simp]
theorem encodeWords_append (first second : List Word) :
    encodeWords (first ++ second) = encodeWords first ++ encodeWords second := by
  simp [encodeWords]

@[simp]
theorem length_encodeWords (words : List Word) :
    (encodeWords words).length = 4 * words.length := by
  induction words with
  | nil => rfl
  | cons word words ih =>
      simp only [encodeWords_cons, List.length_append, length_wordBytes, ih,
        List.length_cons]
      omega

theorem wordAt_wordBytes_append (word : Word) (rest : List Byte) :
    wordAt (wordBytes word ++ rest) 0 = word := by
  apply BitVec.eq_of_toNat_eq
  have bound := word.isLt
  simp only [wordAt, wordBytes, List.cons_append, List.nil_append,
    List.getD_cons_zero, List.getD_cons_succ, Nat.zero_add, BitVec.toNat_ofNat,
    UInt8.toNat_ofNat']
  omega

theorem wordAt_append_add (front rest : List Byte) (offset : Nat) :
    wordAt (front ++ rest) (front.length + offset) = wordAt rest offset := by
  simp only [wordAt, Nat.add_assoc]
  simp only [List.getD_append_right front rest 0 _ (Nat.le_add_right _ _),
    Nat.add_sub_cancel_left]

theorem wordAt_append_left (front rest : List Byte) {offset : Nat}
    (inside : offset + 4 ≤ front.length) :
    wordAt (front ++ rest) offset = wordAt front offset := by
  simp only [wordAt, List.getD_append front rest 0 _ (show offset < front.length by omega),
    List.getD_append front rest 0 _ (show offset + 1 < front.length by omega),
    List.getD_append front rest 0 _ (show offset + 2 < front.length by omega),
    List.getD_append front rest 0 _ (show offset + 3 < front.length by omega)]

/-- The word after another one starts where that one ends. -/
theorem address_succ (word : Word) (index : Nat) :
    4 * (index + 1) = (wordBytes word).length + 4 * index := by
  rw [length_wordBytes]
  omega

/-- Reading the word at the position where it was encoded gives it back. -/
theorem wordAt_encodeWords {words : List Word} {index : Nat} {word : Word}
    (present : words[index]? = some word) (rest : List Byte) :
    wordAt (encodeWords words ++ rest) (4 * index) = word := by
  induction words generalizing index with
  | nil => simp at present
  | cons head words ih =>
      rw [encodeWords_cons, List.append_assoc]
      cases index with
      | zero =>
          obtain rfl : head = word := by simpa using present
          exact wordAt_wordBytes_append head _
      | succ index =>
          have later := ih (by simpa using present)
          rw [address_succ head, wordAt_append_add, later]

/-- The leading words of an encoding are the encoding of the leading words. -/
theorem take_encodeWords (words : List Word) (count : Nat) :
    (encodeWords words).take (4 * count) = encodeWords (words.take count) := by
  induction words generalizing count with
  | nil => simp
  | cons word words ih =>
      cases count with
      | zero => simp
      | succ count =>
          simp only [encodeWords_cons, address_succ word, List.take_length_add_append,
            List.take_succ_cons, ih]

theorem drop_encodeWords (words : List Word) (count : Nat) :
    (encodeWords words).drop (4 * count) = encodeWords (words.drop count) := by
  induction words generalizing count with
  | nil => simp
  | cons word words ih =>
      cases count with
      | zero => simp
      | succ count =>
          simp only [encodeWords_cons, address_succ word, List.drop_length_add_append,
            List.drop_succ_cons, ih]

/-- Reading all the words of a vector gives it back. -/
theorem ofFn_wordAt_encodeWords {count : Nat} (words : Vector Word count) :
    (Vector.ofFn fun index : Fin count => wordAt (encodeWords words.toList) (4 * index.val)) =
      words := by
  apply Vector.ext
  intro index inside
  have present : words.toList[index]? = some words[index] := by
    simp [inside]
  simpa using wordAt_encodeWords present []

end LittleEndianWords
