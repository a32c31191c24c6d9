import Mathlib.Data.Fintype.Basic
import Mathlib.Data.Fintype.Fin
import Nachos.Disk

/-!
# Bitmaps

`BitMap` keeps one bit for each item in an array of unsigned words.  The number
of items never changes after construction, so it is a parameter of the type and
the array always has the right number of words.  The lemmas describe every
operation by the set of marked items.
-/

namespace Nachos

/-- `divRoundUp(numBits, BitsInWord)`. -/
def BitMap.wordCount (numBits : Nat) : Nat :=
  (numBits + 31) / 32

structure BitMap (numBits : Nat) where
  map : Vector Word (BitMap.wordCount numBits)
  deriving DecidableEq

namespace BitMap

variable {numBits : Nat}

theorem word_lt (index : Fin numBits) : index.val / 32 < wordCount numBits := by
  have := index.isLt
  simp only [wordCount]
  omega

/-- `1 << (which % BitsInWord)`. -/
def bitOf (which : Nat) : Word :=
  1#32 <<< (which % 32)

def wordOf (bits : BitMap numBits) (index : Fin numBits) : Word :=
  have := word_lt index
  bits.map[index.val / 32]

def testBit (bits : BitMap numBits) (index : Fin numBits) : Bool :=
  bits.wordOf index &&& bitOf index.val != 0#32

def markBit (bits : BitMap numBits) (index : Fin numBits) : BitMap numBits :=
  have inside := word_lt index
  ⟨bits.map.set (index.val / 32)
    (bits.wordOf index ||| bitOf index.val) inside⟩

def clearBit (bits : BitMap numBits) (index : Fin numBits) : BitMap numBits :=
  have inside := word_lt index
  ⟨bits.map.set (index.val / 32)
    (bits.wordOf index &&& ~~~bitOf index.val) inside⟩

/-- The check `ASSERT(which >= 0 && which < numBits)` of every operation. -/
def index (numBits : Nat) (which : Int) : Except Fault (Fin numBits) :=
  if inside : 0 ≤ which ∧ which < numBits then
    .ok ⟨which.toNat, by omega⟩
  else .error .assertion

def mark (bits : BitMap numBits) (which : Int) : Except Fault (BitMap numBits) :=
  (index numBits which).map bits.markBit

def clear (bits : BitMap numBits) (which : Int) : Except Fault (BitMap numBits) :=
  (index numBits which).map bits.clearBit

def test (bits : BitMap numBits) (which : Int) : Except Fault Bool :=
  (index numBits which).map bits.testBit

/-- `BitMap::BitMap`: the constructor clears the bits one by one in fresh
memory. -/
def new (memory : Vector Word (wordCount numBits)) : BitMap numBits :=
  (List.finRange numBits).foldl clearBit ⟨memory⟩

/-- The loop of `Find`: the first bit that is clear. -/
def firstClear (bits : BitMap numBits) : Option (Fin numBits) :=
  (List.finRange numBits).find? fun index => !bits.testBit index

/-- `BitMap::Find`. -/
def find (bits : BitMap numBits) : Int × BitMap numBits :=
  match bits.firstClear with
  | some index => (index.val, bits.markBit index)
  | none => (-1, bits)

/-- `Find` called `count` times. -/
def findEach : Nat → BitMap numBits → List Int × BitMap numBits
  | 0, bits => ([], bits)
  | count + 1, bits =>
      let (found, bits) := bits.find
      let (rest, bits) := findEach count bits
      (found :: rest, bits)

/-- `BitMap::NumClear`. -/
def numClear (bits : BitMap numBits) : Nat :=
  (List.finRange numBits).countP fun index => !bits.testBit index

theorem bitOf_eq_twoPow (which : Nat) :
    bitOf which = BitVec.twoPow 32 (which % 32) :=
  (BitVec.twoPow_eq 32 (which % 32)).symm

theorem getLsbD_bitOf (which position : Nat) :
    (bitOf which).getLsbD position = decide (which % 32 = position) := by
  have small : which % 32 < 32 := Nat.mod_lt _ (by decide)
  rw [bitOf_eq_twoPow, BitVec.getLsbD_twoPow]
  simp [small]

/-- `Test` reads bit `which % BitsInWord` of word `which / BitsInWord`. -/
theorem testBit_eq_getLsbD (bits : BitMap numBits) (index : Fin numBits) :
    bits.testBit index = (bits.wordOf index).getLsbD (index.val % 32) := by
  have nonzero : BitVec.twoPow 32 (index.val % 32) ≠ 0#32 := by
    intro zero
    have value := congrArg (fun word => BitVec.getLsbD word (index.val % 32)) zero
    simp [← bitOf_eq_twoPow, getLsbD_bitOf] at value
  simp only [testBit, bitOf_eq_twoPow, BitVec.and_twoPow]
  cases (bits.wordOf index).getLsbD (index.val % 32) <;>
    simp [nonzero]

/-- Two items share their word and their bit only when they are the same. -/
theorem same_position {first second : Fin numBits}
    (word : first.val / 32 = second.val / 32)
    (bit : first.val % 32 = second.val % 32) : first = second := by
  apply Fin.ext
  omega

@[simp]
theorem testBit_markBit (bits : BitMap numBits) (marked index : Fin numBits) :
    (bits.markBit marked).testBit index =
      (decide (index = marked) || bits.testBit index) := by
  rw [testBit_eq_getLsbD, testBit_eq_getLsbD]
  simp only [wordOf, markBit, Vector.getElem_set]
  by_cases word : marked.val / 32 = index.val / 32
  · simp only [word, if_true, BitVec.getLsbD_or, getLsbD_bitOf]
    by_cases bit : marked.val % 32 = index.val % 32
    · obtain rfl := same_position word bit
      simp
    · have different : index ≠ marked := fun equal => bit (by rw [equal])
      simp [bit, different]
  · have different : index ≠ marked := fun equal => word (by rw [equal])
    simp [word, different]

@[simp]
theorem testBit_clearBit (bits : BitMap numBits) (cleared index : Fin numBits) :
    (bits.clearBit cleared).testBit index =
      (decide (index ≠ cleared) && bits.testBit index) := by
  have small : index.val % 32 < 32 := Nat.mod_lt _ (by decide)
  rw [testBit_eq_getLsbD, testBit_eq_getLsbD]
  simp only [wordOf, clearBit, Vector.getElem_set]
  by_cases word : cleared.val / 32 = index.val / 32
  · simp only [word, if_true, BitVec.getLsbD_and, BitVec.getLsbD_not,
      getLsbD_bitOf, small, decide_true, Bool.true_and]
    by_cases bit : cleared.val % 32 = index.val % 32
    · obtain rfl := same_position word bit
      simp
    · have different : index ≠ cleared := fun equal => bit (by rw [equal])
      simp [bit, different]
  · have different : index ≠ cleared := fun equal => word (by rw [equal])
    simp [word, different]

theorem index_of_fin (which : Fin numBits) :
    index numBits (which.val : Int) = .ok which := by
  have := which.isLt
  rw [index, dif_pos ⟨by omega, by omega⟩]
  simp

/-- The bitmap after the listed bits were cleared one by one. -/
def clearEach (bits : BitMap numBits) (cleared : List (Fin numBits)) : BitMap numBits :=
  cleared.foldl clearBit bits

theorem clearEach_append (bits : BitMap numBits) (first second : List (Fin numBits)) :
    bits.clearEach (first ++ second) = (bits.clearEach first).clearEach second :=
  List.foldl_append

theorem testBit_clearEach (bits : BitMap numBits) (cleared : List (Fin numBits))
    (index : Fin numBits) :
    (bits.clearEach cleared).testBit index =
      (decide (index ∉ cleared) && bits.testBit index) := by
  induction cleared generalizing bits with
  | nil => simp [clearEach]
  | cons head cleared ih =>
      rw [clearEach, List.foldl_cons]
      apply (ih (bits.clearBit head)).trans
      rw [testBit_clearBit]
      by_cases same : index = head <;> simp [same]

/-- When the words have no unused bits, the bitmap is determined by its items. -/
theorem ext_testBit {first second : BitMap numBits} (whole : numBits % 32 = 0)
    (same : ∀ index, first.testBit index = second.testBit index) : first = second := by
  have words : first.map = second.map := by
    apply Vector.ext
    intro word inside
    apply BitVec.eq_of_getLsbD_eq
    intro bit small
    simp only [wordCount] at inside
    let index : Fin numBits := ⟨32 * word + bit, by omega⟩
    have here := same index
    have quotient : index.val / 32 = word := by
      simp only [index]
      omega
    have remainder : index.val % 32 = bit := by
      simp only [index]
      omega
    simp only [testBit_eq_getLsbD, wordOf, quotient, remainder] at here
    exact here
  cases first
  cases second
  exact congrArg BitMap.mk words

/-- A freshly constructed bitmap has all its bits clear. -/
theorem testBit_new (memory : Vector Word (wordCount numBits))
    (index : Fin numBits) : (new memory).testBit index = false := by
  have cleared : ∀ (items : List (Fin numBits)) (bits : BitMap numBits),
      index ∈ items ∨ bits.testBit index = false →
        (items.foldl clearBit bits).testBit index = false := by
    intro items
    induction items with
    | nil => simp
    | cons item items ih =>
        intro bits present
        apply ih
        by_cases same : index = item
        · exact Or.inr (by simp [same])
        · rcases present with member | clear
          · exact Or.inl ((List.mem_cons.mp member).resolve_left same)
          · exact Or.inr (by simp [clear])
  exact cleared _ _ (Or.inl (List.mem_finRange index))

section Find

/-- What `Find` does when it succeeds: it marks the least clear bit. -/
theorem find_of_firstClear {bits : BitMap numBits} {found : Fin numBits}
    (first : bits.firstClear = some found) :
    bits.find = ((found.val : Int), bits.markBit found) := by
  simp [find, first]

theorem find_of_full {bits : BitMap numBits} (full : bits.firstClear = none) :
    bits.find = (-1, bits) := by
  simp [find, full]

theorem testBit_firstClear {bits : BitMap numBits} {found : Fin numBits}
    (first : bits.firstClear = some found) : bits.testBit found = false := by
  simpa using List.find?_some first

theorem firstClear_eq_none_iff {bits : BitMap numBits} :
    bits.firstClear = none ↔ ∀ index, bits.testBit index = true := by
  simp [firstClear, List.find?_eq_none]

/-- The clear bits as a set. -/
def clearSet (bits : BitMap numBits) : Finset (Fin numBits) :=
  Finset.univ.filter fun index => bits.testBit index = false

@[simp]
theorem mem_clearSet {bits : BitMap numBits} {index : Fin numBits} :
    index ∈ bits.clearSet ↔ bits.testBit index = false := by
  simp [clearSet]

/-- `NumClear` counts the clear bits. -/
theorem numClear_eq_card (bits : BitMap numBits) :
    bits.numClear = bits.clearSet.card := by
  rw [numClear, List.countP_eq_length_filter, clearSet, Finset.card_def]
  simp [Finset.filter, Fin.univ_def]

theorem clearSet_markBit (bits : BitMap numBits) (marked : Fin numBits) :
    (bits.markBit marked).clearSet = bits.clearSet.erase marked := by
  ext index
  simp [Finset.mem_erase]

theorem firstClear_isSome_of_pos {bits : BitMap numBits}
    (positive : 0 < bits.numClear) : ∃ found, bits.firstClear = some found := by
  cases first : bits.firstClear with
  | some found => exact ⟨found, rfl⟩
  | none =>
      have full := firstClear_eq_none_iff.mp first
      rw [numClear_eq_card, Finset.card_pos] at positive
      obtain ⟨index, clear⟩ := positive
      simp [full index] at clear

theorem numClear_markBit {bits : BitMap numBits} {found : Fin numBits}
    (clear : bits.testBit found = false) :
    (bits.markBit found).numClear + 1 = bits.numClear := by
  rw [numClear_eq_card, numClear_eq_card, clearSet_markBit]
  exact Finset.card_erase_add_one (mem_clearSet.mpr clear)

theorem findEach_succ_of_firstClear {bits : BitMap numBits} {found : Fin numBits}
    (first : bits.firstClear = some found) (count : Nat) :
    bits.findEach (count + 1) =
      ((found.val : Int) :: ((bits.markBit found).findEach count).1,
        ((bits.markBit found).findEach count).2) := by
  simp only [findEach, find_of_firstClear first]

theorem findEach_succ_of_full {bits : BitMap numBits} (full : bits.firstClear = none)
    (count : Nat) :
    bits.findEach (count + 1) = (-1 :: (bits.findEach count).1, (bits.findEach count).2) := by
  simp only [findEach, find_of_full full]

@[simp]
theorem length_findEach (bits : BitMap numBits) (count : Nat) :
    (bits.findEach count).1.length = count := by
  induction count generalizing bits with
  | zero => rfl
  | succ count ih => simp [findEach, ih]

/-- The bits among the results of `Find`, which are -1 when there was none. -/
def bitsOf (numBits : Nat) (found : List Int) : List (Fin numBits) :=
  found.filterMap fun which => (index numBits which).toOption

theorem mem_bitsOf_iff {found : List Int} {bit : Fin numBits} :
    bit ∈ bitsOf numBits found ↔ (bit.val : Int) ∈ found := by
  rw [bitsOf, List.mem_filterMap]
  constructor
  · rintro ⟨which, member, isBit⟩
    unfold index at isBit
    split at isBit
    · next inside =>
      cases isBit
      rwa [Int.toNat_of_nonneg inside.1]
    · cases isBit
  · intro member
    exact ⟨bit.val, member, by rw [index_of_fin]; rfl⟩

theorem bitsOf_neg_one_cons (found : List Int) :
    bitsOf numBits (-1 :: found) = bitsOf numBits found := by
  simp [bitsOf, index, Except.toOption]

theorem bitsOf_val_cons (bit : Fin numBits) (found : List Int) :
    bitsOf numBits ((bit.val : Int) :: found) = bit :: bitsOf numBits found := by
  simp [bitsOf, index_of_fin, Except.toOption]

/-- What `Find` finds, whether or not there are enough clear bits. -/
theorem bitsOf_findEach (bits : BitMap numBits) (count : Nat) :
    (bitsOf numBits (bits.findEach count).1).Nodup ∧
      (∀ bit ∈ bitsOf numBits (bits.findEach count).1, bits.testBit bit = false) ∧
      ∀ bit, (bits.findEach count).2.testBit bit =
        (decide (bit ∈ bitsOf numBits (bits.findEach count).1) || bits.testBit bit) := by
  induction count generalizing bits with
  | zero => simp [findEach, bitsOf]
  | succ count ih =>
      cases isFirst : bits.firstClear with
      | none =>
          rw [findEach_succ_of_full isFirst, bitsOf_neg_one_cons]
          exact ih bits
      | some first =>
          obtain ⟨distinct, wereClear, marked⟩ := ih (bits.markBit first)
          have clear := testBit_firstClear isFirst
          rw [findEach_succ_of_firstClear isFirst, bitsOf_val_cons]
          refine ⟨List.nodup_cons.mpr ⟨fun member => ?_, distinct⟩, ?_, fun bit => ?_⟩
          · have stillClear := wereClear first member
            simp at stillClear
          · intro bit member
            rcases List.mem_cons.mp member with rfl | later
            · exact clear
            · have both := wereClear bit later
              rw [testBit_markBit, Bool.or_eq_false_iff] at both
              exact both.2
          · rw [marked, testBit_markBit]
            by_cases same : bit = first <;> simp [same]

theorem map_val_bitsOf_findEach {bits : BitMap numBits} (count : Nat)
    (enough : count ≤ bits.numClear) :
    (bitsOf numBits (bits.findEach count).1).map (fun index => (index.val : Int)) =
      (bits.findEach count).1 := by
  induction count generalizing bits with
  | zero => rfl
  | succ count ih =>
      obtain ⟨first, isFirst⟩ :=
        firstClear_isSome_of_pos (show 0 < bits.numClear by omega)
      have left := numClear_markBit (testBit_firstClear isFirst)
      rw [findEach_succ_of_firstClear isFirst, bitsOf_val_cons, List.map_cons,
        ih (show count ≤ (bits.markBit first).numClear by omega)]

/-- When there are enough clear bits, the bits found were clear, are distinct,
and are marked afterwards. -/
theorem findEach_eq {bits : BitMap numBits} (count : Nat)
    (enough : count ≤ bits.numClear) :
    ∃ (found : List (Fin numBits)) (after : BitMap numBits),
      bits.findEach count = (found.map (fun index => (index.val : Int)), after) ∧
        found.length = count ∧ found.Nodup ∧
        (∀ index ∈ found, bits.testBit index = false) ∧
        ∀ index, after.testBit index =
          (decide (index ∈ found) || bits.testBit index) := by
  have all := map_val_bitsOf_findEach count enough
  have length := congrArg List.length all
  rw [List.length_map, length_findEach] at length
  exact ⟨_, (bits.findEach count).2, Prod.ext all.symm rfl, length, bitsOf_findEach bits count⟩

/-- When there are too few clear bits, one of the calls finds none. -/
theorem neg_one_mem_findEach {bits : BitMap numBits} (count : Nat)
    (few : bits.numClear < count) : -1 ∈ (bits.findEach count).1 := by
  induction count generalizing bits with
  | zero => omega
  | succ count ih =>
      cases first : bits.firstClear with
      | none =>
          rw [findEach_succ_of_full first]
          exact List.mem_cons_self ..
      | some found =>
          have left := numClear_markBit (testBit_firstClear first)
          have later := ih (show (bits.markBit found).numClear < count by omega)
          rw [findEach_succ_of_firstClear first]
          exact List.mem_cons_of_mem _ later

/-- `Find` fails in `count` calls only when there are fewer clear bits. -/
theorem neg_one_notMem_findEach_iff {bits : BitMap numBits} {count : Nat} :
    -1 ∉ (bits.findEach count).1 ↔ count ≤ bits.numClear := by
  constructor
  · intro absent
    exact Nat.not_lt.mp fun few => absent (neg_one_mem_findEach count few)
  · intro enough member
    obtain ⟨found, after, all, -⟩ := findEach_eq count enough
    rw [all] at member
    obtain ⟨index, -, negative⟩ := List.mem_map.mp member
    omega

/-- `Find` finds the bits one after the other when those below are marked. -/
theorem firstClear_of_below {bits : BitMap numBits} {count : Nat} (inside : count < numBits)
    (below : ∀ bit, bits.testBit bit = decide (bit.val < count)) :
    bits.firstClear = some ⟨count, inside⟩ := by
  unfold firstClear
  rw [List.find?_eq_some_iff_getElem]
  refine ⟨by simp [below], count, by simpa using inside, by simp, ?_⟩
  intro index small
  simp [below, small]

theorem findEach_of_below {bits : BitMap numBits} {count : Nat} (more : Nat)
    (inside : count + more ≤ numBits)
    (below : ∀ bit, bits.testBit bit = decide (bit.val < count)) :
    (bits.findEach more).1 = (List.range more).map (fun index => ((count + index : Nat) : Int)) ∧
      ∀ bit, (bits.findEach more).2.testBit bit = decide (bit.val < count + more) := by
  induction more generalizing bits count with
  | zero => exact ⟨rfl, below⟩
  | succ more ih =>
      have first := firstClear_of_below (by omega) below
      have next : ∀ bit, (bits.markBit ⟨count, by omega⟩).testBit bit =
          decide (bit.val < count + 1) := by
        intro bit
        rw [testBit_markBit, below, Bool.eq_iff_iff]
        simp only [Fin.ext_iff, Bool.or_eq_true, decide_eq_true_eq]
        omega
      obtain ⟨found, marked⟩ := ih (by omega) next
      rw [findEach_succ_of_firstClear first]
      constructor
      · rw [found, List.range_succ_eq_map, List.map_cons, List.map_map]
        apply congrArg (List.cons _)
        apply List.map_congr_left
        intro index _
        simp only [Function.comp_apply]
        omega
      · intro bit
        rw [marked, Nat.add_assoc, Nat.add_comm 1]

end Find

end BitMap

end Nachos
