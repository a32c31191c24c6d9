import Mathlib.Data.Finset.Max
import Nachos.FileSystem
import Nachos.OpenFileContents
import Nachos.TransitionRuns

/-!
# Bitmaps as finite sets

The words of a bitmap represent the set of the items that are marked, whatever the bits
are that belong to no item.  The operations on the words are those on the set, and the set
survives a round trip through a file.
-/

namespace Nachos

open TransitionRuns

/-- What is asked of a bitmap. -/
inductive BitMapCommand where
  | mark (which : Int)
  | clear (which : Int)
  | test (which : Int)
  | find
  | numClear

/-- The item of a command is one of the bitmap. -/
def BitMapCommand.InRange (numBits : Nat) : BitMapCommand → Prop
  | .mark which | .clear which | .test which => 0 ≤ which ∧ which < numBits
  | .find | .numClear => True

/-- What it answers. -/
inductive BitMapReply where
  | done
  | isMarked (marked : Bool)
  | number (value : Int)
  deriving DecidableEq

/-- The set of items that a bitmap is meant to be. -/
abbrev ItemSet (numBits : Nat) := Finset (Fin numBits)

namespace ItemSet

variable {numBits : Nat}

/-- The least item that is not in the set. -/
def leastClear (items : ItemSet numBits) : Option (Fin numBits) :=
  if free : itemsᶜ.Nonempty then some (itemsᶜ.min' free) else none

/-- The operations on the set.  Items that do not exist are rejected. -/
def perform (items : ItemSet numBits) :
    BitMapCommand → Except Fault (BitMapReply × ItemSet numBits)
  | .mark which => (BitMap.index numBits which).map fun item => (.done, insert item items)
  | .clear which => (BitMap.index numBits which).map fun item => (.done, items.erase item)
  | .test which =>
      (BitMap.index numBits which).map fun item => (.isMarked (decide (item ∈ items)), items)
  | .find =>
      match items.leastClear with
      | some item => .ok (.number item.val, insert item items)
      | none => .ok (.number (-1), items)
  | .numClear => .ok (.number (numBits - items.card), items)

theorem perform_of_inRange (items : ItemSet numBits) {command : BitMapCommand}
    (inRange : command.InRange numBits) : ∃ result, items.perform command = .ok result := by
  have checked {which : Int} (inside : 0 ≤ which ∧ which < numBits) :
      ∃ item, BitMap.index numBits which = .ok item := ⟨_, dif_pos inside⟩
  cases command with
  | mark which | clear which | test which =>
      obtain ⟨item, valid⟩ := checked inRange
      exact ⟨_, by rw [perform, valid]; rfl⟩
  | find =>
      unfold perform
      dsimp only
      split <;> exact ⟨_, rfl⟩
  | numClear => exact ⟨_, rfl⟩

theorem run_of_inRange {commands : List BitMapCommand}
    (inRange : ∀ command ∈ commands, command.InRange numBits)
    (state : List BitMapReply × ItemSet numBits) :
    ∃ result, run (answering perform) state commands = .ok result := by
  induction commands generalizing state with
  | nil => exact ⟨state, rfl⟩
  | cons command commands ih =>
      obtain ⟨here, later⟩ := List.forall_mem_cons.mp inRange
      obtain ⟨result, answered⟩ := perform_of_inRange state.2 here
      have stepped : answering perform state command = .ok (state.1 ++ [result.1], result.2) :=
        map_eq_ok_iff.mpr ⟨result, answered, rfl⟩
      rw [run_cons_of_ok stepped]
      exact ih later _

end ItemSet

namespace BitMap

variable {numBits : Nat}

def perform (bits : BitMap numBits) :
    BitMapCommand → Except Fault (BitMapReply × BitMap numBits)
  | .mark which => (bits.mark which).map fun bits => (.done, bits)
  | .clear which => (bits.clear which).map fun bits => (.done, bits)
  | .test which => (bits.test which).map fun marked => (.isMarked marked, bits)
  | .find => .ok (.number bits.find.1, bits.find.2)
  | .numClear => .ok (.number bits.numClear, bits)

/-- The words hold a bit for each item, which is set when the item is in the set. -/
def Represents (bits : BitMap numBits) (items : ItemSet numBits) : Prop :=
  ∀ item, (bits.wordOf item).getLsbD (item.val % 32) = true ↔ item ∈ items

variable {bits : BitMap numBits} {items : ItemSet numBits}

theorem represents_iff_testBit :
    bits.Represents items ↔ ∀ item, bits.testBit item = decide (item ∈ items) := by
  apply forall_congr'
  intro item
  rw [testBit_eq_getLsbD]
  constructor
  · intro same
    rw [Bool.eq_iff_iff, decide_eq_true_eq]
    exact same
  · intro same
    rw [same, decide_eq_true_eq]

theorem Represents.testBit (represents : bits.Represents items) (item : Fin numBits) :
    bits.testBit item = decide (item ∈ items) :=
  represents_iff_testBit.mp represents item

theorem represents_new (memory : Vector Word (wordCount numBits)) :
    (new memory).Represents ∅ := by
  rw [represents_iff_testBit]
  intro item
  rw [testBit_new]
  rfl

theorem Represents.markBit (represents : bits.Represents items) (item : Fin numBits) :
    (bits.markBit item).Represents (insert item items) := by
  rw [represents_iff_testBit]
  intro other
  rw [testBit_markBit, represents.testBit, ← Bool.decide_or]
  exact decide_eq_decide.mpr Finset.mem_insert.symm

theorem Represents.clearBit (represents : bits.Represents items) (item : Fin numBits) :
    (bits.clearBit item).Represents (items.erase item) := by
  rw [represents_iff_testBit]
  intro other
  rw [testBit_clearBit, represents.testBit, ← Bool.decide_and]
  exact decide_eq_decide.mpr Finset.mem_erase.symm

/-- `Find` looks for the least item that is not in the set. -/
theorem Represents.firstClear_eq (represents : bits.Represents items) :
    bits.firstClear = items.leastClear := by
  have clear (item : Fin numBits) : bits.testBit item = false ↔ item ∈ itemsᶜ := by
    rw [represents.testBit, decide_eq_false_iff_not, Finset.mem_compl]
  unfold ItemSet.leastClear
  split
  next free =>
    have least := itemsᶜ.isLeast_min' free
    unfold firstClear
    rw [List.find?_eq_some_iff_getElem]
    refine ⟨by simpa using (clear _).mpr least.1, (itemsᶜ.min' free).val, by simp, by simp, ?_⟩
    intro index before
    by_contra unmarked
    have later := least.2 ((clear _).mp (by simpa using unmarked))
    exact absurd later (Nat.not_le.mpr (by simpa using before))
  next full =>
    rw [firstClear_eq_none_iff]
    intro item
    by_contra unmarked
    exact full ⟨item, (clear item).mp (by simpa using unmarked)⟩

theorem Represents.numClear_eq (represents : bits.Represents items) :
    (bits.numClear : Int) = numBits - items.card := by
  have clear : bits.clearSet = itemsᶜ := by
    ext item
    rw [mem_clearSet, represents.testBit, decide_eq_false_iff_not, Finset.mem_compl]
  have bound := items.card_le_univ
  rw [Fintype.card_fin] at bound
  rw [numClear_eq_card, clear, Finset.card_compl, Fintype.card_fin]
  omega

/-- Every operation on the words is the operation on the set. -/
theorem perform_refines (represents : bits.Represents items) (command : BitMapCommand) :
    SameOutcome (SameAnswers Represents) (bits.perform command) (items.perform command) := by
  cases command with
  | mark which =>
      unfold perform ItemSet.perform mark
      dsimp only
      cases index numBits which with
      | ok item => exact .ok ⟨rfl, represents.markBit item⟩
      | error fault => exact .error fault
  | clear which =>
      unfold perform ItemSet.perform clear
      dsimp only
      cases index numBits which with
      | ok item => exact .ok ⟨rfl, represents.clearBit item⟩
      | error fault => exact .error fault
  | test which =>
      unfold perform ItemSet.perform test
      dsimp only
      cases index numBits which with
      | ok item => exact .ok ⟨congrArg _ (represents.testBit item), represents⟩
      | error fault => exact .error fault
  | find =>
      unfold perform ItemSet.perform
      dsimp only
      rw [← represents.firstClear_eq]
      cases first : bits.firstClear with
      | some item =>
          rw [find_of_firstClear first]
          exact .ok ⟨rfl, represents.markBit item⟩
      | none =>
          rw [find_of_full first]
          exact .ok ⟨rfl, represents⟩
  | numClear => exact .ok ⟨congrArg _ represents.numClear_eq, represents⟩

/-- A bitmap that is written to a file with room for its words is fetched from it
unchanged. -/
theorem fetchFrom_writeBack (bits other : BitMap numBits) {file : OpenFile} {disk : Disk}
    {sectors : List SectorNumber} (maps : file.hdr.Maps disk sectors)
    (room : byteCount numBits ≤ file.hdr.fileLength.toInt) (memory : Memory) :
    ∃ after, bits.writeBack file memory disk = .ok after ∧
      disk.AgreeOutside sectors after ∧ other.fetchFrom file after = .ok bits := by
  rw [← length_toBytes bits] at room
  obtain ⟨count, after, written, agree, read⟩ := OpenFile.writeAt_readAt maps memory room
  rw [length_toBytes] at written read
  have rest : other.toBytes.drop bits.toBytes.length = [] := by
    apply List.drop_eq_nil_of_le
    rw [length_toBytes, length_toBytes]
  refine ⟨after, ?_, agree, ?_⟩
  · rw [writeBack, written]
    rfl
  · rw [fetchFrom, read, Except.map, rest, List.append_nil, ofBytes_toBytes]

/-- A bitmap is a finite set of items, over every sequence of operations: the operations on
the words and those on the set give the same answers or fail alike, and on items that exist
none fails.  The set survives a round trip through a file with room for the words. -/
theorem refines_finset (memory : Vector Word (wordCount numBits))
    (commands : List BitMapCommand) :
    SameOutcome (SameAnswers Represents)
        (run (answering perform) ([], new memory) commands)
        (run (answering ItemSet.perform) ([], (∅ : ItemSet numBits)) commands) ∧
      ((∀ command ∈ commands, command.InRange numBits) →
        ∃ (replies : List BitMapReply) (bits : BitMap numBits) (items : ItemSet numBits),
          run (answering perform) ([], new memory) commands = .ok (replies, bits) ∧
          run (answering ItemSet.perform) ([], ∅) commands = .ok (replies, items) ∧
          bits.Represents items ∧
          ∀ (file : OpenFile) (disk : Disk) (sectors : List SectorNumber),
            file.hdr.Maps disk sectors → byteCount numBits ≤ file.hdr.fileLength.toInt →
            ∀ (buffer : Memory) (other : BitMap numBits), ∃ after fetched,
              bits.writeBack file buffer disk = .ok after ∧
                other.fetchFrom file after = .ok fetched ∧ fetched.Represents items) := by
  have alike : SameOutcome (SameAnswers Represents)
      (run (answering perform) ([], new memory) commands)
      (run (answering ItemSet.perform) ([], (∅ : ItemSet numBits)) commands) :=
    sameAnswers_run (fun _ _ command represents (_ : True) => perform_refines represents command)
      (represents_new memory) (runRequested_true _ commands)
  refine ⟨alike, fun inRange => ?_⟩
  obtain ⟨⟨replies, items⟩, reached⟩ := ItemSet.run_of_inRange inRange ([], ∅)
  generalize ran : run (answering perform) ([], new memory) commands = result at alike
  rw [reached] at alike
  cases alike with
  | @ok state _ same =>
      obtain ⟨answers, bits⟩ := state
      obtain rfl : answers = replies := same.answers
      refine ⟨answers, bits, items, rfl, reached, same.relates, ?_⟩
      intro file disk sectors maps room buffer other
      obtain ⟨after, written, -, fetched⟩ := fetchFrom_writeBack bits other maps room buffer
      exact ⟨after, bits, written, fetched, same.relates⟩

/-- The sign bit of a word, in memory that was not cleared before. -/
example :
    let memory : Vector Word (wordCount 40) := Vector.replicate _ 0xffffffff
    (run (answering perform) ([], new memory) [.mark 31, .find, .test 31, .clear 31, .test 31,
        .numClear]).map Prod.fst =
      .ok [.done, .number 0, .isMarked true, .done, .isMarked false, .number 39] := by
  rfl

end BitMap

end Nachos
