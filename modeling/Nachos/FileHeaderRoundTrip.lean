import Nachos.FileHeaderAllocate

/-!
# File headers written to disk and read back

One sector holds the length of the file and the direct pointers, but not
`L1Index` and `L2Index`.  A header that is read back therefore has the indirect
pointers of the object it was read into, and describes the file that was
allocated exactly when the direct pointers suffice.
-/

namespace Nachos

open LittleEndianWords TransitionRuns

namespace FileHeader

theorem getElem?_words_direct (header : FileHeader) {index : Nat}
    (inside : index < numDirect) :
    header.words[2 + index]? = some header.dataSectors[index] := by
  have inFront : 2 + index <
      ([header.numBytes, header.numSectors] ++ header.dataSectors.toList).length := by
    simp only [List.length_append, List.length_cons, List.length_nil,
      Vector.length_toList]
    omega
  rw [words, List.getElem?_append_left inFront, List.getElem?_append_right (by simp)]
  simp [inside]

theorem getElem?_words_tail (header : FileHeader) (index : Nat) :
    header.words[2 + numDirect + index]? =
      [header.createTime, header.lastmodifytime, header.lastusetime,
        header.l1Index, header.l2Index][index]? := by
  have front :
      ([header.numBytes, header.numSectors] ++ header.dataSectors.toList).length =
        2 + numDirect := by
    simp only [List.length_append, List.length_cons, List.length_nil,
      Vector.length_toList]
  rw [words, List.getElem?_append_right (by omega), front,
    Nat.add_sub_cancel_left]

@[simp]
theorem ofBytes_toBytes (header : FileHeader) : ofBytes header.toBytes = header := by
  have read : ∀ {index : Nat} {word : Word}, header.words[index]? = some word →
      wordAt header.toBytes (4 * index) = word := by
    intro index word present
    simpa [toBytes] using wordAt_encodeWords present []
  have data : (Vector.ofFn fun index : Fin numDirect =>
      wordAt header.toBytes (4 * (2 + index.val))) = header.dataSectors := by
    apply Vector.ext
    intro index inside
    simpa using read (header.getElem?_words_direct inside)
  have tail := header.getElem?_words_tail
  cases header with
  | mk numBytes numSectors dataSectors createTime lastmodifytime lastusetime
      l1Index l2Index =>
      simp only [ofBytes, FileHeader.mk.injEq]
      exact ⟨@read 0 _ rfl, @read 1 _ rfl, data, read (tail 0),
        read (tail 1), read (tail 2), read (tail 3), read (tail 4)⟩

/-- What an object holds after `FetchFrom` of the sector another was written
to. -/
def overlay (fresh header : FileHeader) : FileHeader :=
  { fresh with
    numBytes := header.numBytes
    numSectors := header.numSectors
    dataSectors := header.dataSectors }

theorem take_words (header : FileHeader) :
    header.words.take (2 + numDirect) =
      [header.numBytes, header.numSectors] ++ header.dataSectors.toList := by
  rw [words, List.take_append_of_le_length (by simp; omega), List.take_of_length_le]
  simp; omega

theorem toBytes_overlay (fresh header : FileHeader) :
    (overlay fresh header).toBytes =
      header.toBytes.take Disk.sectorSize ++ fresh.toBytes.drop Disk.sectorSize := by
  have size : Disk.sectorSize = 4 * (2 + numDirect) := rfl
  have rest : fresh.words.drop (2 + numDirect) =
      [fresh.createTime, fresh.lastmodifytime, fresh.lastusetime,
        fresh.l1Index, fresh.l2Index] := by
    rw [words, List.drop_append_of_le_length (by simp; omega),
      List.drop_eq_nil_of_le (by simp; omega), List.nil_append]
  rw [toBytes, toBytes, toBytes, size, take_encodeWords, drop_encodeWords,
    take_words, rest, ← encodeWords_append]
  rfl

/-- `WriteBack` to a sector of the disk followed by `FetchFrom`. -/
theorem fetchFrom_writeBack (fresh header : FileHeader) (disk : Disk) {sector : Nat}
    (onDisk : sector < Disk.numSectors) :
    ∃ after, header.writeBack disk sector = .ok after ∧
      fresh.fetchFrom after sector = .ok (overlay fresh header) := by
  have enough := header.sectorSize_le_length_toBytes
  refine ⟨_, Disk.writeSector_of_lt disk onDisk enough, ?_⟩
  rw [fetchFrom, Disk.readSector_of_lt _ onDisk, Function.update_self]
  rw [Sector.bytes_ofBytes, Except.map, ← toBytes_overlay, ofBytes_toBytes]

/-- Two headers describe the same file, each on its own state of the disk. -/
structure SameFile (loaded : FileHeader) (after : Disk) (header : FileHeader)
    (disk : Disk) : Prop where
  fileLength : loaded.fileLength = header.fileLength
  byteToSector : ∀ offset : Int, 0 ≤ offset →
    offset < header.numSectors.toInt * Disk.sectorSize →
      loaded.byteToSector after offset = header.byteToSector disk offset

/-- Whatever the memory of the object it is read into held before, the header
is the same after a trip to the given sector. -/
def SurvivesDisk (header : FileHeader) (disk : Disk) (sector : Nat) : Prop :=
  ∀ fresh : FileHeader, ∃ after loaded,
    header.writeBack disk sector = .ok after ∧
      fresh.fetchFrom after sector = .ok loaded ∧
        SameFile loaded after header disk

theorem survivesDisk_of_direct {header : FileHeader} {disk : Disk} {sector : Nat}
    (direct : header.numSectors.toInt ≤ numDirect)
    (onDisk : sector < Disk.numSectors) : header.SurvivesDisk disk sector := by
  intro fresh
  obtain ⟨after, written, fetched⟩ := fetchFrom_writeBack fresh header disk onDisk
  refine ⟨after, _, written, fetched, rfl, ?_⟩
  intro offset lower upper
  obtain ⟨offset, rfl⟩ := Int.eq_ofNat_of_zero_le lower
  have inside : offset / Disk.sectorSize < numDirect := by
    simp only [Disk.sectorSize] at upper ⊢
    omega
  rw [byteToSector_direct _ _ inside, byteToSector_direct _ _ inside]
  rfl

/-- A header with an indirect pointer does not survive: the block after the
direct ones is found in the allocated header and not in the loaded one. -/
theorem not_survivesDisk_of_indirect {header : FileHeader} {disk : Disk}
    {sector table : Nat} (indirect : (numDirect : Int) < header.numSectors.toInt)
    (l1Index : header.l1Index.toInt = table) (inTable : table < Disk.numSectors)
    (onDisk : sector < Disk.numSectors) : ¬ header.SurvivesDisk disk sector := by
  intro survives
  let fresh : FileHeader := { header with l1Index := -1 }
  obtain ⟨after, loaded, written, fetched, -, sectors⟩ := survives fresh
  obtain ⟨_, writtenAgain, overlaid⟩ := fetchFrom_writeBack fresh header disk onDisk
  obtain rfl := Except.ok.inj (written.symm.trans writtenAgain)
  obtain rfl := Except.ok.inj (overlaid.symm.trans fetched)
  have block : numDirect * Disk.sectorSize / Disk.sectorSize = numDirect := by decide
  have same := sectors (numDirect * Disk.sectorSize : Nat) (Int.natCast_nonneg _) (by
    simp only [Disk.sectorSize]
    omega)
  rw [byteToSector_l1 _ _ (Nat.le_of_eq block.symm) (by rw [block]; decide),
    byteToSector_l1 _ _ (Nat.le_of_eq block.symm) (by rw [block]; decide)] at same
  have lost : after.readTable (overlay fresh header).l1Index = .error .assertion := by
    rfl
  have kept : disk.readTable header.l1Index =
      .ok (IndexTable.ofBytes (disk table).bytes) := by
    rw [Disk.readTable, l1Index, Disk.readSector_of_lt _ inTable]
    rfl
  rw [lost, kept] at same
  cases same

/-- A successful `Allocate` puts the number of sectors in the header without
overflow. -/
theorem toInt_numSectors {fileSize : CInt} :
    (BitVec.ofInt 32 (CInt.divRoundUp fileSize.toInt Disk.sectorSize)).toInt =
      CInt.divRoundUp fileSize.toInt Disk.sectorSize := by
  obtain ⟨lower, upper⟩ := CInt.fits_toInt fileSize
  apply CInt.toInt_ofInt_of_fits
  simp only [CInt.Fits, Disk.sectorSize]
  rcases CInt.divRoundUp_cases fileSize.toInt (show 0 < 128 by decide) with
    ⟨sign, value⟩ | ⟨sign, value⟩ <;> omega

/-- The file needs indirect pointers exactly when it is larger than the direct
ones reach. -/
theorem numSectors_le_numDirect_iff (fileSize : CInt) :
    CInt.divRoundUp fileSize.toInt Disk.sectorSize ≤ numDirect ↔
      fileSize.toInt ≤ (numDirect * Disk.sectorSize : Nat) := by
  simp only [numDirect, Disk.sectorSize]
  rcases CInt.divRoundUp_cases fileSize.toInt (show 0 < 128 by decide) with
    ⟨sign, value⟩ | ⟨sign, value⟩ <;> omega

section Allocated

variable {header allocated : FileHeader} {freeMap freeMap' : BitMap Disk.numSectors}
  {fileSize : CInt} {disk disk' : Disk} {sector : Nat}

theorem large_not_survivesDisk
    (allocates : header.allocate freeMap fileSize disk =
      .ok (true, allocated, freeMap', disk'))
    (onDisk : sector < Disk.numSectors)
    (large : (numDirect * Disk.sectorSize : Nat) < fileSize.toInt) :
    ¬ allocated.SurvivesDisk disk' sector := by
  obtain ⟨-, numSectors, count, -, l1Index⟩ := allocate_eq_true allocates
  have indirect : (numDirect : Int) < allocated.numSectors.toInt := by
    rw [numSectors, toInt_numSectors]
    have limit := numSectors_le_numDirect_iff fileSize
    omega
  have positive : allocated.numSectors.toInt = allocated.numSectors.toNat := by
    apply BitVec.toInt_eq_toNat_of_lt
    by_contra wraps
    have negative := BitVec.toInt_neg_iff.mpr (Nat.not_lt.mp wraps)
    omega
  obtain ⟨table, inTable, address⟩ := l1Index (by omega)
  exact not_survivesDisk_of_indirect indirect address inTable onDisk

/-- An allocated header survives the trip to disk exactly when the direct
pointers reach the whole file. -/
theorem allocated_survivesDisk_iff
    (allocates : header.allocate freeMap fileSize disk =
      .ok (true, allocated, freeMap', disk'))
    (onDisk : sector < Disk.numSectors) :
    allocated.SurvivesDisk disk' sector ↔
      fileSize.toInt ≤ (numDirect * Disk.sectorSize : Nat) := by
  constructor
  · intro survives
    by_contra large
    exact large_not_survivesDisk allocates onDisk (Int.not_le.mp large) survives
  · intro small
    obtain ⟨-, numSectors, -⟩ := allocate_eq_true allocates
    apply survivesDisk_of_direct _ onDisk
    rw [numSectors, toInt_numSectors]
    exact (numSectors_le_numDirect_iff fileSize).mpr small

end Allocated

section Examples

/-- The free map in which only sector 0, for the header, has been taken. -/
def headerTaken : BitMap Disk.numSectors :=
  BitMap.markBit ⟨Vector.replicate _ 0⟩ ⟨0, by decide⟩

def succeeds (result : Except Fault (Bool × FileHeader × BitMap Disk.numSectors × Disk)) :
    Bool :=
  match result with
  | .ok (true, _) => true
  | _ => false

theorem exists_of_succeeds
    {result : Except Fault (Bool × FileHeader × BitMap Disk.numSectors × Disk)}
    (success : succeeds result = true) :
    ∃ allocated freeMap disk, result = .ok (true, allocated, freeMap, disk) := by
  match result with
  | .ok (true, allocated, freeMap, disk) => exact ⟨allocated, freeMap, disk, rfl⟩
  | .ok (false, _) => cases success
  | .error _ => cases success

theorem small_file_survives :
    ∃ allocated freeMap disk,
      blank.allocate headerTaken 3840 Disk.blank = .ok (true, allocated, freeMap, disk) ∧
        (allocated.SurvivesDisk disk 0 ↔
          (3840#32).toInt ≤ (numDirect * Disk.sectorSize : Nat)) := by
  obtain ⟨allocated, freeMap, disk, allocates⟩ :=
    exists_of_succeeds (show succeeds (blank.allocate headerTaken 3840 Disk.blank) = true by
      decide +kernel)
  exact ⟨allocated, freeMap, disk, allocates,
    allocated_survivesDisk_iff allocates (by decide)⟩

/-- With one more byte the header written to sector 0, which the file does not
use, is not the one that is read back. -/
theorem large_file_lost :
    ∃ allocated freeMap disk,
      headerTaken.test 0 = .ok true ∧
        blank.allocate headerTaken 3841 Disk.blank = .ok (true, allocated, freeMap, disk) ∧
          ¬ allocated.SurvivesDisk disk 0 := by
  obtain ⟨allocated, freeMap, disk, allocates⟩ :=
    exists_of_succeeds (show succeeds (blank.allocate headerTaken 3841 Disk.blank) = true by
      decide +kernel)
  refine ⟨allocated, freeMap, disk, by decide, allocates, ?_⟩
  exact large_not_survivesDisk allocates (by decide) (by decide)

end Examples

end FileHeader

end Nachos
