import Mathlib.Algebra.BigOperators.Group.Finset.Basic
import Nachos.FileAllocation

/-!
# Transfers through an open file

For a file whose header came from `Allocate`, `WriteAt` overwrites a range of
the contents and `ReadAt` reads one.  `Write` and `Read` do so at a position
that they advance, so that a sequence of writes followed by a sequence of reads
gives back what was written.  The sum of position and size can leave the range
of an `int`, and the theorems say exactly when this matters.
-/

namespace Nachos

open LittleEndianWords ListSplice TransitionRuns

section Allocated

/-- The sectors of pointers are as they were, whatever became of the others. -/
def FileHeader.IndexKept (header : FileHeader) (before after : Disk) : Prop :=
  ∀ index, header.indexSectors before = .ok index →
    ∀ sector : SectorNumber, pointer sector ∈ index →
      after sector.val = before sector.val

namespace FileHeader

variable {header allocated : FileHeader} {freeMap freeMap' : BitMap Disk.numSectors}
  {fileSize : CInt} {disk disk' later : Disk}

theorem fileLength_le_blocks {blocks : FileBlocks}
    (allocation : Allocation freeMap freeMap' fileSize allocated disk disk' blocks) :
    allocated.fileLength.toInt ≤ blocks.data.length * Disk.sectorSize := by
  rw [fileLength, allocation.numBytes]
  by_cases negative : fileSize.toInt < 0
  · have room := Int.natCast_nonneg (blocks.data.length * Disk.sectorSize)
    push_cast at room
    omega
  · have value : fileSize.toInt = (fileSize.toInt.toNat : Nat) := by omega
    have small := fileSize.toInt_lt
    have words := allocation.stored.numSectors.symm.trans allocation.numSectors
    have bound := FileBlocks.length_data_le allocation.distinct
    have size : Disk.numSectors = 1024 := by decide
    rw [numSectors_of_size value] at words
    have counts := congrArg BitVec.toNat words
    simp only [BitVec.toNat_ofNat, Disk.sectorSize] at counts ⊢
    omega

/-- The header of an allocated file maps the file to its data sectors for as
long as the index is kept. -/
theorem exists_maps
    (done : header.allocate freeMap fileSize disk =
      .ok (true, allocated, freeMap', disk'))
    (kept : allocated.IndexKept disk' later) :
    ∃ sectors : List SectorNumber, allocated.Maps later sectors ∧
      allocated.numSectors.toInt = sectors.length ∧
        ∀ sector ∈ sectors, freeMap.testBit sector = false := by
  obtain ⟨blocks, allocation⟩ := allocate_eq_ok_true done
  have stored : blocks.Stored allocated later := by
    apply allocation.stored.congr
    intro sector member
    exact kept _ (allocation.stored.indexSectors allocation.distinct) sector
      (List.mem_map_of_mem member)
  have bound := FileBlocks.length_data_le allocation.distinct
  have size : Disk.numSectors = 1024 := by decide
  refine ⟨blocks.data, ?_, ?_, ?_⟩
  · exact stored.maps allocation.distinct (fileLength_le_blocks allocation)
  · rw [stored.numSectors, CInt.toInt_ofNat_of_lt (by omega)]
  · intro sector member
    exact allocation.wereClear sector (blocks.mem_sectors.mpr (Or.inl member))

end FileHeader

end Allocated

namespace OpenFile

open FileHeader

variable {file : OpenFile} {header : FileHeader}
  {freeMap freeMap' : BitMap Disk.numSectors} {fileSize : CInt} {before allocated : Disk}

/-- The requests that transfer nothing, and those for a range of the file whose
end is an `int`. -/
def InRange (file : OpenFile) (numBytes position : CInt) : Prop :=
  numBytes.toInt ≤ 0 ∨ file.hdr.fileLength.toInt ≤ position.toInt ∨
    0 ≤ position.toInt ∧ position.toInt + numBytes.toInt < 2 ^ 31

/-- The range of a request in range that passes the check. -/
theorem InRange.of_accepted {numBytes position amount : CInt}
    (inRange : file.InRange numBytes position)
    (accepted : file.checkRequest numBytes position = some amount) :
    ∃ place : Nat, position = BitVec.ofNat 32 place ∧
      (BitVec.ofNat 32 place).toInt = place ∧ place + numBytes.toInt < 2 ^ 31 := by
  obtain ⟨positive, before, -⟩ := checkRequest_eq_some accepted
  obtain ⟨nonnegative, fits⟩ :=
    (inRange.resolve_left (by omega)).resolve_left (by omega)
  obtain ⟨place, value⟩ := Int.eq_ofNat_of_zero_le nonnegative
  obtain rfl := CInt.eq_ofNat_of_toInt value
  rw [value] at fits
  exact ⟨place, rfl, value, fits⟩

/-- `ReadAt` gives back the part of a range that lies in the file. -/
theorem readAt_of_inRange {disk : Disk} {sectors : List SectorNumber}
    {numBytes position : CInt} (maps : file.hdr.Maps disk sectors)
    (inRange : file.InRange numBytes position) :
    file.readAt disk numBytes position =
      .ok (((file.hdr.contents disk sectors).drop position.toInt.toNat).take
        numBytes.toInt.toNat) := by
  cases check : file.checkRequest numBytes position with
  | none =>
      have outside := checkRequest_eq_none check
      have empty : ((file.hdr.contents disk sectors).drop position.toInt.toNat).take
          numBytes.toInt.toNat = [] := by
        apply List.eq_nil_of_length_eq_zero
        rw [List.length_take, List.length_drop, length_contents maps]
        omega
      rw [readAt, check, empty]
  | some amount =>
      obtain ⟨place, rfl, value, fits⟩ := inRange.of_accepted check
      rw [value]
      exact readAt_eq maps place fits

/-- `WriteAt` and `ReadAt` on a file that was allocated, for ranges that do not
leave the range of an `int`. -/
theorem writeAt_then_readAt
    (done : header.allocate freeMap fileSize before =
      .ok (true, file.hdr, freeMap', allocated))
    {disk : Disk} (kept : file.hdr.IndexKept allocated disk) :
    ∃ sectors : List SectorNumber, file.hdr.Maps disk sectors ∧
      file.hdr.numSectors.toInt = sectors.length ∧
      ∀ (memory : Memory) (data : List Byte) (numBytes position : CInt),
        0 ≤ position.toInt → position.toInt + numBytes.toInt < 2 ^ 31 →
        min numBytes.toInt (file.hdr.fileLength.toInt - position.toInt) ≤ data.length →
        ∃ (k : Nat) (after : Disk),
          file.writeAt memory disk data numBytes position = .ok (BitVec.ofNat 32 k, after) ∧
          (k : Int) = max 0
            (min numBytes.toInt (file.hdr.fileLength.toInt - position.toInt)) ∧
          disk.AgreeOutside sectors after ∧
          file.hdr.contents after sectors =
            splice (file.hdr.contents disk sectors) position.toInt.toNat (data.take k) ∧
          ∀ numBytes position : CInt, file.InRange numBytes position →
            file.readAt after numBytes position =
              .ok (((file.hdr.contents after sectors).drop position.toInt.toNat).take
                numBytes.toInt.toNat) := by
  obtain ⟨sectors, maps, count, -⟩ := exists_maps done kept
  refine ⟨sectors, maps, count, ?_⟩
  intro memory data numBytes position nonnegative fits supplied
  obtain ⟨place, value⟩ := Int.eq_ofNat_of_zero_le nonnegative
  obtain rfl := CInt.eq_ofNat_of_toInt value
  rw [value] at fits supplied ⊢
  obtain ⟨k, after, written, clipped, agree, contents⟩ := writeAt_eq maps memory place fits supplied
  refine ⟨k, after, written, clipped, agree, contents, ?_⟩
  intro numBytes position inRange
  exact readAt_of_inRange (maps.of_agreeOutside agree) inRange

/-- Three bytes over the boundary between the last two blocks that are reached
without `L2Index` and the first one that is not. -/
theorem writeAt_then_readAt_l2 :
    ∃ (file : OpenFile) (freeMap' : BitMap Disk.numSectors) (allocated : Disk),
      blank.allocate emptyMap 8200 Disk.blank =
          .ok (true, file.hdr, freeMap', allocated) ∧
        file.hdr.IndexKept allocated allocated ∧
        ∃ (sectors : List SectorNumber) (after : Disk),
          file.hdr.Maps allocated sectors ∧
          file.writeAt (fun _ => 0) allocated [1, 2, 3] 3 7935 = .ok (3, after) ∧
          file.readAt after 9 7930 =
            .ok (((file.hdr.contents after sectors).drop 7930).take 9) := by
  obtain ⟨hdr, freeMap', allocated, done⟩ := exists_allocate
  have kept : hdr.IndexKept allocated allocated := fun _ _ _ _ => rfl
  have length : hdr.fileLength.toInt = 8200 :=
    congrArg BitVec.toInt (allocate_eq_true done).1
  obtain ⟨sectors, maps, -, transfer⟩ :=
    @writeAt_then_readAt ⟨hdr, 0⟩ _ _ _ _ _ _ done allocated kept
  obtain ⟨k, after, written, clipped, -, -, reads⟩ :=
    transfer (fun _ => 0) [1, 2, 3] 3 7935 (by decide) (by decide)
      (by rw [length]; decide)
  have count : k = 3 := by
    rw [length] at clipped
    exact Int.ofNat.inj (clipped.trans (by decide))
  subst count
  exact ⟨⟨hdr, 0⟩, freeMap', allocated, done, kept, sectors, after, maps, written,
    reads 9 7930 (Or.inr (Or.inr (by decide)))⟩

section Request

/-- The largest number of bytes that a request may transfer. -/
def available (file : OpenFile) (numBytes position : CInt) : Int :=
  min (max numBytes.toInt 0) (max (file.hdr.fileLength.toInt - position.toInt) 0)

/-- The buffer of a request has a size, and its sectors are sectors of the file. -/
def BufferSound (file : OpenFile) (disk : Disk) (sectors : List SectorNumber)
    (numBytes position : CInt) : Prop :=
  ∀ amount, file.checkRequest numBytes position = some amount →
    0 ≤ bufferSize (firstSector position) (lastSector amount position) ∧
      ∀ i ∈ sectorRange (firstSector position) (lastSector amount position),
        ∃ sector ∈ sectors,
          file.hdr.byteToSector disk (i * Disk.sectorSize) = .ok (pointer sector)

/-- `ReadAt` stays within its buffer and the file, and within the request. -/
def ReadSound (file : OpenFile) (disk : Disk) (sectors : List SectorNumber)
    (numBytes position : CInt) : Prop :=
  file.BufferSound disk sectors numBytes position ∧
    ∃ bytes, file.readAt disk numBytes position = .ok bytes ∧
      bytes.length ≤ file.available numBytes position

/-- `WriteAt` stays within its buffer and the file, and within the request. -/
def WriteSound (file : OpenFile) (memory : Memory) (disk : Disk)
    (sectors : List SectorNumber) (data : List Byte) (numBytes position : CInt) : Prop :=
  file.BufferSound disk sectors numBytes position ∧
    ∃ count after, file.writeAt memory disk data numBytes position = .ok (count, after) ∧
      0 ≤ count.toInt ∧ count.toInt ≤ file.available numBytes position ∧
        disk.AgreeOutside sectors after

variable {disk : Disk} {sectors : List SectorNumber} {memory : Memory} {data : List Byte}
  {numBytes position : CInt}

theorem fileLength_le (maps : file.hdr.Maps disk sectors) :
    file.hdr.fileLength.toInt ≤ 2 ^ 30 := by
  have count := maps.count
  have onDisk := Nat.mul_le_mul_right Disk.sectorSize maps.length_le
  have size : Disk.numSectors * Disk.sectorSize = 131072 := by decide
  omega

theorem inRange_of_refused (refused : file.checkRequest numBytes position = none) :
    file.InRange numBytes position :=
  (checkRequest_eq_none refused).imp_right Or.inl

theorem bufferSound_of_inRange (maps : file.hdr.Maps disk sectors)
    (inRange : file.InRange numBytes position) :
    file.BufferSound disk sectors numBytes position := by
  intro amount accepted
  obtain ⟨place, rfl, value, fits⟩ := inRange.of_accepted accepted
  have capacity := maps.count
  have onDisk := Nat.mul_le_mul_right Disk.sectorSize maps.length_le
  rcases @checkRequest_eq file place _ fits with
    ⟨refused, -⟩ | ⟨count, some, clipped, again⟩
  · rw [accepted] at refused
    cases refused
  · obtain rfl := Option.some.inj (accepted.symm.trans again)
    have inside : place + count ≤ sectors.length * Disk.sectorSize := by omega
    have lengthBound := file.hdr.fileLength.toInt_lt
    rw [firstSector_natCast (by omega), lastSector_natCast some (by omega),
      bufferSize_touched some (inside.trans onDisk), sectorRange_touched]
    constructor
    · exact Int.natCast_nonneg _
    · intro i member
      obtain ⟨index, within, rfl⟩ := List.mem_map.mp member
      have blocks := touched_le some inside
      rw [List.mem_range'_1] at within
      have block : place / Disk.sectorSize + index < sectors.length := by omega
      exact ⟨_, List.getElem_mem block, maps.translate_here block⟩

/-- `ReadAt` is sound exactly for the requests that are in range. -/
theorem readSound_iff (maps : file.hdr.Maps disk sectors) :
    file.ReadSound disk sectors numBytes position ↔ file.InRange numBytes position := by
  constructor
  · rintro ⟨-, bytes, done, -⟩
    cases check : file.checkRequest numBytes position with
    | none => exact inRange_of_refused check
    | some amount =>
        exact Or.inr (Or.inr (readAt_of_accepted (fileLength_le maps) check done))
  · intro inRange
    refine ⟨bufferSound_of_inRange maps inRange, _, readAt_of_inRange maps inRange, ?_⟩
    rw [List.length_take, List.length_drop, length_contents maps, available]
    unfold InRange at inRange
    omega

/-- So is `WriteAt`, when the caller supplies the bytes. -/
theorem writeSound_iff (maps : file.hdr.Maps disk sectors)
    (supplied : numBytes.toInt ≤ data.length) :
    file.WriteSound memory disk sectors data numBytes position ↔
      file.InRange numBytes position := by
  constructor
  · rintro ⟨-, count, after, done, -⟩
    cases check : file.checkRequest numBytes position with
    | none => exact inRange_of_refused check
    | some amount =>
        obtain ⟨place, rfl, fits, -⟩ :=
          writeAt_of_accepted (fileLength_le maps) check done
        obtain ⟨positive, before, -⟩ := checkRequest_eq_some check
        have value : (BitVec.ofNat 32 place).toInt = place :=
          CInt.toInt_ofNat_of_lt (by omega)
        right
        right
        rw [value]
        exact ⟨Int.natCast_nonneg _, fits⟩
  · intro inRange
    refine ⟨bufferSound_of_inRange maps inRange, ?_⟩
    cases check : file.checkRequest numBytes position with
    | none =>
        refine ⟨0, disk, by rw [writeAt, check], by decide, ?_, fun _ _ => rfl⟩
        simp only [available, show (0 : CInt).toInt = 0 from rfl]
        omega
    | some amount =>
        obtain ⟨place, rfl, value, fits⟩ := inRange.of_accepted check
        obtain ⟨k, after, written, clipped, agree, -⟩ :=
          @writeAt_eq file disk sectors maps memory place numBytes data fits (by omega)
        refine ⟨_, after, written, ?_, ?_, agree⟩
        · rw [CInt.toInt_ofNat_of_lt (by omega)]
          exact Int.natCast_nonneg _
        · rw [CInt.toInt_ofNat_of_lt (by omega), available, value]
          omega

/-- The request check of `ReadAt` and `WriteAt` is complete except for negative
positions in front of a file and for ranges whose end is not an `int`. -/
theorem requestSound_iff (maps : file.hdr.Maps disk sectors)
    (supplied : numBytes.toInt ≤ data.length) :
    (file.ReadSound disk sectors numBytes position ∧
      file.WriteSound memory disk sectors data numBytes position) ↔
    (numBytes.toInt ≤ 0 ∨ file.hdr.fileLength.toInt ≤ position.toInt ∨
      0 ≤ position.toInt ∧ position.toInt + numBytes.toInt < 2 ^ 31) := by
  rw [readSound_iff maps, writeSound_iff maps supplied, and_self]
  rfl

theorem requestSound_at_end :
    ∃ (file : OpenFile) (disk : Disk) (sectors : List SectorNumber),
      file.hdr.Maps disk sectors ∧ file.hdr.fileLength.toInt = 8200 ∧
        (file.ReadSound disk sectors 3 8199 ∧
          file.WriteSound (fun _ => 0) disk sectors [1, 2, 3] 3 8199) := by
  obtain ⟨hdr, freeMap', allocated, done⟩ := exists_allocate
  have length : hdr.fileLength.toInt = 8200 :=
    congrArg BitVec.toInt (allocate_eq_true done).1
  obtain ⟨sectors, maps, -⟩ := exists_maps done fun _ _ _ _ => rfl
  exact ⟨⟨hdr, 0⟩, allocated, sectors, maps, length,
    (@requestSound_iff ⟨hdr, 0⟩ allocated sectors _ [1, 2, 3] 3 8199 maps (by decide)).mpr
      (Or.inr (Or.inr (by decide)))⟩

/-- One byte at position -1, and `INT_MAX` bytes at position 1, of a file that
was just allocated. -/
theorem not_requestSound :
    ∃ (file : OpenFile) (freeMap' : BitMap Disk.numSectors) (disk : Disk)
        (sectors : List SectorNumber),
      blank.allocate emptyMap 8200 Disk.blank = .ok (true, file.hdr, freeMap', disk) ∧
        file.hdr.Maps disk sectors ∧
        ¬ file.ReadSound disk sectors 1 (-1) ∧
        ¬ file.WriteSound (fun _ => 0) disk sectors [1] 1 (-1) ∧
        ¬ file.ReadSound disk sectors 2147483647 1 := by
  obtain ⟨hdr, freeMap', allocated, done⟩ := exists_allocate
  have length : hdr.fileLength.toInt = 8200 :=
    congrArg BitVec.toInt (allocate_eq_true done).1
  obtain ⟨sectors, maps, -⟩ := exists_maps done fun _ _ _ _ => rfl
  refine ⟨⟨hdr, 0⟩, freeMap', allocated, sectors, done, maps, ?_, ?_, ?_⟩
  · rw [@readSound_iff ⟨hdr, 0⟩ _ _ _ _ maps, InRange, length]
    decide
  · rw [@writeSound_iff ⟨hdr, 0⟩ _ _ _ _ _ _ maps (by decide), InRange, length]
    decide
  · rw [@readSound_iff ⟨hdr, 0⟩ _ _ _ _ maps, InRange, length]
    decide

end Request

section Stream

/-- One `Write` after another; the buffers are allocated in some memory. -/
def writeChunks (memory : Nat → Memory) :
    List (List Byte) → OpenFile → Disk → Except Fault (OpenFile × Disk)
  | [], file, disk => .ok (file, disk)
  | chunk :: chunks, file, disk => do
      let (_, disk, file) ←
        file.write (memory chunks.length) disk chunk (BitVec.ofNat 32 chunk.length)
      writeChunks memory chunks file disk

/-- One `Read` after another until one returns 0, or `none` when there is none
among the given number of them. -/
def readUntil (disk : Disk) : Nat → (Nat → CInt) → OpenFile →
    Except Fault (Option (List Byte × OpenFile))
  | 0, _, _ => .ok none
  | fuel + 1, sizes, file => do
      let (bytes, file) ← file.read disk (sizes 0)
      if bytes = [] then .ok (some ([], file))
      else do
        let rest ← readUntil disk fuel (fun index => sizes (index + 1)) file
        .ok (rest.map fun (later, file) => (bytes ++ later, file))

/-- The bytes that the reads before some point asked for. -/
def requested (sizes : Nat → CInt) (count : Nat) : Nat :=
  ∑ index ∈ Finset.range count, (sizes index).toInt.toNat

/-- Reads that start before the end of the file end at an `int`. -/
def ReadsFit (sizes : Nat → CInt) (position length : Nat) : Prop :=
  ∀ count, position + requested sizes count < length →
    position + requested sizes (count + 1) < 2 ^ 31

variable {hdr : FileHeader} {disk : Disk} {sectors : List SectorNumber}

theorem write_eq (maps : hdr.Maps disk sectors) (memory : Memory) (place : Nat)
    (chunk : List Byte) (inside : (place + chunk.length : Nat) ≤ hdr.fileLength.toInt) :
    ∃ after, write ⟨hdr, BitVec.ofNat 32 place⟩ memory disk chunk
        (BitVec.ofNat 32 chunk.length) =
          .ok (BitVec.ofNat 32 chunk.length, after,
            ⟨hdr, BitVec.ofNat 32 (place + chunk.length)⟩) ∧
      disk.AgreeOutside sectors after ∧
      hdr.contents after sectors = splice (hdr.contents disk sectors) place chunk := by
  have bound := hdr.fileLength.toInt_lt
  have size : (BitVec.ofNat 32 chunk.length).toInt = chunk.length :=
    CInt.toInt_ofNat_of_lt (by omega)
  obtain ⟨k, after, written, clipped, agree, contents⟩ :=
    @writeAt_eq ⟨hdr, BitVec.ofNat 32 place⟩ disk sectors maps memory place
      (BitVec.ofNat 32 chunk.length) chunk (by rw [size]; omega) (by rw [size]; omega)
  have whole : k = chunk.length := by
    rw [size] at clipped
    simp only at clipped
    omega
  subst whole
  refine ⟨after, ?_, agree, ?_⟩
  · rw [write]
    simp only
    rw [written, ok_bind, seek, BitVec.ofNat_add]
  · rw [contents, List.take_length]

/-- The writes leave their chunks one after another in the file. -/
theorem writeChunks_eq (memory : Nat → Memory) (chunks : List (List Byte))
    (maps : hdr.Maps disk sectors) (place : Nat)
    (inside : (place + chunks.flatten.length : Nat) ≤ hdr.fileLength.toInt) :
    ∃ after, writeChunks memory chunks ⟨hdr, BitVec.ofNat 32 place⟩ disk =
        .ok (⟨hdr, BitVec.ofNat 32 (place + chunks.flatten.length)⟩, after) ∧
      disk.AgreeOutside sectors after ∧
      hdr.contents after sectors =
        splice (hdr.contents disk sectors) place chunks.flatten := by
  induction chunks generalizing disk place with
  | nil => exact ⟨disk, rfl, fun _ _ => rfl, (splice_nil _ _).symm⟩
  | cons chunk chunks ih =>
      rw [List.flatten_cons, List.length_append] at inside
      obtain ⟨middle, written, agree, contents⟩ :=
        write_eq maps (memory chunks.length) place chunk (by omega)
      obtain ⟨after, rest, later, final⟩ :=
        ih (maps.of_agreeOutside agree) (place + chunk.length) (by omega)
      refine ⟨after, ?_, ?_, ?_⟩
      · rw [writeChunks, written, ok_bind, List.flatten_cons, List.length_append,
          ← Nat.add_assoc]
        exact rest
      · intro sector outside
        exact (later sector outside).trans (agree sector outside)
      · rw [final, contents, List.flatten_cons, splice_splice]
        rw [length_contents maps]
        omega

theorem requested_succ (sizes : Nat → CInt) (count : Nat) :
    requested sizes (count + 1) = (sizes 0).toInt.toNat +
      requested (fun index => sizes (index + 1)) count := by
  rw [requested, Finset.sum_range_succ', Nat.add_comm]
  rfl

/-- Whether the reads fit depends on the first one, and on the others from where
it ends. -/
theorem readsFit_iff {sizes : Nat → CInt} {position length : Nat}
    (before : position < length) :
    ReadsFit sizes position length ↔
      position + (sizes 0).toInt.toNat < 2 ^ 31 ∧
        ReadsFit (fun index => sizes (index + 1))
          (position + (sizes 0).toInt.toNat) length := by
  have none : requested sizes 0 = 0 := rfl
  have one : requested sizes 1 = (sizes 0).toInt.toNat := by
    rw [requested_succ]
    rfl
  constructor
  · intro fit
    constructor
    · have first := fit 0 (by omega)
      rwa [one] at first
    · intro count inside
      have next := fit (count + 1)
      rw [requested_succ, requested_succ, ← Nat.add_assoc, ← Nat.add_assoc] at next
      exact next inside
  · rintro ⟨first, rest⟩ count inside
    cases count with
    | zero => rwa [one]
    | succ count =>
        rw [requested_succ, ← Nat.add_assoc] at inside ⊢
        exact rest count inside

theorem readsFit_of_le {sizes : Nat → CInt} {position length : Nat}
    (beyond : length ≤ position) : ReadsFit sizes position length := by
  intro count inside
  omega

theorem read_eq (maps : hdr.Maps disk sectors) (place : Nat) {numBytes : CInt}
    (fits : place + numBytes.toInt < 2 ^ 31) :
    read ⟨hdr, BitVec.ofNat 32 place⟩ disk numBytes =
      .ok (((hdr.contents disk sectors).drop place).take numBytes.toInt.toNat,
        ⟨hdr, BitVec.ofNat 32 (place + (((hdr.contents disk sectors).drop place).take
          numBytes.toInt.toNat).length)⟩) := by
  rw [read]
  simp only
  rw [@readAt_eq ⟨hdr, BitVec.ofNat 32 place⟩ disk sectors maps place numBytes fits, ok_bind,
    seek, BitVec.ofNat_add]

/-- At the end of the file `Read` returns 0, whatever the size. -/
theorem read_at_end {place : Nat} (value : hdr.fileLength.toInt = place)
    (numBytes : CInt) :
    read ⟨hdr, BitVec.ofNat 32 place⟩ disk numBytes =
      .ok ([], ⟨hdr, BitVec.ofNat 32 place⟩) := by
  have bound := hdr.fileLength.toInt_lt
  have position : (BitVec.ofNat 32 place).toInt = place :=
    CInt.toInt_ofNat_of_lt (by omega)
  have refused : checkRequest ⟨hdr, BitVec.ofNat 32 place⟩ numBytes
      (BitVec.ofNat 32 place) = none := by
    apply if_pos
    right
    rw [value, position]
  rw [read, readAt, refused]
  simp only [ok_bind, seek, List.length_nil, BitVec.add_zero]

/-- A `Read` in the file whose end is not an `int` does not complete. -/
theorem read_overflow (maps : hdr.Maps disk sectors) {place : Nat} {numBytes : CInt}
    (before : place < hdr.fileLength.toInt) (positive : 0 < numBytes.toInt)
    (overflow : 2 ^ 31 ≤ place + numBytes.toInt) {result : List Byte × OpenFile} :
    read ⟨hdr, BitVec.ofNat 32 place⟩ disk numBytes ≠ .ok result := by
  intro done
  have bound := hdr.fileLength.toInt_lt
  have position : (BitVec.ofNat 32 place).toInt = place :=
    CInt.toInt_ofNat_of_lt (by omega)
  obtain ⟨bytes, read, -⟩ := bind_eq_ok_iff.mp done
  cases check : checkRequest ⟨hdr, BitVec.ofNat 32 place⟩ numBytes
      (BitVec.ofNat 32 place) with
  | none =>
      have inRange := inRange_of_refused check
      simp only [InRange, position] at inRange
      omega
  | some amount =>
      have fits := (readAt_of_accepted (fileLength_le maps) check read).2
      rw [position] at fits
      omega

theorem readUntil_hdr {fuel : Nat} {sizes : Nat → CInt} {file last : OpenFile}
    {bytes : List Byte} (done : readUntil disk fuel sizes file = .ok (some (bytes, last))) :
    last.hdr = file.hdr := by
  induction fuel generalizing sizes file bytes with
  | zero => cases done
  | succ fuel ih =>
      obtain ⟨⟨front, next⟩, read, done⟩ := bind_eq_ok_iff.mp done
      obtain ⟨read, -, moved⟩ := bind_eq_ok_iff.mp read
      obtain ⟨-, rfl⟩ := Prod.mk.inj (Except.ok.inj moved)
      simp only at done
      split at done
      · obtain ⟨-, rfl⟩ := Prod.mk.inj (Option.some.inj (Except.ok.inj done))
        rfl
      · obtain ⟨result, rest, done⟩ := bind_eq_ok_iff.mp done
        cases result with
        | none => cases done
        | some pair =>
            obtain ⟨-, rfl⟩ := Prod.mk.inj (Option.some.inj (Except.ok.inj done))
            have same := ih rest
            exact same

/-- The reads from some position on return the rest of the file exactly when
they fit. -/
theorem readUntil_iff (maps : hdr.Maps disk sectors) {d : List Byte}
    (contents : hdr.contents disk sectors = d) (value : hdr.fileLength.toInt = d.length)
    {sizes : Nat → CInt} (positive : ∀ index, 0 < (sizes index).toInt) {place : Nat}
    (inside : place ≤ d.length) {fuel : Nat} (enough : d.length - place < fuel) :
    readUntil disk fuel sizes ⟨hdr, BitVec.ofNat 32 place⟩ =
        .ok (some (d.drop place, ⟨hdr, BitVec.ofNat 32 d.length⟩)) ↔
      ReadsFit sizes place d.length := by
  induction fuel generalizing place sizes with
  | zero => omega
  | succ fuel ih =>
      have bound := hdr.fileLength.toInt_lt
      have here := positive 0
      by_cases finished : place = d.length
      · subst finished
        refine iff_of_true ?_ (readsFit_of_le (Nat.le_refl _))
        rw [readUntil, read_at_end value, ok_bind]
        simp
      have before : place < d.length := by omega
      rw [readsFit_iff before]
      by_cases fits : place + (sizes 0).toInt < 2 ^ 31
      · have read := read_eq maps place fits
        rw [contents] at read
        generalize taken : (d.drop place).take (sizes 0).toInt.toNat = bytes at read
        have length : bytes.length = min (sizes 0).toInt.toNat (d.length - place) := by
          rw [← taken, List.length_take, List.length_drop]
        have nonempty : bytes ≠ [] := by
          apply List.ne_nil_of_length_pos
          omega
        have split : d.drop place = bytes ++ d.drop (place + bytes.length) := by
          have front : bytes <+: d.drop place := taken ▸ List.take_prefix _ _
          rw [← List.drop_drop]
          exact (List.prefix_iff_eq_append.mp front).symm
        have rest := ih (fun index => positive (index + 1))
          (show place + bytes.length ≤ d.length by omega) (by omega)
        have fit : ReadsFit (fun index => sizes (index + 1))
            (place + (sizes 0).toInt.toNat) d.length ↔
              ReadsFit (fun index => sizes (index + 1)) (place + bytes.length) d.length := by
          by_cases clipped : (sizes 0).toInt.toNat ≤ d.length - place
          · rw [length, Nat.min_eq_left clipped]
          · exact iff_of_true (readsFit_of_le (by omega)) (readsFit_of_le (by omega))
        rw [fit, ← rest, readUntil, read, ok_bind]
        simp only [nonempty, if_false]
        constructor
        · intro done
          refine ⟨by omega, ?_⟩
          obtain ⟨result, later, same⟩ := bind_eq_ok_iff.mp done
          cases result with
          | none => cases same
          | some pair =>
              obtain ⟨tail, file⟩ := pair
              simp only [Option.map_some, Except.ok.injEq, Option.some.injEq,
                Prod.mk.injEq, split, List.append_cancel_left_eq] at same
              rw [later, same.1, same.2]
        · rintro ⟨-, later⟩
          rw [later, ok_bind, Option.map_some, split]
      · refine iff_of_false ?_ (by omega)
        intro done
        rw [readUntil] at done
        obtain ⟨result, read, -⟩ := bind_eq_ok_iff.mp done
        exact read_overflow maps (by omega) here (Int.not_lt.mp fits) read

/-- For a file that was allocated for `d`: the writes of the chunks of `d` and
the reads after them both run from the start of the file to its end, and the
reads return `d`. -/
def StreamsBack (hdr : FileHeader) (disk : Disk) (memory : Nat → Memory)
    (chunks : List (List Byte)) (sizes : Nat → CInt) : Prop :=
  ∃ (written : OpenFile) (after : Disk) (last : OpenFile),
    writeChunks memory chunks ⟨hdr, 0⟩ disk = .ok (written, after) ∧
      written.seekPosition = BitVec.ofNat 32 chunks.flatten.length ∧
      readUntil after (chunks.flatten.length + 1) sizes (written.seek 0) =
        .ok (some (chunks.flatten, last)) ∧
      last.seekPosition = BitVec.ofNat 32 chunks.flatten.length

theorem streamsBack_iff_readsFit
    (done : header.allocate freeMap fileSize before = .ok (true, hdr, freeMap', allocated))
    (kept : hdr.IndexKept allocated disk) (memory : Nat → Memory)
    {chunks : List (List Byte)} (length : fileSize.toInt = chunks.flatten.length)
    {sizes : Nat → CInt} (positive : ∀ index, 0 < (sizes index).toInt) :
    StreamsBack hdr disk memory chunks sizes ↔
      ReadsFit sizes 0 chunks.flatten.length := by
  obtain ⟨sectors, maps, -, -⟩ := exists_maps done kept
  have value : hdr.fileLength.toInt = chunks.flatten.length := by
    rw [← length]
    exact congrArg BitVec.toInt (allocate_eq_true done).1
  obtain ⟨after, written, agree, contents⟩ :=
    writeChunks_eq memory chunks maps 0 (by omega)
  have later := maps.of_agreeOutside agree
  have whole : hdr.contents after sectors = chunks.flatten := by
    rw [contents]
    apply splice_all
    rw [length_contents maps]
    omega
  have reads := @readUntil_iff hdr after sectors later chunks.flatten whole value sizes
    positive 0 (Nat.zero_le _) (chunks.flatten.length + 1) (by omega)
  rw [Nat.zero_add] at written
  rw [← reads]
  constructor
  · rintro ⟨file, final, last, done, -, back, finish⟩
    obtain ⟨rfl, rfl⟩ := Prod.mk.inj (Except.ok.inj (written.symm.trans done))
    obtain ⟨lastHdr, lastPosition⟩ := last
    obtain rfl : lastHdr = hdr := readUntil_hdr back
    obtain rfl : lastPosition = BitVec.ofNat 32 chunks.flatten.length := finish
    exact back
  · intro back
    exact ⟨_, after, _, written, rfl, back, rfl⟩

/-- A file that was filled by a sequence of writes is read back by a sequence of
reads exactly when no read that starts in the file ends beyond the largest
`int`. -/
theorem streamsBack_iff
    (done : header.allocate freeMap fileSize before = .ok (true, hdr, freeMap', allocated))
    (kept : hdr.IndexKept allocated disk) (memory : Nat → Memory)
    {chunks : List (List Byte)} (length : fileSize.toInt = chunks.flatten.length)
    {sizes : Nat → CInt} (positive : ∀ index, 0 < (sizes index).toInt) :
    StreamsBack hdr disk memory chunks sizes ↔
      ∀ count, ∑ index ∈ Finset.range count, (sizes index).toInt.toNat <
          chunks.flatten.length →
        ∑ index ∈ Finset.range (count + 1), (sizes index).toInt.toNat < 2 ^ 31 := by
  rw [streamsBack_iff_readsFit done kept memory length positive]
  simp only [ReadsFit, requested, Nat.zero_add]

/-- Two writes and reads of 100 bytes. -/
theorem streamsBack_hundred :
    ∃ (hdr : FileHeader) (freeMap' : BitMap Disk.numSectors) (disk : Disk),
      blank.allocate emptyMap 8200 Disk.blank = .ok (true, hdr, freeMap', disk) ∧
        hdr.IndexKept disk disk ∧
        StreamsBack hdr disk (fun _ _ => 0)
          [List.replicate 4000 1, List.replicate 4200 2] fun _ => 100 := by
  obtain ⟨hdr, freeMap', allocated, done⟩ := exists_allocate
  have kept : hdr.IndexKept allocated allocated := fun _ _ _ _ => rfl
  have total : [List.replicate 4000 1, List.replicate 4200 (2 : Byte)].flatten.length =
      8200 := by
    simp only [List.flatten_cons, List.flatten_nil, List.length_append,
      List.length_replicate, List.length_nil]
  have length : BitVec.toInt (8200 : CInt) =
      [List.replicate 4000 1, List.replicate 4200 (2 : Byte)].flatten.length := by
    rw [total]
    rfl
  refine ⟨hdr, freeMap', allocated, done, kept,
    (streamsBack_iff done kept _ length fun _ => by decide).mpr ?_⟩
  intro count inside
  have sum : ∀ count, ∑ index ∈ Finset.range count, (100 : CInt).toInt.toNat =
      count * 100 := by
    intro count
    rw [Finset.sum_const_nat fun _ _ => rfl, Finset.card_range]
    rfl
  rw [sum, total] at inside
  rw [sum]
  omega

/-- A read of one byte, and then one of `INT_MAX` bytes. -/
theorem not_streamsBack :
    ∃ (hdr : FileHeader) (freeMap' : BitMap Disk.numSectors) (disk : Disk),
      blank.allocate emptyMap 8200 Disk.blank = .ok (true, hdr, freeMap', disk) ∧
        ¬ StreamsBack hdr disk (fun _ _ => 0) [List.replicate 8200 1]
          fun index => if index = 0 then 1 else 2147483647 := by
  obtain ⟨hdr, freeMap', allocated, done⟩ := exists_allocate
  have kept : hdr.IndexKept allocated allocated := fun _ _ _ _ => rfl
  have total : [List.replicate 8200 (1 : Byte)].flatten.length = 8200 := by
    simp only [List.flatten_cons, List.flatten_nil, List.append_nil, List.length_replicate]
  have length : BitVec.toInt (8200 : CInt) =
      [List.replicate 8200 (1 : Byte)].flatten.length := by
    rw [total]
    rfl
  refine ⟨hdr, freeMap', allocated, done, ?_⟩
  rw [streamsBack_iff_readsFit done kept _ length fun index => by split <;> decide]
  intro fit
  have second := fit 1
  rw [requested_succ, requested_succ, total] at second
  exact absurd (second (by decide)) (by decide)

end Stream

end OpenFile

end Nachos
