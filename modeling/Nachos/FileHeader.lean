import Nachos.BitMap
import Nachos.TransitionRuns

/-!
# File headers

The header of a file lists the sectors of its data: `NumDirect` of them in the
header itself, the others in one sector of pointers (`L1Index`) and in sectors
of pointers that are found through a further one (`L2Index`).  The object in
memory is longer than the sector that `WriteBack` and `FetchFrom` transfer.
-/

namespace Nachos

open LittleEndianWords TransitionRuns

def numDirect : Nat := (Disk.sectorSize - 2 * 4) / 4

def l1IndexNum : Nat := Disk.sectorSize / 4

/-- A sector of pointers: the buffers `hdrL1Buf` and `hdrL2Buf`. -/
abbrev IndexTable := Vector CInt l1IndexNum

namespace IndexTable

def toBytes (table : IndexTable) : List Byte :=
  encodeWords table.toList

def ofBytes (bytes : List Byte) : IndexTable :=
  Vector.ofFn fun index => wordAt bytes (4 * index.val)

/-- A table with all its pointers `-1`. -/
def empty : IndexTable :=
  Vector.replicate l1IndexNum (-1)

@[simp]
theorem length_toBytes (table : IndexTable) :
    table.toBytes.length = Disk.sectorSize := by
  simp only [toBytes, length_encodeWords, Vector.length_toList]
  rfl

@[simp]
theorem ofBytes_toBytes (table : IndexTable) : ofBytes table.toBytes = table :=
  ofFn_wordAt_encodeWords table

end IndexTable

/-- `SynchDisk::ReadSector` into a buffer of pointers. -/
def Disk.readTable (disk : Disk) (sector : CInt) : Except Fault IndexTable :=
  (disk.readSector sector.toInt).map IndexTable.ofBytes

/-- `SynchDisk::WriteSector` from a buffer of pointers. -/
def Disk.writeTable (disk : Disk) (sector : CInt) (table : IndexTable) :
    Except Fault Disk :=
  disk.writeSector sector.toInt table.toBytes

/-- A sector of the disk by its number. -/
abbrev SectorNumber := Fin Disk.numSectors

/-- The pointer to a sector. -/
def pointer (sector : SectorNumber) : CInt :=
  BitVec.ofNat 32 sector.val

theorem toInt_pointer (sector : SectorNumber) : (pointer sector).toInt = sector.val := by
  have inside := sector.isLt
  simp only [Disk.numSectors, Disk.sectorsPerTrack, Disk.numTracks] at inside
  exact CInt.toInt_ofNat_of_lt (by omega)

theorem pointer_ne_neg_one (sector : SectorNumber) : pointer sector ≠ -1 := by
  intro same
  have numbers := congrArg BitVec.toInt same
  rw [toInt_pointer] at numbers
  have negative : BitVec.toInt (-1 : CInt) = -1 := by decide
  omega

theorem pointer_injective : Function.Injective pointer := by
  intro first second same
  apply Fin.ext
  have numbers := congrArg BitVec.toInt same
  rw [toInt_pointer, toInt_pointer] at numbers
  omega

namespace Disk

theorem readSector_pointer (disk : Disk) (sector : SectorNumber) :
    disk.readSector (pointer sector).toInt = .ok (disk sector.val).bytes := by
  rw [toInt_pointer, readSector_of_lt disk sector.isLt]

theorem writeSector_pointer (disk : Disk) (sector : SectorNumber)
    {data : List Byte} (enough : sectorSize ≤ data.length) :
    disk.writeSector (pointer sector).toInt data =
      .ok (Function.update disk sector.val (Sector.ofBytes data enough)) := by
  rw [toInt_pointer, writeSector_of_lt disk sector.isLt enough]

end Disk

/-- The fields of a `FileHeader`, in the order of their declaration. -/
structure FileHeader where
  numBytes : CInt
  numSectors : CInt
  dataSectors : Vector CInt numDirect
  createTime : CInt
  lastmodifytime : CInt
  lastusetime : CInt
  l1Index : CInt
  l2Index : CInt
  deriving DecidableEq

namespace FileHeader

/-- A `FileHeader` in memory that is all zeros. -/
def blank : FileHeader :=
  ⟨0, 0, Vector.replicate numDirect 0, 0, 0, 0, 0, 0⟩

/-- The words of the object in memory. -/
def words (header : FileHeader) : List Word :=
  [header.numBytes, header.numSectors] ++ header.dataSectors.toList ++
    [header.createTime, header.lastmodifytime, header.lastusetime,
      header.l1Index, header.l2Index]

/-- The object as the bytes it occupies. -/
def toBytes (header : FileHeader) : List Byte :=
  encodeWords header.words

def ofBytes (bytes : List Byte) : FileHeader where
  numBytes := wordAt bytes 0
  numSectors := wordAt bytes 4
  dataSectors := Vector.ofFn fun index => wordAt bytes (4 * (2 + index.val))
  createTime := wordAt bytes (4 * (2 + numDirect))
  lastmodifytime := wordAt bytes (4 * (3 + numDirect))
  lastusetime := wordAt bytes (4 * (4 + numDirect))
  l1Index := wordAt bytes (4 * (5 + numDirect))
  l2Index := wordAt bytes (4 * (6 + numDirect))

/-- `FileHeader::FetchFrom`: a sector is copied over the first bytes of the
object, and the rest of it stays as it was. -/
def fetchFrom (header : FileHeader) (disk : Disk) (sector : Int) :
    Except Fault FileHeader :=
  (disk.readSector sector).map fun bytes =>
    ofBytes (bytes ++ header.toBytes.drop Disk.sectorSize)

/-- `FileHeader::WriteBack`. -/
def writeBack (header : FileHeader) (disk : Disk) (sector : Int) :
    Except Fault Disk :=
  disk.writeSector sector header.toBytes

/-- `FileHeader::FileLength`. -/
def fileLength (header : FileHeader) : CInt :=
  header.numBytes

theorem adSector_lt {block : Nat} (inside : block < l1IndexNum * l1IndexNum) :
    block / l1IndexNum < l1IndexNum :=
  Nat.div_lt_of_lt_mul inside

theorem offSector_lt (block : Nat) :
    block - block / l1IndexNum * l1IndexNum < l1IndexNum := by
  simp only [l1IndexNum, Disk.sectorSize]
  omega

/-- `FileHeader::ByteToSector`. -/
def byteToSector (header : FileHeader) (disk : Disk) (offset : Int) :
    Except Fault CInt :=
  let curSector := offset.tdiv Disk.sectorSize
  if curSector < 0 then .ok (-1)
  else if _direct : curSector.toNat < numDirect then
    .ok header.dataSectors[curSector.toNat]
  else if _l1 : curSector.toNat < numDirect + l1IndexNum then do
    let hdrL1Buf ← disk.readTable header.l1Index
    .ok hdrL1Buf[curSector.toNat - numDirect]
  else if _l2 : curSector.toNat < numDirect + l1IndexNum + l1IndexNum * l1IndexNum then do
    let adSector := (curSector.toNat - numDirect - l1IndexNum) / l1IndexNum
    let offSector := curSector.toNat - numDirect - l1IndexNum - adSector * l1IndexNum
    have _adSector : adSector < l1IndexNum := adSector_lt (by omega)
    have _offSector : offSector < l1IndexNum := offSector_lt _
    let hdrL2Buf ← disk.readTable header.l2Index
    let hdrL1Buf ← disk.readTable hdrL2Buf[adSector]
    .ok hdrL1Buf[offSector]
  else .ok (-1)

/-- `FileHeader::ClearSector`. -/
def clearSector (disk : Disk) (sectorNum : CInt) : Except Fault Disk :=
  disk.writeSector sectorNum.toInt (List.replicate Disk.sectorSize 0)

@[simp]
theorem length_words (header : FileHeader) : header.words.length = 7 + numDirect := by
  simp only [words, List.length_append, List.length_cons, List.length_nil,
    Vector.length_toList]
  omega

theorem length_toBytes (header : FileHeader) :
    header.toBytes.length = 4 * (7 + numDirect) := by
  simp [toBytes]

/-- The block of an offset in the file. -/
theorem tdiv_sectorSize (offset : Nat) :
    (offset : Int).tdiv Disk.sectorSize = (offset / Disk.sectorSize : Nat) :=
  (Int.ofNat_tdiv _ _).symm

theorem block_nonneg (offset : Nat) : ¬ ((offset / Disk.sectorSize : Nat) : Int) < 0 :=
  Int.not_lt.mpr (Int.natCast_nonneg _)

theorem byteToSector_direct (header : FileHeader) (disk : Disk) {offset : Nat}
    (direct : offset / Disk.sectorSize < numDirect) :
    header.byteToSector disk offset =
      .ok header.dataSectors[offset / Disk.sectorSize] := by
  unfold byteToSector
  simp only [tdiv_sectorSize, block_nonneg, if_false, Int.toNat_natCast, direct, dif_pos]

theorem byteToSector_l1 (header : FileHeader) (disk : Disk) {offset : Nat}
    (indirect : numDirect ≤ offset / Disk.sectorSize)
    (inside : offset / Disk.sectorSize - numDirect < l1IndexNum) :
    header.byteToSector disk offset =
      (disk.readTable header.l1Index).map
        (·[offset / Disk.sectorSize - numDirect]) := by
  have notDirect : ¬ offset / Disk.sectorSize < numDirect := by omega
  have inTable : offset / Disk.sectorSize < numDirect + l1IndexNum := by omega
  unfold byteToSector
  simp only [tdiv_sectorSize, block_nonneg, if_false, Int.toNat_natCast, notDirect,
    dif_neg, not_false_eq_true, inTable, dif_pos]
  cases disk.readTable header.l1Index <;> rfl

/-- The object is longer than a sector. -/
theorem sectorSize_le_length_toBytes (header : FileHeader) :
    Disk.sectorSize ≤ header.toBytes.length := by
  rw [length_toBytes]
  decide

end FileHeader

end Nachos
