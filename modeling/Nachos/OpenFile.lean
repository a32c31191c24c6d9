import Nachos.FileHeader
import Nachos.ListSplice

/-!
# Open files

`ReadAt` and `WriteAt` move a byte range through a buffer of whole sectors.
Positions and sizes are C integers, whose sums wrap around.  The bytes a caller
gets are modelled as a list; their number is the value returned.
-/

namespace Nachos

open ListSplice

/-- The contents of a buffer that was just allocated. -/
abbrev Memory := Nat → Byte

/-- `bcopy` into a buffer at some offset. -/
def copyInto (buffer : List Byte) (offset : Int) (data : List Byte) :
    Except Fault (List Byte) :=
  if 0 ≤ offset ∧ offset + data.length ≤ buffer.length then
    .ok (splice buffer offset.toNat data)
  else .error .outOfBounds

/-- `bcopy` of `count` bytes out of a buffer. -/
def copyFrom (buffer : List Byte) (offset count : Int) : Except Fault (List Byte) :=
  if 0 ≤ offset ∧ 0 ≤ count ∧ offset + count ≤ buffer.length then
    .ok ((buffer.drop offset.toNat).take count.toNat)
  else .error .outOfBounds

structure OpenFile where
  hdr : FileHeader
  seekPosition : CInt

namespace OpenFile

/-- The constructor; the header is read into fresh memory. -/
def new (memory : FileHeader) (disk : Disk) (sector : Int) :
    Except Fault OpenFile :=
  (memory.fetchFrom disk sector).map fun hdr => ⟨hdr, 0⟩

def seek (file : OpenFile) (position : CInt) : OpenFile :=
  { file with seekPosition := position }

/-- The request check: the number of bytes to transfer, or `none` where the
function returns 0. -/
def checkRequest (file : OpenFile) (numBytes position : CInt) : Option CInt :=
  let fileLength := file.hdr.fileLength
  if numBytes.toInt ≤ 0 ∨ fileLength.toInt ≤ position.toInt then none
  else if fileLength.toInt < (position + numBytes).toInt then
    some (fileLength - position)
  else some numBytes

def firstSector (position : CInt) : Int :=
  CInt.divRoundDown position.toInt Disk.sectorSize

def lastSector (numBytes position : CInt) : Int :=
  CInt.divRoundDown (position + numBytes - 1).toInt Disk.sectorSize

/-- The size of the buffer, `numSectors * SectorSize`. -/
def bufferSize (firstSector lastSector : Int) : Int :=
  (BitVec.ofInt 32 ((1 + lastSector - firstSector) * Disk.sectorSize)).toInt

/-- The values of `i` in `for (i = first; i <= last; i++)`. -/
def sectorRange (first last : Int) : List Int :=
  (List.range' 0 (last + 1 - first).toNat).map fun index : Nat => first + (index : Int)

/-- The loop of `ReadAt`, which fills its buffer from the front. -/
def readSectors (hdr : FileHeader) (disk : Disk) (size : Int) :
    List Int → List Byte → Except Fault (List Byte)
  | [], buf => .ok buf
  | i :: rest, buf => do
      let sector ← hdr.byteToSector disk (i * Disk.sectorSize)
      let bytes ← disk.readSector sector.toInt
      if (buf ++ bytes).length ≤ size then
        readSectors hdr disk size rest (buf ++ bytes)
      else .error .outOfBounds

def readAt (file : OpenFile) (disk : Disk) (numBytes position : CInt) :
    Except Fault (List Byte) :=
  match file.checkRequest numBytes position with
  | none => .ok []
  | some numBytes => do
      let first := firstSector position
      let last := lastSector numBytes position
      let buf ← readSectors file.hdr disk (bufferSize first last)
        (sectorRange first last) []
      copyFrom buf (position.toInt - first * Disk.sectorSize) numBytes.toInt

/-- The loop of `WriteAt`. -/
def writeSectors (hdr : FileHeader) (first : Int) (buf : List Byte) :
    List Int → Disk → Except Fault Disk
  | [], disk => .ok disk
  | i :: rest, disk => do
      let sector ← hdr.byteToSector disk (i * Disk.sectorSize)
      let disk ← disk.writeSector sector.toInt
        (buf.drop ((i - first) * Disk.sectorSize).toNat)
      writeSectors hdr first buf rest disk

/-- One of the two calls of `ReadAt` in `WriteAt`. -/
def readBack (file : OpenFile) (disk : Disk) (buf : List Byte) (first i : Int) :
    Except Fault (List Byte) := do
  let bytes ← file.readAt disk (BitVec.ofNat 32 Disk.sectorSize)
    (BitVec.ofInt 32 (i * Disk.sectorSize))
  copyInto buf ((i - first) * Disk.sectorSize) bytes

def readBackWhen (file : OpenFile) (condition : Prop) [Decidable condition]
    (disk : Disk) (buf : List Byte) (first i : Int) : Except Fault (List Byte) :=
  if condition then file.readBack disk buf first i else .ok buf

/-- The buffer of `WriteAt` before the new data are copied in: the first and the
last sector are read when they are only partially modified. -/
def fillBuffer (file : OpenFile) (disk : Disk) (buf : List Byte)
    (numBytes position : CInt) : Except Fault (List Byte) := do
  let first := firstSector position
  let last := lastSector numBytes position
  let firstAligned := position.toInt = first * Disk.sectorSize
  let lastAligned := position + numBytes = BitVec.ofInt 32 ((last + 1) * Disk.sectorSize)
  let buf ← file.readBackWhen (¬ firstAligned) disk buf first first
  file.readBackWhen (¬ lastAligned ∧ (first ≠ last ∨ firstAligned)) disk buf first last

/-- The result is the number of bytes written. -/
def writeAt (file : OpenFile) (memory : Memory) (disk : Disk) (data : List Byte)
    (numBytes position : CInt) : Except Fault (CInt × Disk) :=
  match file.checkRequest numBytes position with
  | none => .ok (0, disk)
  | some numBytes => do
      let first := firstSector position
      let last := lastSector numBytes position
      let size := bufferSize first last
      if size < 0 then .error .outOfBounds
      else do
        let buf := (List.range size.toNat).map memory
        let buf ← file.fillBuffer disk buf numBytes position
        let modified ← copyFrom data 0 numBytes.toInt
        let buf ← copyInto buf (position.toInt - first * Disk.sectorSize) modified
        let disk ← writeSectors file.hdr first buf (sectorRange first last) disk
        .ok (numBytes, disk)

/-- `OpenFile::Read`. -/
def read (file : OpenFile) (disk : Disk) (numBytes : CInt) :
    Except Fault (List Byte × OpenFile) := do
  let bytes ← file.readAt disk numBytes file.seekPosition
  .ok (bytes, file.seek (file.seekPosition + BitVec.ofNat 32 bytes.length))

/-- `OpenFile::Write`. -/
def write (file : OpenFile) (memory : Memory) (disk : Disk) (data : List Byte)
    (numBytes : CInt) : Except Fault (CInt × Disk × OpenFile) := do
  let (result, disk) ← file.writeAt memory disk data numBytes file.seekPosition
  .ok (result, disk, file.seek (file.seekPosition + result))

end OpenFile

end Nachos
