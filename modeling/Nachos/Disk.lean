import Mathlib.Logic.Function.Basic
import Nachos.CIntegers
import Nachos.LittleEndianWords

/-!
# The simulated disk

The disk is an array of `NumSectors` sectors of `SectorSize` bytes each.
`SynchDisk::ReadSector` and `WriteSector` return when the request is done, so
each is one function on the contents of the disk; `Disk::ReadRequest` and
`WriteRequest` assert that the sector number is on the disk.
-/

namespace Nachos

export LittleEndianWords (Byte Word)

/-- The ways in which the kernel stops abnormally. -/
inductive Fault where
  /-- An `ASSERT` failed. -/
  | assertion
  /-- Memory outside an object was accessed. -/
  | outOfBounds
  deriving DecidableEq, Repr

namespace Disk

def sectorSize : Nat := 128

def sectorsPerTrack : Nat := 32

def numTracks : Nat := 32

def numSectors : Nat := sectorsPerTrack * numTracks

end Disk

/-- The bytes of one disk sector. -/
structure Sector where
  bytes : List Byte
  length_bytes : bytes.length = Disk.sectorSize

attribute [simp] Sector.length_bytes

namespace Sector

@[ext]
theorem ext {first second : Sector} (equal : first.bytes = second.bytes) :
    first = second := by
  cases first
  cases second
  simpa using equal

/-- The first `SectorSize` bytes at an address. -/
def ofBytes (data : List Byte) (enough : Disk.sectorSize ≤ data.length) : Sector :=
  ⟨data.take Disk.sectorSize, by rw [List.length_take]; exact Nat.min_eq_left enough⟩

@[simp]
theorem bytes_ofBytes (data : List Byte) (enough : Disk.sectorSize ≤ data.length) :
    (ofBytes data enough).bytes = data.take Disk.sectorSize :=
  rfl

/-- A sector of zeros. -/
def zero : Sector :=
  ⟨List.replicate Disk.sectorSize 0, by simp⟩

end Sector

/-- The contents of the disk, by sector number. -/
abbrev Disk := Nat → Sector

namespace Disk

/-- A disk that is all zeros. -/
def blank : Disk := fun _ => Sector.zero

/-- `SynchDisk::ReadSector`. -/
def readSector (disk : Disk) (sectorNumber : Int) : Except Fault (List Byte) :=
  if 0 ≤ sectorNumber ∧ sectorNumber < numSectors then
    .ok (disk sectorNumber.toNat).bytes
  else .error .assertion

/-- `SynchDisk::WriteSector`: the device takes `SectorSize` bytes from the
address it is given. -/
def writeSector (disk : Disk) (sectorNumber : Int) (data : List Byte) :
    Except Fault Disk :=
  if 0 ≤ sectorNumber ∧ sectorNumber < numSectors then
    if enough : sectorSize ≤ data.length then
      .ok (Function.update disk sectorNumber.toNat (Sector.ofBytes data enough))
    else .error .outOfBounds
  else .error .assertion

theorem readSector_of_lt (disk : Disk) {sector : Nat} (onDisk : sector < numSectors) :
    disk.readSector sector = .ok (disk sector).bytes := by
  rw [readSector, if_pos ⟨by omega, by omega⟩, Int.toNat_natCast]

theorem writeSector_of_lt (disk : Disk) {sector : Nat} (onDisk : sector < numSectors)
    {data : List Byte} (enough : sectorSize ≤ data.length) :
    disk.writeSector sector data =
      .ok (Function.update disk sector (Sector.ofBytes data enough)) := by
  rw [writeSector, if_pos ⟨by omega, by omega⟩, dif_pos enough, Int.toNat_natCast]

/-- A sector that was read is on the disk. -/
theorem readSector_eq_ok {disk : Disk} {sectorNumber : Int} {data : List Byte}
    (done : disk.readSector sectorNumber = .ok data) :
    ∃ sector < numSectors, sectorNumber = (sector : Nat) ∧
      data = (disk sector).bytes := by
  unfold readSector at done
  split at done
  next onDisk =>
    refine ⟨sectorNumber.toNat, by omega, by omega, ?_⟩
    simpa using done.symm
  next => simp at done

/-- A sector that was written is on the disk, and nothing else changed. -/
theorem writeSector_eq_ok {disk after : Disk} {sectorNumber : Int}
    {data : List Byte} (done : disk.writeSector sectorNumber data = .ok after) :
    ∃ sector < numSectors, sectorNumber = (sector : Nat) ∧
      ∃ enough : sectorSize ≤ data.length,
        after = Function.update disk sector (Sector.ofBytes data enough) := by
  unfold writeSector at done
  split at done
  next onDisk =>
    split at done
    next enough =>
      refine ⟨sectorNumber.toNat, by omega, by omega, enough, ?_⟩
      simpa using done.symm
    next => simp at done
  next => simp at done

end Disk

end Nachos
