import Nachos.BitMap
import Nachos.ByteStore

/-!
# The simulated machine

This file models the hardware that runs user programs in the builds with
`USE_TLB` and the stub file system: the translation buffer, the main memory, and
the swap file, which is a UNIX file.  Registers play no role in address
translation and are left out.
-/

namespace Nachos

open LittleEndianWords ByteStore

def pageSize : Nat := Disk.sectorSize

def numPhysPages : Nat := 32

def memorySize : Nat := numPhysPages * pageSize

def tlbSize : Nat := 4

/-- An entry of a page table or of the translation buffer. -/
structure TranslationEntry where
  virtualPage : Nat
  physicalPage : Int
  valid : Bool
  readOnly : Bool
  use : Bool
  dirty : Bool
  nruN : Nat
  deriving DecidableEq, Repr

/-- The exceptions of memory accesses. -/
inductive ExceptionType where
  | pageFault
  | tlbPageFault
  | ptePageFault
  | readOnly
  | busError
  | addressError
  deriving DecidableEq, Repr

/-- A `TranslationEntry *`: into the translation buffer, or into the page table
at some address. -/
inductive EntryPointer where
  | tlb (slot : Fin tlbSize)
  | page (table : Nat) (index : Nat)
  deriving DecidableEq, Repr

/-- A UNIX file, opened by the stub file system. -/
abbrev UnixFile := ByteStore.File Byte

namespace UnixFile

/-- `Lseek(file, position, 0)`. -/
def lseek (position : Int) : Except Fault Nat :=
  if 0 ≤ position then .ok position.toNat else .error .assertion

/-- `OpenFile::ReadAt` of the stub: the bytes that are there. -/
def readAt (file : UnixFile) (numBytes : Nat) (position : Int) :
    Except Fault (List Byte) :=
  (lseek position).map fun offset => ByteStore.File.read file offset numBytes

/-- `OpenFile::WriteAt` of the stub.  UNIX fills a gap with zeros. -/
def writeAt (file : UnixFile) (data : List Byte) (position : Int) :
    Except Fault UnixFile :=
  (lseek position).map fun offset => ByteStore.File.write file 0 offset data

end UnixFile

/-- The value of an `int` computation. -/
def wrapInt (value : Int) : Int :=
  value.bmod (2 ^ 32)

structure Machine where
  tlb : Fin tlbSize → TranslationEntry
  pageTable : Option Nat
  pageTableSize : Nat
  vpn : Nat
  offset : Nat
  entry : Option EntryPointer
  pageTableFrame : Nat
  mainMemory : Nat → Byte
  disk : Nat → Byte
  swap : UnixFile
  noffCodeOffset : Int
  lastVpn : Int

namespace Machine

/-- The position in the swap file of an address beyond the main memory. -/
def swapPosition (machine : Machine) (physicalAddress : Int) : Int :=
  wrapInt (physicalAddress - machine.noffCodeOffset)

/-- The bytes that `ReadMem` takes from a physical address.  Bytes of the swap
file pass through the buffer `disk`, which keeps its old bytes when the file is
too short. -/
def fetch (machine : Machine) (physicalAddress : Int) (size : Nat) :
    Except Fault (List Byte × Machine) :=
  if (memorySize : Int) ≤ physicalAddress then
    (machine.swap.readAt size (machine.swapPosition physicalAddress)).map fun data =>
      let disk := overwrite machine.disk 0 data
      (segment disk 0 size, { machine with disk := disk })
  else if 0 ≤ physicalAddress ∧ physicalAddress + size ≤ memorySize then
    .ok (segment machine.mainMemory physicalAddress.toNat size, machine)
  else .error .outOfBounds

/-- What `WriteMem` does at a physical address.  For the swap file, every case
of the source assigns only the first byte of the buffer. -/
def store (machine : Machine) (physicalAddress : Int) (size : Nat) (value : CInt) :
    Except Fault Machine :=
  if (memorySize : Int) ≤ physicalAddress then
    let disk := overwrite machine.disk 0 [UInt8.ofNat value.toNat]
    (machine.swap.writeAt (segment disk 0 size)
      (machine.swapPosition physicalAddress)).map fun swap =>
        { machine with disk := disk, swap := swap }
  else if 0 ≤ physicalAddress ∧ physicalAddress + size ≤ memorySize then
    .ok { machine with
      mainMemory := overwrite machine.mainMemory physicalAddress.toNat
        ((wordBytes value).take size) }
  else .error .outOfBounds

/-- The `int` that `ReadMem` makes of the bytes: a `char` is signed, an
`unsigned short` and an `unsigned int` are not. -/
def loadedValue (data : List Byte) : CInt :=
  if data.length = 1 then ((wordAt data 0).setWidth 8).signExtend 32
  else wordAt data 0

end Machine

end Nachos
