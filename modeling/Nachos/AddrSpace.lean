import Nachos.Machine
import Nachos.TransitionRuns

/-!
# Address spaces

An address space is constructed from an executable file: it takes one frame from
the frame bitmap for each of its pages, and its program is copied to the swap
file.  Page tables are arrays in the kernel heap; the machine points to the one
of the address space it runs.
-/

namespace Nachos

open LittleEndianWords ByteStore TransitionRuns

def userStackSize : CInt := 1024

def noffMagic : CInt := 0xbadfad

structure Segment where
  virtualAddr : CInt
  inFileAddr : CInt
  size : CInt
  deriving DecidableEq, Repr

structure NoffHeader where
  noffMagic : CInt
  code : Segment
  initData : Segment
  uninitData : Segment
  deriving DecidableEq, Repr

namespace NoffHeader

/-- `sizeof(NoffHeader)`. -/
def bytes : Nat := 40

def segmentAt (data : List Byte) (offset : Nat) : Segment where
  virtualAddr := wordAt data offset
  inFileAddr := wordAt data (offset + 4)
  size := wordAt data (offset + 8)

/-- The header whose bytes these are.  The host is little endian, so that
`SwapHeader` is never needed. -/
def ofBytes (data : List Byte) : NoffHeader where
  noffMagic := wordAt data 0
  code := segmentAt data 4
  initData := segmentAt data 16
  uninitData := segmentAt data 28

/-- The size of the address space, an `unsigned int`. -/
def size (noffH : NoffHeader) : Nat :=
  (noffH.code.size + noffH.initData.size + noffH.uninitData.size + userStackSize).toNat

/-- `divRoundUp(size, PageSize)`. -/
def realNumPages (noffH : NoffHeader) : Nat :=
  noffH.size / pageSize + if noffH.size % pageSize > 0 then 1 else 0

def numPages (noffH : NoffHeader) : Nat :=
  if noffH.realNumPages > numPhysPages then numPhysPages else noffH.realNumPages

end NoffHeader

/-- `pageTable` points to the page table in the kernel heap. -/
structure AddrSpace where
  pageTable : Option Nat
  numPages : Nat
  realNumPages : Nat
  deriving DecidableEq, Repr

/-- The machine and the kernel structures behind it.  Address spaces and page
tables are objects in the kernel heap; `allocated` counts them, and a deleted
object is `none`.  `current` is the address space of the current thread. -/
structure UserSystem where
  machine : Machine
  bitmap : BitMap memorySize
  tables : Nat → Option (List TranslationEntry)
  spaces : Nat → Option AddrSpace
  allocated : Nat
  current : Option Nat

/-- An executable, and the memory where `AddrSpace::AddrSpace` reads its
header. -/
structure Program where
  executable : UnixFile
  stack : Nat → Byte

namespace Program

/-- The bytes of `noffH` after they were read from the executable. -/
def headerBytes (program : Program) : List Byte :=
  segment (overwrite program.stack 0
    (ByteStore.File.read program.executable 0 NoffHeader.bytes)) 0 NoffHeader.bytes

def header (program : Program) : NoffHeader :=
  NoffHeader.ofBytes program.headerBytes

end Program

/-- The entry of page `virtualPage` in a new page table. -/
def TranslationEntry.fresh (virtualPage : Nat) (physicalPage : Int) :
    TranslationEntry where
  virtualPage := virtualPage
  physicalPage := physicalPage
  valid := true
  readOnly := false
  use := false
  dirty := false
  nruN := 0

/-- `*pointer` for a pointer to an object in the kernel heap. -/
def dereference {α : Type} (object : Option α) : Except Fault α :=
  match object with
  | some value => .ok value
  | none => .error .outOfBounds

namespace Machine

/-- The loop that copies the executable to the swap file, `sizeof(noffH)` bytes
at a time; the first part that is shorter is the last. -/
def copyExecutable (machine : Machine) (executable : UnixFile) :
    Except Fault UnixFile :=
  (List.range (executable.length / NoffHeader.bytes + 1)).foldlM
    (fun swap round => do
      let swapOffset : Nat := NoffHeader.bytes * round
      let data ← executable.readAt NoffHeader.bytes (wrapInt swapOffset)
      swap.writeAt data (wrapInt (machine.lastVpn * pageSize + swapOffset)))
    machine.swap

/-- `bzero(machine->mainMemory, size)`. -/
def zeroMemory (machine : Machine) (size : Nat) : Except Fault Machine :=
  if size ≤ memorySize then
    .ok { machine with
      mainMemory := fun address =>
        if address < size then 0 else machine.mainMemory address }
  else .error .outOfBounds

/-- The memory is cleared only when the first page is frame 0. -/
def zeroFirst (machine : Machine) (noffH : NoffHeader)
    (firstPhysicalPage : Option Int) : Except Fault Machine :=
  if firstPhysicalPage = some 0 then
    machine.zeroMemory (noffH.realNumPages * pageSize % 2 ^ 32)
  else .ok machine

/-- `machine->swap->ReadAt(&machine->mainMemory[address], ...)`. -/
def readSwapInto (machine : Machine) (address : Int) (numBytes : Nat)
    (position : Int) : Except Fault Machine := do
  let data ← machine.swap.readAt numBytes position
  if data.isEmpty then .ok machine
  else if 0 ≤ address ∧ address + data.length ≤ memorySize then
    .ok { machine with
      mainMemory := overwrite machine.mainMemory address.toNat data }
  else .error .outOfBounds

/-- The code or the initialised data is read from its copy in the swap file. -/
def loadSegment (machine : Machine) (part : Segment) : Except Fault Machine :=
  if part.size.toInt > 0 then
    machine.readSwapInto (wrapInt (part.virtualAddr.toInt + machine.lastVpn * pageSize))
      part.size.toNat (wrapInt (part.inFileAddr.toInt + machine.lastVpn * pageSize))
  else .ok machine

/-- `machine->noffCodeOffset` is set when there is code to load. -/
def setCodeOffset (machine : Machine) (code : Segment) : Machine :=
  if code.size.toInt > 0 then
    { machine with
      noffCodeOffset := wrapInt (code.virtualAddr.toInt - code.inFileAddr.toInt) }
  else machine

/-- The part of the constructor that is compiled only with `USE_SWAP`. -/
def loadFromSwap (machine : Machine) (useSwap : Bool) (noffH : NoffHeader) :
    Except Fault Machine :=
  if useSwap then do
    let machine ← (machine.setCodeOffset noffH.code).loadSegment noffH.code
    machine.loadSegment noffH.initData
  else .ok machine

/-- Everything that the constructor does to the machine: the swap file gets the
header and the program, the memory is cleared when the first page is frame 0,
and with `USE_SWAP` the program is loaded. -/
def loadProgram (useSwap : Bool) (machine : Machine) (program : Program)
    (firstPhysicalPage : Option Int) : Except Fault Machine := do
  let noffH := program.header
  let swap ← machine.swap.writeAt program.headerBytes (wrapInt (machine.lastVpn * pageSize))
  let swap ← { machine with swap := swap }.copyExecutable program.executable
  let machine ← { machine with swap := swap }.zeroFirst noffH firstPhysicalPage
  let machine ← machine.loadFromSwap useSwap noffH
  return { machine with lastVpn := wrapInt (machine.lastVpn + noffH.numPages) }

end Machine

namespace UserSystem

/-- `AddrSpace::AddrSpace`.  The address of the new object is returned. -/
def construct (useSwap : Bool) (sys : UserSystem) (program : Program) :
    Except Fault (Nat × UserSystem) := do
  let noffH := program.header
  if noffH.noffMagic ≠ noffMagic then .error .assertion
  else do
    let (frames, bitmap) := sys.bitmap.findEach noffH.numPages
    let machine ← sys.machine.loadProgram useSwap program frames.head?
    let created := sys.allocated
    return (created, { sys with
      machine := machine
      bitmap := bitmap
      tables := Function.update sys.tables created
        (some (frames.mapIdx TranslationEntry.fresh))
      spaces := Function.update sys.spaces created
        (some ⟨some created, noffH.numPages, noffH.realNumPages⟩)
      allocated := created + 1 })

/-- The page table that a pointer points to, with its address. -/
def pageTableAt (sys : UserSystem) (pointer : Option Nat) :
    Except Fault (Nat × List TranslationEntry) := do
  let address ← dereference pointer
  let table ← dereference (sys.tables address)
  return (address, table)

/-- The loop of the destructor: `bitmap->Clear(pageTable[i].physicalPage)`. -/
def clearFrames (bitmap : BitMap memorySize) (table : List TranslationEntry) :
    Except Fault (BitMap memorySize) :=
  table.foldlM (fun bitmap entry => bitmap.clear entry.physicalPage) bitmap

/-- `AddrSpace::~AddrSpace`, as part of `delete`.  The caller no longer uses the
address space. -/
def destroy (sys : UserSystem) (id : Nat) : Except Fault UserSystem := do
  let space ← dereference (sys.spaces id)
  let (address, table) ← sys.pageTableAt space.pageTable
  if table.length < space.numPages then .error .outOfBounds
  else do
    let bitmap ← clearFrames sys.bitmap (table.take space.numPages)
    return { sys with
      bitmap := bitmap
      tables := Function.update sys.tables address none
      spaces := Function.update sys.spaces id none
      current := if sys.current = some id then none else sys.current }

/-- `AddrSpace::SaveState`. -/
def saveState (sys : UserSystem) (id : Nat) : Except Fault UserSystem := do
  let space ← dereference (sys.spaces id)
  return { sys with
    spaces := Function.update sys.spaces id
      (some { space with pageTable := sys.machine.pageTable }) }

/-- `AddrSpace::RestoreState`. -/
def restoreState (sys : UserSystem) (id : Nat) : Except Fault UserSystem := do
  let space ← dereference (sys.spaces id)
  return { sys with
    machine := { sys.machine with
      pageTable := space.pageTable
      pageTableSize := space.numPages } }

/-- `if(bitmap->Test(vpn)) bitmap->Mark(vpn)`: only a marked bit is marked. -/
def markAgain {numBits : Nat} (bitmap : BitMap numBits) (vpn : Nat) :
    Except Fault (BitMap numBits) := do
  let marked ← bitmap.test vpn
  if marked then bitmap.mark vpn else .ok bitmap

/-- `AddrSpace::SwitchPageTable`. -/
def switchPageTable (sys : UserSystem) (id : Nat) (frameNum : Nat) :
    Except Fault UserSystem := do
  let space ← dereference (sys.spaces id)
  let (address, table) ← sys.pageTableAt space.pageTable
  let entry ← dereference table[frameNum]?
  let vpn := sys.machine.vpn
  let bitmap ← markAgain sys.bitmap vpn
  -- `ASSERT(pageTable[frameNum].physicalPage != -1)` holds: a page number is
  -- not negative.
  let bitmap ← bitmap.clear entry.physicalPage
  return { sys with
    bitmap := bitmap
    tables := Function.update sys.tables address
      (some (table.set frameNum { entry with
        physicalPage := vpn
        virtualPage := vpn
        valid := true
        use := false
        dirty := false
        readOnly := false })) }

end UserSystem

end Nachos
