import Nachos.Directory
import Nachos.FileHeaderAllocate
import Nachos.OpenFile

/-!
# The file system

The free map and the directory are kept in two files whose headers are at fixed
sectors.  Every operation reads what it needs of them, changes its copy in
memory, and writes it back when all went well.  A session is a file system
together with the files that were opened on it.
-/

namespace Nachos

open LittleEndianWords

namespace BitMap

variable {numBits : Nat}

def toBytes (bits : BitMap numBits) : List Byte :=
  encodeWords bits.map.toList

def ofBytes (numBits : Nat) (bytes : List Byte) : BitMap numBits :=
  ⟨Vector.ofFn fun index => wordAt bytes (4 * index.val)⟩

/-- `numWords * sizeof(unsigned)`. -/
def byteCount (numBits : Nat) : Nat :=
  4 * wordCount numBits

def fetchFrom (bits : BitMap numBits) (file : OpenFile) (disk : Disk) :
    Except Fault (BitMap numBits) :=
  (file.readAt disk (BitVec.ofNat 32 (byteCount numBits)) 0).map fun bytes =>
    ofBytes numBits (bytes ++ bits.toBytes.drop bytes.length)

def writeBack (bits : BitMap numBits) (file : OpenFile) (memory : Memory)
    (disk : Disk) : Except Fault Disk :=
  (file.writeAt memory disk bits.toBytes (BitVec.ofNat 32 (byteCount numBits)) 0).map
    Prod.snd

@[simp]
theorem length_toBytes (bits : BitMap numBits) :
    bits.toBytes.length = byteCount numBits := by
  simp [toBytes, byteCount]

theorem ofBytes_toBytes (bits : BitMap numBits) :
    ofBytes numBits bits.toBytes = bits :=
  congrArg BitMap.mk (ofFn_wordAt_encodeWords bits.map)

end BitMap

namespace Directory

variable {tableSize : Nat}

/-- `tableSize * sizeof(DirectoryEntry)`. -/
def byteCount (tableSize : Nat) : Nat :=
  tableSize * DirectoryEntry.size

def fetchFrom (directory : Directory tableSize) (file : OpenFile) (disk : Disk) :
    Except Fault (Directory tableSize) :=
  (file.readAt disk (BitVec.ofNat 32 (byteCount tableSize)) 0).map fun bytes =>
    ofBytes tableSize (bytes ++ directory.toBytes.drop bytes.length)

def writeBack (directory : Directory tableSize) (file : OpenFile) (memory : Memory)
    (disk : Disk) : Except Fault Disk :=
  (file.writeAt memory disk directory.toBytes
    (BitVec.ofNat 32 (byteCount tableSize)) 0).map Prod.snd

end Directory

def freeMapSector : Nat := 0

def directorySector : Nat := 1

def bitsInByte : Nat := 8

def freeMapFileSize : Nat := Disk.numSectors / bitsInByte

def numDirEntries : Nat := 10

def directoryFileSize : Nat := DirectoryEntry.size * numDirEntries

/-- The contents of the memory that one operation allocates: file headers,
directory entries, words of a bitmap, and buffers. -/
structure Heap where
  header : Nat → FileHeader
  entries : Vector DirectoryEntry numDirEntries
  words : Vector Word (BitMap.wordCount Disk.numSectors)
  buffer : Nat → Memory

/-- Fresh memory that is all zeros. -/
def Heap.blank : Heap where
  header _ := FileHeader.blank
  entries := Vector.replicate numDirEntries
    ⟨false, Vector.replicate _ 0, 0, Vector.replicate _ 0, Vector.replicate _ 0,
      Vector.replicate _ 0⟩
  words := Vector.replicate _ 0
  buffer _ _ := 0

structure FileSystem where
  disk : Disk
  freeMapFile : OpenFile
  directoryFile : OpenFile

namespace FileSystem

/-- `ASSERT(hdr->Allocate(freeMap, fileSize))`. -/
def assertAllocate (header : FileHeader) (freeMap : BitMap Disk.numSectors)
    (fileSize : Nat) (disk : Disk) :
    Except Fault (FileHeader × BitMap Disk.numSectors × Disk) := do
  let (success, header, freeMap, disk) ←
    header.allocate freeMap (BitVec.ofNat 32 fileSize) disk
  if success then .ok (header, freeMap, disk) else .error .assertion

/-- `FileSystem(TRUE)`. -/
def format (heap : Heap) (disk : Disk) : Except Fault FileSystem := do
  let freeMap ← (BitMap.new heap.words).mark freeMapSector
  let freeMap ← freeMap.mark directorySector
  let (mapHdr, freeMap, disk) ← assertAllocate (heap.header 0) freeMap freeMapFileSize disk
  let (dirHdr, freeMap, disk) ← assertAllocate (heap.header 1) freeMap directoryFileSize disk
  let disk ← mapHdr.writeBack disk freeMapSector
  let disk ← dirHdr.writeBack disk directorySector
  let freeMapFile ← OpenFile.new (heap.header 2) disk freeMapSector
  let directoryFile ← OpenFile.new (heap.header 3) disk directorySector
  let disk ← freeMap.writeBack freeMapFile (heap.buffer 0) disk
  let disk ← (Directory.new heap.entries).writeBack directoryFile (heap.buffer 1) disk
  .ok ⟨disk, freeMapFile, directoryFile⟩

/-- `FileSystem(FALSE)`. -/
def mount (heap : Heap) (disk : Disk) : Except Fault FileSystem := do
  let freeMapFile ← OpenFile.new (heap.header 2) disk freeMapSector
  let directoryFile ← OpenFile.new (heap.header 3) disk directorySector
  .ok ⟨disk, freeMapFile, directoryFile⟩

/-- `new Directory(NumDirEntries)` and `FetchFrom(directoryFile)`. -/
def fetchDirectory (system : FileSystem) (heap : Heap) :
    Except Fault (Directory numDirEntries) :=
  (Directory.new heap.entries).fetchFrom system.directoryFile system.disk

/-- `new BitMap(NumSectors)` and `FetchFrom(freeMapFile)`. -/
def fetchFreeMap (system : FileSystem) (heap : Heap) :
    Except Fault (BitMap Disk.numSectors) :=
  (BitMap.new heap.words).fetchFrom system.freeMapFile system.disk

/-- `Create` from the allocation of the header on. -/
def createAt (system : FileSystem) (heap : Heap) (initialSize : CInt) (sector : CInt)
    (freeMap : BitMap Disk.numSectors) (directory : Directory numDirEntries) :
    Except Fault (Bool × FileSystem) := do
  let (success, hdr, freeMap, disk) ←
    (heap.header 0).allocate freeMap initialSize system.disk
  if success then
    let disk ← hdr.writeBack disk sector.toInt
    let disk ← directory.writeBack system.directoryFile (heap.buffer 0) disk
    let disk ← freeMap.writeBack system.freeMapFile (heap.buffer 1) disk
    .ok (true, { system with disk := disk })
  else .ok (false, { system with disk := disk })

def create (system : FileSystem) (heap : Heap) (name : CString) (initialSize : CInt) :
    Except Fault (Bool × FileSystem) := do
  let directory ← system.fetchDirectory heap
  if directory.find name ≠ -1 then .ok (false, system)
  else do
    let freeMap ← system.fetchFreeMap heap
    let (sector, freeMap) := freeMap.find
    if sector = -1 then .ok (false, system)
    else
      let (added, directory) := directory.add name (BitVec.ofInt 32 sector)
      if added then
        createAt system heap initialSize (BitVec.ofInt 32 sector) freeMap directory
      else .ok (false, system)

/-- The result is the opened file, unless `NULL` is returned. -/
def «open» (system : FileSystem) (heap : Heap) (name : CString) :
    Except Fault (Option OpenFile) := do
  let directory ← system.fetchDirectory heap
  let sector := directory.find name
  if 0 ≤ sector.toInt then
    let file ← OpenFile.new (heap.header 0) system.disk sector.toInt
    .ok (some file)
  else .ok none

def remove (system : FileSystem) (heap : Heap) (name : CString) :
    Except Fault (Bool × FileSystem) := do
  let directory ← system.fetchDirectory heap
  let sector := directory.find name
  if sector = -1 then .ok (false, system)
  else do
    let fileHdr ← (heap.header 0).fetchFrom system.disk sector.toInt
    let freeMap ← system.fetchFreeMap heap
    let freeMap ← fileHdr.deallocate freeMap system.disk
    let freeMap ← freeMap.clear sector.toInt
    let (_, directory) := directory.remove name
    let disk ← freeMap.writeBack system.freeMapFile (heap.buffer 0) system.disk
    let disk ← directory.writeBack system.directoryFile (heap.buffer 1) disk
    .ok (true, { system with disk := disk })

end FileSystem

/-- An open file, with the sector of its header and whether the file was removed
since it was opened; the last two are not part of the program. -/
structure Handle where
  file : OpenFile
  sector : CInt
  removed : Bool

structure Session where
  system : FileSystem
  handles : List Handle

/-- The operations of a user of the file system. -/
inductive Request where
  | create (name : CString) (initialSize : CInt) (heap : Heap)
  | «open» (name : CString) (heap : Heap)
  | remove (name : CString) (heap : Heap)
  | seek (handle : Nat) (position : CInt)
  | read (handle : Nat) (numBytes : CInt)
  | write (handle : Nat) (data : List Byte) (numBytes : CInt) (memory : Memory)
  | readAt (handle : Nat) (numBytes position : CInt)
  | writeAt (handle : Nat) (data : List Byte) (numBytes position : CInt) (memory : Memory)

namespace Session

/-- Access through a handle that does not exist is a wild pointer. -/
def handleAt (session : Session) (handle : Nat) : Except Fault Handle :=
  match session.handles[handle]? with
  | some found => .ok found
  | none => .error .outOfBounds

def setFile (session : Session) (handle : Nat) (found : Handle) (file : OpenFile) :
    Session :=
  { session with handles := session.handles.set handle { found with file := file } }

def setDisk (session : Session) (disk : Disk) : Session :=
  { session with system := { session.system with disk := disk } }

/-- The handles after the file whose header is at `sector` was removed. -/
def forget (handles : List Handle) (sector : CInt) : List Handle :=
  handles.map fun handle =>
    { handle with removed := handle.removed || handle.sector == sector }

def step (session : Session) : Request → Except Fault Session
  | .create name initialSize heap => do
      let (_, system) ← session.system.create heap name initialSize
      .ok { session with system := system }
  | .open name heap => do
      let directory ← session.system.fetchDirectory heap
      let opened ← session.system.open heap name
      match opened with
      | some file =>
          .ok { session with
            handles := session.handles ++ [⟨file, directory.find name, false⟩] }
      | none => .ok session
  | .remove name heap => do
      let directory ← session.system.fetchDirectory heap
      let (removed, system) ← session.system.remove heap name
      .ok {
        system := system
        handles :=
          if removed then forget session.handles (directory.find name)
          else session.handles }
  | .seek handle position => do
      let found ← session.handleAt handle
      .ok (session.setFile handle found (found.file.seek position))
  | .read handle numBytes => do
      let found ← session.handleAt handle
      let (_, file) ← found.file.read session.system.disk numBytes
      .ok (session.setFile handle found file)
  | .write handle data numBytes memory => do
      let found ← session.handleAt handle
      let (_, disk, file) ← found.file.write memory session.system.disk data numBytes
      .ok ((session.setFile handle found file).setDisk disk)
  | .readAt handle numBytes position => do
      let found ← session.handleAt handle
      let _ ← found.file.readAt session.system.disk numBytes position
      .ok session
  | .writeAt handle data numBytes position memory => do
      let found ← session.handleAt handle
      let (_, disk) ← found.file.writeAt memory session.system.disk data numBytes position
      .ok (session.setDisk disk)

end Session

end Nachos
