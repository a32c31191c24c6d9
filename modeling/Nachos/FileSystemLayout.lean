import Nachos.ExclusiveOwnership
import Nachos.FileHeaderRoundTrip
import Nachos.FileSystem
import Nachos.OpenFileContents

/-!
# The layout of the disk

The sectors in use belong to the boot headers, to the free map file, to the
directory file, or to the entries of the directory: each entry in use owns its
header sector and its data sectors.  The layout says that this ownership is
exclusive, that the free map marks exactly the sectors owned, and that the
headers and the two system files on the disk record it.
-/

namespace Nachos

open ExclusiveOwnership ListSplice LittleEndianWords TransitionRuns

namespace FileHeader

/-- The header describes a file in the listed sectors, one for each block. -/
structure Holds (header : FileHeader) (sectors : List SectorNumber) : Prop
    extends header.Direct sectors where
  nonnegative : 0 ≤ header.fileLength.toInt
  blocks : sectors.length =
    (header.fileLength.toInt.toNat + Disk.sectorSize - 1) / Disk.sectorSize

/-- The parts of two headers that a sector holds are equal. -/
structure SameFront (first second : FileHeader) : Prop where
  numBytes : first.numBytes = second.numBytes
  numSectors : first.numSectors = second.numSectors
  dataSectors : first.dataSectors = second.dataSectors

variable {header : FileHeader} {disk : Disk} {sectors : List SectorNumber}

theorem Holds.of_sameFront {other : FileHeader} (holds : header.Holds sectors)
    (same : SameFront other header) : other.Holds sectors where
  length_le := holds.length_le
  numSectors := same.numSectors.trans holds.numSectors
  dataSectors index inside within := by
    simp only [same.dataSectors]
    exact holds.dataSectors index inside within
  nonnegative := by
    simp only [fileLength, same.numBytes]
    exact holds.nonnegative
  blocks := by
    simp only [fileLength, same.numBytes]
    exact holds.blocks

theorem Holds.maps (holds : header.Holds sectors) (distinct : sectors.Nodup)
    (disk : Disk) : header.Maps disk sectors := by
  apply holds.toDirect.maps distinct
  have nonnegative := holds.nonnegative
  have blocks := holds.blocks
  simp only [Disk.sectorSize] at blocks ⊢
  omega

/-- Two overlays of the same sector agree on what the sector holds. -/
theorem sameFront_ofBytes (sector : Sector) (first second : List Byte) :
    SameFront (ofBytes (sector.bytes ++ first)) (ofBytes (sector.bytes ++ second)) := by
  have read : ∀ {offset : Nat}, offset + 4 ≤ Disk.sectorSize →
      wordAt (sector.bytes ++ first) offset = wordAt (sector.bytes ++ second) offset := by
    intro offset inside
    rw [wordAt_append_left _ _ (by simpa using inside),
      wordAt_append_left _ _ (by simpa using inside)]
  constructor
  · exact read (by decide)
  · exact read (by decide)
  · apply Vector.ext
    intro index inside
    simp only [ofBytes, Vector.getElem_ofFn]
    apply read
    simp only [numDirect, Disk.sectorSize] at inside ⊢
    omega

end FileHeader

/-- The header in a sector of the disk, as far as the sector holds it. -/
def Disk.headerAt (disk : Disk) (sector : Nat) : FileHeader :=
  FileHeader.ofBytes
    ((disk sector).bytes ++ FileHeader.blank.toBytes.drop Disk.sectorSize)

namespace FileHeader

theorem fetchFrom_sameFront (memory : FileHeader) (disk : Disk) {sector : Nat}
    (onDisk : sector < Disk.numSectors) :
    ∃ loaded, memory.fetchFrom disk sector = .ok loaded ∧
      SameFront loaded (disk.headerAt sector) := by
  refine ⟨_, ?_, sameFront_ofBytes (disk sector) (memory.toBytes.drop Disk.sectorSize) _⟩
  rw [fetchFrom, Disk.readSector_of_lt disk onDisk]
  rfl

theorem writeBack_headerAt (header : FileHeader) (disk : Disk) {sector : Nat}
    (onDisk : sector < Disk.numSectors) :
    ∃ written : Sector, header.writeBack disk sector =
        .ok (Function.update disk sector written) ∧
      ∀ after : Disk, after sector = written →
        SameFront (after.headerAt sector) header := by
  refine ⟨_, Disk.writeSector_of_lt disk onDisk header.sectorSize_le_length_toBytes, ?_⟩
  intro after stored
  have loaded : after.headerAt sector = overlay blank header := by
    rw [Disk.headerAt, stored, Sector.bytes_ofBytes, ← toBytes_overlay, ofBytes_toBytes]
  rw [loaded]
  exact ⟨rfl, rfl, rfl⟩

end FileHeader

/-- A system file: its header is on the disk, it is open, and it holds the given
bytes. -/
structure SystemFile (disk : Disk) (sector : Nat) (file : OpenFile)
    (sectors : List SectorNumber) (bytes : List Byte) : Prop where
  header : (disk.headerAt sector).Holds sectors
  opened : file.hdr.SameFront (disk.headerAt sector)
  distinct : sectors.Nodup
  contents : file.hdr.contents disk sectors = bytes

namespace SystemFile

variable {disk after : Disk} {sector : Nat} {file : OpenFile}
  {sectors : List SectorNumber} {bytes : List Byte}

theorem maps (stored : SystemFile disk sector file sectors bytes) :
    file.hdr.Maps disk sectors :=
  (stored.header.of_sameFront stored.opened).maps stored.distinct disk

theorem length_eq (stored : SystemFile disk sector file sectors bytes) :
    file.hdr.fileLength.toInt = bytes.length := by
  have length := FileHeader.length_contents stored.maps
  have holds := stored.header.of_sameFront stored.opened
  have nonnegative := holds.nonnegative
  rw [stored.contents] at length
  omega

/-- The length of the file is an `int`. -/
theorem toInt_length (stored : SystemFile disk sector file sectors bytes) :
    (BitVec.ofNat 32 bytes.length).toInt = bytes.length := by
  have length := stored.length_eq
  have bound := file.hdr.fileLength.toInt_lt
  exact CInt.toInt_ofNat_of_lt (by omega)

/-- The file stays as it is when neither its header nor its data change. -/
theorem of_unchanged (stored : SystemFile disk sector file sectors bytes)
    (header : after sector = disk sector)
    (data : ∀ member ∈ sectors, after member.val = disk member.val) :
    SystemFile after sector file sectors bytes := by
  have same : after.headerAt sector = disk.headerAt sector := by
    simp only [Disk.headerAt, header]
  refine ⟨same ▸ stored.header, same ▸ stored.opened, stored.distinct, ?_⟩
  rw [← stored.contents, FileHeader.contents, FileHeader.contents, Disk.blocks,
    Disk.blocks]
  congr 1
  apply List.flatMap_congr
  intro member inFile
  rw [data member inFile]

theorem readAt_all (stored : SystemFile disk sector file sectors bytes) :
    file.readAt disk (BitVec.ofNat 32 bytes.length) 0 = .ok bytes := by
  have length := stored.length_eq
  have bound := file.hdr.fileLength.toInt_lt
  have request := stored.toInt_length
  have read := OpenFile.readAt_eq stored.maps 0
    (show (0 : Nat) + (BitVec.ofNat 32 bytes.length).toInt < 2 ^ 31 by omega)
  rw [request, stored.contents] at read
  simpa using read

/-- Writing as many bytes as the file holds replaces its contents. -/
theorem writeAt_all (stored : SystemFile disk sector file sectors bytes)
    (outside : ∀ member ∈ sectors, member.val ≠ sector) (memory : Memory)
    {data : List Byte} (size : data.length = bytes.length) :
    ∃ (count : CInt) (after : Disk),
      file.writeAt memory disk data (BitVec.ofNat 32 bytes.length) 0 = .ok (count, after) ∧
        disk.AgreeOutside sectors after ∧
        SystemFile after sector file sectors data := by
  have length := stored.length_eq
  have bound := file.hdr.fileLength.toInt_lt
  have request := stored.toInt_length
  obtain ⟨count, after, written, value, agree, contents⟩ :=
    OpenFile.writeAt_eq stored.maps memory 0
      (show (0 : Nat) + (BitVec.ofNat 32 bytes.length).toInt < 2 ^ 31 by omega)
      (by rw [request, size]; exact Int.min_le_left _ _)
  refine ⟨BitVec.ofNat 32 count, after, written, agree, ?_⟩
  have whole : data.take count = data := by
    apply List.take_of_length_le
    omega
  have header : after.headerAt sector = disk.headerAt sector := by
    simp only [Disk.headerAt, agree sector outside]
  refine ⟨header ▸ stored.header, header ▸ stored.opened, stored.distinct, ?_⟩
  rw [contents, whole, stored.contents, splice_all size]

end SystemFile

/-- A directory that is stored in its file is fetched as it is. -/
theorem FileSystem.fetchDirectory_eq {system : FileSystem}
    {directory : Directory numDirEntries} {sectors : List SectorNumber}
    (stored : SystemFile system.disk directorySector system.directoryFile sectors
      directory.toBytes) (heap : Heap) :
    system.fetchDirectory heap = .ok directory := by
  have read := stored.readAt_all
  have size : (Directory.new heap.entries).toBytes.length = directory.toBytes.length := by
    rw [Directory.length_toBytes, Directory.length_toBytes]
  rw [Directory.length_toBytes] at read
  rw [FileSystem.fetchDirectory, Directory.fetchFrom, Directory.byteCount, read, Except.map,
    ← size, List.drop_length, List.append_nil, Directory.ofBytes_toBytes]

theorem FileSystem.fetchFreeMap_eq {system : FileSystem}
    {freeMap : BitMap Disk.numSectors} {sectors : List SectorNumber}
    (stored : SystemFile system.disk freeMapSector system.freeMapFile sectors
      freeMap.toBytes) (heap : Heap) :
    system.fetchFreeMap heap = .ok freeMap := by
  have read := stored.readAt_all
  have size : (BitMap.new heap.words).toBytes.length = freeMap.toBytes.length := by
    rw [BitMap.length_toBytes, BitMap.length_toBytes]
  rw [BitMap.length_toBytes] at read
  rw [FileSystem.fetchFreeMap, BitMap.fetchFrom, read, Except.map, ← size,
    List.drop_length, List.append_nil, BitMap.ofBytes_toBytes]

/-- `Create` gives up before it allocates when the name is there, or no sector or no entry
is left; else it goes on with a clear sector and an entry that was not in use. -/
theorem FileSystem.create_branches {system : FileSystem} {heap : Heap}
    {directory : Directory numDirEntries} {freeMap : BitMap Disk.numSectors}
    (fetching : system.fetchDirectory heap = .ok directory)
    (fetchingMap : system.fetchFreeMap heap = .ok freeMap) (name : CString)
    (initialSize : CInt) :
    (system.create heap name initialSize = .ok (false, system) ∧
        ((directory.findIndex name).isSome ∨ directory.freeIndex = none ∨
          freeMap.numClear = 0)) ∨
      ∃ (i : Fin numDirEntries) (sector : SectorNumber),
        directory.findIndex name = none ∧ directory.freeIndex = some i ∧
          freeMap.testBit sector = false ∧
          system.create heap name initialSize =
            system.createAt heap initialSize (pointer sector) (freeMap.markBit sector)
              (directory.set i (directory[i].assign name (pointer sector))) := by
  unfold FileSystem.create
  simp only [fetching, fetchingMap, ok_bind]
  by_cases present : directory.find name ≠ -1
  · refine Or.inl ⟨if_pos present, Or.inl ?_⟩
    by_contra missing
    rw [Option.not_isSome_iff_eq_none] at missing
    exact present (by rw [Directory.find, missing])
  rw [if_neg present]
  cases first : freeMap.firstClear with
  | none =>
      refine Or.inl ⟨by rw [BitMap.find_of_full first]; rfl, Or.inr (Or.inr ?_)⟩
      by_contra some
      obtain ⟨found, isFound⟩ := BitMap.firstClear_isSome_of_pos (Nat.pos_of_ne_zero some)
      rw [first] at isFound
      cases isFound
  | some sector =>
      have found : ((sector.val : Int) = -1) = False := by
        simp only [eq_iff_iff, iff_false]
        omega
      have address : BitVec.ofInt 32 (sector.val : Int) = pointer sector :=
        BitVec.ofInt_natCast _ _
      rw [BitMap.find_of_firstClear first]
      simp only [found, if_false, address]
      cases absent : directory.findIndex name with
      | some i => exact Or.inl ⟨by simp [Directory.add, absent], Or.inl rfl⟩
      | none =>
          cases free : directory.freeIndex with
          | none => exact Or.inl ⟨by simp [Directory.add, absent, free], Or.inr (Or.inl rfl)⟩
          | some i =>
              have added : directory.add name (pointer sector) =
                  (true, directory.set i (directory[i].assign name (pointer sector))) := by
                simp [Directory.add, absent, free]
              rw [added]
              exact Or.inr ⟨i, sector, rfl, rfl, BitMap.testBit_firstClear first, rfl⟩

theorem FileSystem.create_cases {system : FileSystem} {heap : Heap}
    {directory : Directory numDirEntries} {freeMap : BitMap Disk.numSectors}
    (fetching : system.fetchDirectory heap = .ok directory)
    (fetchingMap : system.fetchFreeMap heap = .ok freeMap) (name : CString)
    (initialSize : CInt) :
    system.create heap name initialSize = .ok (false, system) ∨
      ∃ (i : Fin numDirEntries) (sector : SectorNumber),
        directory.findIndex name = none ∧ directory[i].inUse = false ∧
          freeMap.testBit sector = false ∧
          system.create heap name initialSize =
            system.createAt heap initialSize (pointer sector) (freeMap.markBit sector)
              (directory.set i (directory[i].assign name (pointer sector))) := by
  rcases FileSystem.create_branches fetching fetchingMap name initialSize with
    ⟨refused, -⟩ | ⟨i, sector, absent, free, clear, goesOn⟩
  · exact Or.inl refused
  · exact Or.inr ⟨i, sector, absent, Directory.freeIndex_not_inUse free, clear, goesOn⟩

namespace SystemFile

variable {disk : Disk} {sector : Nat} {file : OpenFile} {sectors : List SectorNumber}
  {bytes : List Byte}

/-- Only the data of the directory file change when it is written. -/
theorem writeDirectory (stored : SystemFile disk sector file sectors bytes)
    (size : bytes.length = Directory.byteCount numDirEntries)
    (outside : ∀ member ∈ sectors, member.val ≠ sector)
    (directory : Directory numDirEntries) (memory : Memory) :
    ∃ after, directory.writeBack file memory disk = .ok after ∧
      disk.AgreeOutside sectors after ∧
      SystemFile after sector file sectors directory.toBytes := by
  have length : directory.toBytes.length = bytes.length := by
    rw [Directory.length_toBytes, size]
    rfl
  obtain ⟨count, after, written, agree, now⟩ := stored.writeAt_all outside memory length
  refine ⟨after, ?_, agree, now⟩
  rw [Directory.writeBack, ← size, written]
  rfl

theorem writeFreeMap (stored : SystemFile disk sector file sectors bytes)
    (size : bytes.length = BitMap.byteCount Disk.numSectors)
    (outside : ∀ member ∈ sectors, member.val ≠ sector)
    (freeMap : BitMap Disk.numSectors) (memory : Memory) :
    ∃ after, freeMap.writeBack file memory disk = .ok after ∧
      disk.AgreeOutside sectors after ∧
      SystemFile after sector file sectors freeMap.toBytes := by
  have length : freeMap.toBytes.length = bytes.length := by
    rw [BitMap.length_toBytes, size]
  obtain ⟨count, after, written, agree, now⟩ := stored.writeAt_all outside memory length
  refine ⟨after, ?_, agree, now⟩
  rw [BitMap.writeBack, ← size, written]
  rfl

end SystemFile

/-- Those who own sectors of the disk. -/
inductive Owner where
  | boot
  | freeMap
  | directory
  | entry (index : Fin numDirEntries)
  deriving DecidableEq

abbrev Holdings := Owner → List SectorNumber

/-- The sectors of the headers of the two system files. -/
def bootSectors : List SectorNumber :=
  [⟨freeMapSector, by decide⟩, ⟨directorySector, by decide⟩]

/-- An entry in use owns its header and the data that the header lists. -/
def EntryHolds (disk : Disk) (entry : DirectoryEntry) (sectors : List SectorNumber) :
    Prop :=
  (entry.inUse = false ∧ sectors = []) ∨
    entry.inUse = true ∧ ∃ header data, sectors = header :: data ∧
      entry.sector = pointer header ∧ (disk.headerAt header.val).Holds data

theorem EntryHolds.of_unchanged {disk after : Disk} {entry : DirectoryEntry}
    {sectors : List SectorNumber} (holds : EntryHolds disk entry sectors)
    (kept : ∀ header, sectors.head? = some header → after header.val = disk header.val) :
    EntryHolds after entry sectors := by
  rcases holds with idle | ⟨inUse, header, data, owned, address, holds⟩
  · exact Or.inl idle
  · have same := kept header (by rw [owned]; rfl)
    refine Or.inr ⟨inUse, header, data, owned, address, ?_⟩
    simpa only [Disk.headerAt, same] using holds

theorem EntryHolds.set {disk : Disk} {directory : Directory numDirEntries}
    {held : Holdings} (entries : ∀ j : Fin numDirEntries,
      EntryHolds disk directory[j] (held (.entry j)))
    {i : Fin numDirEntries} {entry : DirectoryEntry} {sectors : List SectorNumber}
    (holds : EntryHolds disk entry sectors) (j : Fin numDirEntries) :
    EntryHolds disk (directory.set i entry)[j]
      (Function.update held (.entry i) sectors (.entry j)) := by
  by_cases same : j = i
  · subst same
    simpa using holds
  · have different : (Owner.entry j) ≠ .entry i := fun equal =>
      same (Owner.entry.inj equal)
    have places : i.val ≠ j.val := fun equal => same (Fin.ext equal.symm)
    rw [Function.update_of_ne different, Fin.getElem_fin,
      Vector.getElem_set_ne _ _ places]
    exact entries j

/-- The layout while the free map and the directory are changed in memory: the
two files still have the contents `mapBytes` and `dirBytes`. -/
structure Draft (system : FileSystem) (held : Holdings)
    (freeMap : BitMap Disk.numSectors) (directory : Directory numDirEntries)
    (mapBytes dirBytes : List Byte) : Prop where
  ledger : Ledger held freeMap.testBit
  boot : held .boot = bootSectors
  freeMapFile : SystemFile system.disk freeMapSector system.freeMapFile
    (held .freeMap) mapBytes
  directoryFile : SystemFile system.disk directorySector system.directoryFile
    (held .directory) dirBytes
  entries : ∀ i : Fin numDirEntries, EntryHolds system.disk directory[i] (held (.entry i))
  mapSize : mapBytes.length = BitMap.byteCount Disk.numSectors
  dirSize : dirBytes.length = Directory.byteCount numDirEntries

/-- The layout when the free map and the directory are stored. -/
abbrev Layout (system : FileSystem) (held : Holdings)
    (freeMap : BitMap Disk.numSectors) (directory : Directory numDirEntries) : Prop :=
  Draft system held freeMap directory freeMap.toBytes directory.toBytes

/-- The sectors that make up the layout: headers and the two system files. -/
def Metadata (held : Holdings) (sector : SectorNumber) : Prop :=
  sector ∈ held .boot ∨ sector ∈ held .freeMap ∨ sector ∈ held .directory ∨
    ∃ i, (held (.entry i)).head? = some sector

namespace Draft

variable {system : FileSystem} {held : Holdings} {freeMap : BitMap Disk.numSectors}
  {directory : Directory numDirEntries} {mapBytes dirBytes : List Byte}

theorem freeMapSector_held
    (draft : Draft system held freeMap directory mapBytes dirBytes) :
    ⟨freeMapSector, by decide⟩ ∈ held .boot := by
  rw [draft.boot]
  simp [bootSectors]

theorem directorySector_held
    (draft : Draft system held freeMap directory mapBytes dirBytes) :
    ⟨directorySector, by decide⟩ ∈ held .boot := by
  rw [draft.boot]
  simp [bootSectors]

/-- A change of the disk that leaves the metadata alone keeps the layout. -/
theorem of_unchanged (draft : Draft system held freeMap directory mapBytes dirBytes)
    {after : Disk}
    (kept : ∀ sector, Metadata held sector → after sector.val = system.disk sector.val) :
    Draft { system with disk := after } held freeMap directory mapBytes dirBytes where
  ledger := draft.ledger
  boot := draft.boot
  freeMapFile := draft.freeMapFile.of_unchanged
    (kept ⟨freeMapSector, by decide⟩ (Or.inl draft.freeMapSector_held))
    fun member inFile => kept member (Or.inr (Or.inl inFile))
  directoryFile := draft.directoryFile.of_unchanged
    (kept ⟨directorySector, by decide⟩ (Or.inl draft.directorySector_held))
    fun member inFile => kept member (Or.inr (Or.inr (Or.inl inFile)))
  entries i := (draft.entries i).of_unchanged fun header first =>
    kept header (Or.inr (Or.inr (Or.inr ⟨i, first⟩)))
  mapSize := draft.mapSize
  dirSize := draft.dirSize

theorem ne_of_owner_ne (draft : Draft system held freeMap directory mapBytes dirBytes)
    {first second : Owner} (different : first ≠ second) {left right : SectorNumber}
    (inFirst : left ∈ held first) (inSecond : right ∈ held second) :
    left.val ≠ right.val := by
  intro same
  obtain rfl := Fin.ext same
  exact different (draft.ledger.unique inFirst inSecond)

/-- Writing the sectors of one owner leaves those of the others. -/
theorem kept_of_agreeOutside (draft : Draft system held freeMap directory mapBytes dirBytes)
    {writer owner : Owner} {after : Disk} (agree : system.disk.AgreeOutside (held writer) after)
    (different : owner ≠ writer) :
    ∀ sector ∈ held owner, after sector.val = system.disk sector.val := by
  intro sector owned
  apply agree
  intro member inFile
  exact draft.ne_of_owner_ne different.symm inFile owned

/-- The sectors of the free map file hold no other part of the layout, so that
the file can be written. -/
theorem writeFreeMap (draft : Draft system held freeMap directory mapBytes dirBytes)
    (memory : Memory) :
    ∃ after, freeMap.writeBack system.freeMapFile memory system.disk = .ok after ∧
      system.disk.AgreeOutside (held .freeMap) after ∧
      Draft { system with disk := after } held freeMap directory freeMap.toBytes
        dirBytes := by
  obtain ⟨after, written, agree, stored⟩ := draft.freeMapFile.writeFreeMap draft.mapSize
    (fun member inFile => draft.ne_of_owner_ne (by simp) inFile draft.freeMapSector_held)
    freeMap memory
  have kept : ∀ {owner : Owner}, owner ≠ .freeMap → ∀ sector ∈ held owner,
      after sector.val = system.disk sector.val :=
    draft.kept_of_agreeOutside agree
  refine ⟨after, written, agree, ?_⟩
  exact {
    ledger := draft.ledger
    boot := draft.boot
    freeMapFile := stored
    directoryFile := draft.directoryFile.of_unchanged
      (kept (by simp) _ draft.directorySector_held) (kept (by simp))
    entries := fun i => (draft.entries i).of_unchanged fun header first =>
      @kept (.entry i) (by simp) header (List.mem_of_mem_head? first)
    mapSize := BitMap.length_toBytes freeMap
    dirSize := draft.dirSize }

theorem writeDirectory (draft : Draft system held freeMap directory mapBytes dirBytes)
    (memory : Memory) :
    ∃ after, directory.writeBack system.directoryFile memory system.disk = .ok after ∧
      system.disk.AgreeOutside (held .directory) after ∧
      Draft { system with disk := after } held freeMap directory mapBytes
        directory.toBytes := by
  obtain ⟨after, written, agree, stored⟩ := draft.directoryFile.writeDirectory draft.dirSize
    (fun member inFile => draft.ne_of_owner_ne (by simp) inFile draft.directorySector_held)
    directory memory
  have kept : ∀ {owner : Owner}, owner ≠ .directory → ∀ sector ∈ held owner,
      after sector.val = system.disk sector.val :=
    draft.kept_of_agreeOutside agree
  refine ⟨after, written, agree, ?_⟩
  exact {
    ledger := draft.ledger
    boot := draft.boot
    freeMapFile := draft.freeMapFile.of_unchanged
      (kept (by simp) _ draft.freeMapSector_held) (kept (by simp))
    directoryFile := stored
    entries := fun i => (draft.entries i).of_unchanged fun header first =>
      @kept (.entry i) (by simp) header (List.mem_of_mem_head? first)
    mapSize := draft.mapSize
    dirSize := directory.length_toBytes }

end Draft

namespace Layout

variable {system : FileSystem} {held : Holdings} {freeMap : BitMap Disk.numSectors}
  {directory : Directory numDirEntries}

/-- The directory is fetched as it is stored. -/
theorem fetchDirectory (layout : Layout system held freeMap directory) (heap : Heap) :
    system.fetchDirectory heap = .ok directory :=
  FileSystem.fetchDirectory_eq layout.directoryFile heap

theorem fetchFreeMap (layout : Layout system held freeMap directory) (heap : Heap) :
    system.fetchFreeMap heap = .ok freeMap :=
  FileSystem.fetchFreeMap_eq layout.freeMapFile heap

/-- An entry in use and what it owns. -/
theorem entry_of_inUse (layout : Layout system held freeMap directory)
    {i : Fin numDirEntries} (inUse : directory[i].inUse = true) :
    ∃ header data, held (.entry i) = header :: data ∧
      directory[i].sector = pointer header ∧
        (system.disk.headerAt header.val).Holds data := by
  rcases layout.entries i with ⟨idle, -⟩ | ⟨-, entry⟩
  · rw [inUse] at idle
    cases idle
  · exact entry

theorem held_of_idle (layout : Layout system held freeMap directory)
    {i : Fin numDirEntries} (idle : directory[i].inUse = false) :
    held (.entry i) = [] := by
  rcases layout.entries i with ⟨-, empty⟩ | ⟨inUse, -⟩
  · exact empty
  · rw [idle] at inUse
    cases inUse

/-- `Find` returns the header of an entry in use, or `-1`. -/
theorem find_cases (layout : Layout system held freeMap directory) (name : CString) :
    (directory.findIndex name = none ∧ directory.find name = -1) ∨
      ∃ i header data, directory.findIndex name = some i ∧
        directory.find name = pointer header ∧ held (.entry i) = header :: data ∧
          (system.disk.headerAt header.val).Holds data := by
  cases found : directory.findIndex name with
  | none => exact Or.inl ⟨rfl, by rw [Directory.find, found]⟩
  | some i =>
      obtain ⟨header, data, owned, address, holds⟩ :=
        layout.entry_of_inUse (Directory.findIndex_inUse found)
      refine Or.inr ⟨i, header, data, rfl, ?_, owned, holds⟩
      rw [Directory.find, found]
      exact address

/-- `Remove` of a name that is there empties its entry and releases the sectors of it; the
sectors of the files are left as they are. -/
theorem remove_branches (layout : Layout system held freeMap directory) (heap : Heap)
    (name : CString) :
    (directory.findIndex name = none ∧ directory.find name = -1 ∧
        system.remove heap name = .ok (false, system)) ∨
      ∃ i header data after freeMap', directory.findIndex name = some i ∧
        directory.find name = pointer header ∧ held (.entry i) = header :: data ∧
          system.remove heap name = .ok (true, { system with disk := after }) ∧
          (∀ j, ∀ sector ∈ held (.entry j), after sector.val = system.disk sector.val) ∧
          Layout { system with disk := after } (Function.update held (.entry i) [])
            freeMap' (directory.set i { directory[i] with inUse := false }) := by
  rcases layout.find_cases name with
    ⟨missing, absent⟩ | ⟨i, header, data, found, address, owned, holds⟩
  · refine Or.inl ⟨missing, absent, ?_⟩
    rw [FileSystem.remove, layout.fetchDirectory, ok_bind]
    exact if_pos absent
  · right
    obtain ⟨fresh, distinct⟩ := List.nodup_cons.mp (owned ▸ layout.ledger.nodup (.entry i))
    obtain ⟨loaded, fetched, front⟩ := FileHeader.fetchFrom_sameFront (heap.header 0)
      system.disk header.isLt
    have loadedHolds := holds.of_sameFront front
    obtain ⟨cleared, deallocated, bits⟩ := FileHeader.deallocate_direct
      loadedHolds.toDirect distinct
      (fun sector member => layout.ledger.marked_of_held
        (show sector ∈ held (.entry i) by rw [owned]; exact List.mem_cons_of_mem _ member))
      system.disk
    let idle : DirectoryEntry := { directory[i] with inUse := false }
    have draft : Draft system (Function.update held (.entry i) [])
        (cleared.clearBit header) (directory.set i idle) freeMap.toBytes
        directory.toBytes := {
      ledger := layout.ledger.release (.entry i) fun sector => by
        rw [BitMap.testBit_clearBit, bits, owned]
        simp only [Bool.and_eq_true, decide_eq_true_eq, List.mem_cons, not_or, ne_eq,
          and_assoc]
      boot := by simpa using layout.boot
      freeMapFile := by simpa using layout.freeMapFile
      directoryFile := by simpa using layout.directoryFile
      entries := EntryHolds.set layout.entries (Or.inl ⟨rfl, rfl⟩)
      mapSize := layout.mapSize
      dirSize := layout.dirSize }
    obtain ⟨first, wroteMap, mapOnly, draft⟩ := draft.writeFreeMap (heap.buffer 0)
    obtain ⟨second, wroteDirectory, directoryOnly, draft⟩ :=
      draft.writeDirectory (heap.buffer 1)
    have kept : ∀ j, ∀ sector ∈ held (.entry j),
        second sector.val = system.disk sector.val := by
      intro j sector inEntry
      have notMap : ∀ member ∈ Function.update held (.entry i) [] .freeMap,
          member.val ≠ sector.val := by
        intro member inFile
        rw [Function.update_of_ne (by simp)] at inFile
        exact layout.ne_of_owner_ne (by simp) inFile inEntry
      have notDirectory : ∀ member ∈ Function.update held (.entry i) [] .directory,
          member.val ≠ sector.val := by
        intro member inFile
        rw [Function.update_of_ne (by simp)] at inFile
        exact layout.ne_of_owner_ne (by simp) inFile inEntry
      exact (directoryOnly sector notDirectory).trans (mapOnly sector notMap)
    refine ⟨i, header, data, second, _, found, address, owned, ?_, kept, draft⟩
    have sectorNumber : (pointer header).toInt = (header.val : Int) := toInt_pointer header
    have removed : directory.remove name = (true, directory.set i idle) := by
      rw [Directory.remove, found]
    rw [FileSystem.remove, layout.fetchDirectory, ok_bind]
    simp only [address, pointer_ne_neg_one, if_false, sectorNumber, fetched, ok_bind,
      layout.fetchFreeMap, deallocated, removed]
    rw [← sectorNumber, FileHeader.clear_pointer, ok_bind]
    simp only at wroteMap wroteDirectory
    simp only [wroteMap, wroteDirectory, ok_bind]

/-- `Remove` of a name that is there releases the sectors of its entry. -/
theorem remove (layout : Layout system held freeMap directory) (heap : Heap)
    (name : CString) :
    (directory.find name = -1 ∧ system.remove heap name = .ok (false, system)) ∨
      ∃ i header data after freeMap' directory',
        directory.find name = pointer header ∧ held (.entry i) = header :: data ∧
          system.remove heap name = .ok (true, { system with disk := after }) ∧
          Layout { system with disk := after } (Function.update held (.entry i) [])
            freeMap' directory' := by
  rcases layout.remove_branches heap name with
    ⟨-, absent⟩ | ⟨i, header, data, after, freeMap', -, address, owned, removed, -, now⟩
  · exact Or.inl absent
  · exact Or.inr ⟨i, header, data, after, freeMap', _, address, owned, removed, now⟩

/-- A disk on which a new file was built in sectors that nobody owned still has
the old layout. -/
theorem of_fresh (layout : Layout system held freeMap directory) {after : Disk}
    {taken : List SectorNumber}
    (unmarked : ∀ sector ∈ taken, freeMap.testBit sector = false)
    (agree : system.disk.AgreeOutside taken after) :
    Layout { system with disk := after } held freeMap directory := by
  apply Draft.of_unchanged layout
  intro sector metadata
  have owned : ∃ owner, sector ∈ held owner := by
    rcases metadata with boot | map | dir | ⟨i, first⟩
    · exact ⟨_, boot⟩
    · exact ⟨_, map⟩
    · exact ⟨_, dir⟩
    · exact ⟨_, List.mem_of_mem_head? first⟩
  obtain ⟨owner, member⟩ := owned
  apply agree
  intro other inTaken same
  obtain rfl := Fin.ext same
  exact layout.ledger.not_held_of_unmarked (unmarked other inTaken) owner member

/-- A file of so many bytes was created in sectors that nobody owned: it is filled with
zeros, and the files that were there are as before. -/
structure Creates (before : Disk) (freeMap : BitMap Disk.numSectors) (held : Holdings)
    (size : Nat) (after : Disk) (header : SectorNumber) (data : List SectorNumber) : Prop where
  blocks : data.length = (size + Disk.sectorSize - 1) / Disk.sectorSize
  length : (after.headerAt header.val).fileLength.toInt = size
  zero : ∀ sector ∈ data, after sector.val = Sector.zero
  unmarked : ∀ sector ∈ header :: data, freeMap.testBit sector = false
  kept : ∀ j, ∀ sector ∈ held (.entry j), after sector.val = before sector.val

/-- The second half of `Create`, with a clear sector for the header and an entry
that is not in use. -/
theorem createAt (layout : Layout system held freeMap directory) (heap : Heap)
    {initialSize : CInt} {size : Nat} (value : initialSize.toInt = size)
    (small : size ≤ numDirect * Disk.sectorSize) {header : SectorNumber}
    (clear : freeMap.testBit header = false) {i : Fin numDirEntries}
    (idle : held (.entry i) = []) {entry : DirectoryEntry} (inUse : entry.inUse = true)
    (address : entry.sector = pointer header) :
    (FileSystem.createAt system heap initialSize (pointer header)
          (freeMap.markBit header) (directory.set i entry) = .ok (false, system) ∧
        freeMap.numClear < 1 + (size + Disk.sectorSize - 1) / Disk.sectorSize) ∨
      1 + (size + Disk.sectorSize - 1) / Disk.sectorSize ≤ freeMap.numClear ∧
      ∃ data after freeMap',
        FileSystem.createAt system heap initialSize (pointer header)
            (freeMap.markBit header) (directory.set i entry) =
          .ok (true, { system with disk := after }) ∧
          Creates system.disk freeMap held size after header data ∧
          Layout { system with disk := after }
            (Function.update held (.entry i) (header :: data)) freeMap'
            (directory.set i entry) := by
  have room := BitMap.numClear_markBit clear
  rcases FileHeader.allocate_direct (heap.header 0) (freeMap.markBit header)
    system.disk value small with
    ⟨few, refused, allocating⟩ |
      ⟨data, hdr, marked, allocating, length, distinct, wereClear, bits, sized, direct⟩
  · left
    exact ⟨by simp [FileSystem.createAt, allocating], by omega⟩
  · right
    have enough : data.length ≤ (freeMap.markBit header).numClear := by
      rw [BitMap.numClear_eq_card, ← List.toFinset_card_of_nodup distinct]
      apply Finset.card_le_card
      intro sector inData
      rw [List.mem_toFinset] at inData
      exact BitMap.mem_clearSet.mpr (wereClear sector inData)
    have fresh : header ∉ data := by
      intro member
      simpa using wereClear header member
    have unmarked : ∀ sector ∈ header :: data, freeMap.testBit sector = false := by
      intro sector member
      rcases List.mem_cons.mp member with rfl | inData
      · exact clear
      · have both := wereClear sector inData
        rw [BitMap.testBit_markBit, Bool.or_eq_false_iff] at both
        exact both.2
    obtain ⟨written, writing, stored⟩ := hdr.writeBack_headerAt
      (system.disk.cleared data) header.isLt
    let base : Disk := Function.update (system.disk.cleared data) header.val written
    have agree : system.disk.AgreeOutside (header :: data) base := by
      intro sector outside
      have other := outside header List.mem_cons_self
      have away := Disk.cleared_agreeOutside system.disk data sector
        fun member inData => outside member (List.mem_cons_of_mem _ inData)
      exact (Function.update_of_ne other.symm _ _).trans away
    have old := layout.of_fresh unmarked agree
    have holds : (base.headerAt header.val).Holds data := by
      have hdrHolds : hdr.Holds data := {
        toDirect := direct
        nonnegative := by rw [sized, value]; omega
        blocks := by rw [length, sized, value, Int.toNat_natCast] }
      exact hdrHolds.of_sameFront (stored base (Function.update_self _ _ _))
    have draft : Draft { system with disk := base }
        (Function.update held (.entry i) (header :: data)) marked
        (directory.set i entry) freeMap.toBytes directory.toBytes := {
      ledger := layout.ledger.allocate idle (List.nodup_cons.mpr ⟨fresh, distinct⟩)
        unmarked fun sector => by
          rw [bits, BitMap.testBit_markBit, List.mem_cons]
          simp only [Bool.or_eq_true, decide_eq_true_eq]
          rw [or_left_comm, or_assoc]
      boot := by simpa using layout.boot
      freeMapFile := by simpa using old.freeMapFile
      directoryFile := by simpa using old.directoryFile
      entries := EntryHolds.set old.entries
        (Or.inr ⟨inUse, header, data, rfl, address, holds⟩)
      mapSize := layout.mapSize
      dirSize := layout.dirSize }
    obtain ⟨second, wroteDirectory, directoryOnly, draft⟩ := draft.writeDirectory (heap.buffer 0)
    obtain ⟨third, wroteMap, mapOnly, draft⟩ := draft.writeFreeMap (heap.buffer 1)
    -- Neither file has a sector that an entry owns, be it new or old.
    have outside : ∀ sector : SectorNumber,
        (∀ owner, owner = .directory ∨ owner = .freeMap → sector ∉ held owner) →
          third sector.val = base sector.val := by
      intro sector others
      have notMember {owner : Owner} (isFile : owner = .directory ∨ owner = .freeMap) :
          ∀ member ∈ Function.update held (.entry i) (header :: data) owner,
            member.val ≠ sector.val := by
        intro member inFile same
        have kept : Function.update held (.entry i) (header :: data) owner = held owner :=
          Function.update_of_ne (by rcases isFile with rfl | rfl <;> simp) _ _
        exact others owner isFile (Fin.ext same ▸ kept ▸ inFile)
      exact (mapOnly sector (notMember (Or.inr rfl))).trans
        (directoryOnly sector (notMember (Or.inl rfl)))
    have created : Creates system.disk freeMap held size third header data := {
      blocks := length
      length := by
        have front := stored third ((outside header fun owner _ =>
          layout.ledger.not_held_of_unmarked clear owner).trans (Function.update_self _ _ _))
        rw [FileHeader.fileLength, front.numBytes]
        exact (congrArg BitVec.toInt sized).trans value
      zero := by
        intro sector inData
        have notHeader : sector.val ≠ header.val := fun same =>
          fresh (Fin.ext same ▸ inData)
        have atBase : base sector.val = Sector.zero :=
          (Function.update_of_ne notHeader _ _).trans (system.disk.cleared_eq_zero inData)
        rw [outside sector fun owner _ => layout.ledger.not_held_of_unmarked
          (unmarked sector (List.mem_cons_of_mem _ inData)) owner, atBase]
      unmarked := unmarked
      kept := by
        intro j sector inEntry
        have others : ∀ owner, owner = .directory ∨ owner = .freeMap → sector ∉ held owner := by
          rintro owner isFile inFile
          have same := layout.ledger.unique inFile inEntry
          rcases isFile with rfl | rfl <;> cases same
        rw [outside sector others]
        apply agree
        rintro member inNew same
        exact layout.ledger.not_held_of_unmarked (unmarked member inNew) _
          (Fin.ext same ▸ inEntry) }
    refine ⟨by omega, data, third, _, ?_, created, draft⟩
    simp only at wroteMap wroteDirectory
    simp only [FileSystem.createAt, allocating, ok_bind, if_true, toInt_pointer,
      writing, wroteDirectory, wroteMap, base]

/-- `Create` of a file that the direct pointers reach is refused when the name is there or
when there is no room for it; else a new file gets the first entry that was not in use. -/
theorem create_branches (layout : Layout system held freeMap directory) (heap : Heap)
    (name : CString) {initialSize : CInt} {size : Nat} (value : initialSize.toInt = size)
    (small : size ≤ numDirect * Disk.sectorSize) :
    (system.create heap name initialSize = .ok (false, system) ∧
        ((directory.findIndex name).isSome ∨ directory.freeIndex = none ∨
          freeMap.numClear < 1 + (size + Disk.sectorSize - 1) / Disk.sectorSize)) ∨
      ∃ i header data after freeMap', directory.findIndex name = none ∧
        directory.freeIndex = some i ∧
        1 + (size + Disk.sectorSize - 1) / Disk.sectorSize ≤ freeMap.numClear ∧
        system.create heap name initialSize = .ok (true, { system with disk := after }) ∧
        Creates system.disk freeMap held size after header data ∧
        Layout { system with disk := after }
          (Function.update held (.entry i) (header :: data)) freeMap'
          (directory.set i (directory[i].assign name (pointer header))) := by
  rcases FileSystem.create_branches (layout.fetchDirectory heap) (layout.fetchFreeMap heap)
      name initialSize with ⟨refused, reason⟩ | ⟨i, header, absent, free, clear, goesOn⟩
  · refine Or.inl ⟨refused, ?_⟩
    rcases reason with present | full | noSector
    · exact Or.inl present
    · exact Or.inr (Or.inl full)
    · exact Or.inr (Or.inr (noSector ▸ Nat.add_pos_left Nat.one_pos _))
  · have nothing := layout.held_of_idle (Directory.freeIndex_not_inUse free)
    have assigned : (directory[i].assign name (pointer header)).inUse = true := rfl
    rw [goesOn]
    rcases layout.createAt heap value small clear nothing assigned rfl with
      ⟨refused, few⟩ | ⟨enough, data, after, freeMap', done, created, now⟩
    · exact Or.inl ⟨refused, Or.inr (Or.inr few)⟩
    · exact Or.inr ⟨i, header, data, after, freeMap', absent, free, enough, done, created, now⟩

/-- `Create` of a file that the direct pointers reach either changes nothing or
gives sectors that nobody owned to an entry that was not in use. -/
theorem create (layout : Layout system held freeMap directory) (heap : Heap)
    (name : CString) {initialSize : CInt} {size : Nat} (value : initialSize.toInt = size)
    (small : size ≤ numDirect * Disk.sectorSize) :
    system.create heap name initialSize = .ok (false, system) ∨
      ∃ i header data after freeMap' directory',
        held (.entry i) = [] ∧
          system.create heap name initialSize = .ok (true, { system with disk := after }) ∧
          Layout { system with disk := after }
            (Function.update held (.entry i) (header :: data)) freeMap' directory' := by
  rcases layout.create_branches heap name value small with
    ⟨refused, -⟩ | ⟨i, header, data, after, freeMap', -, free, -, created, -, now⟩
  · exact Or.inl refused
  · exact Or.inr ⟨i, header, data, after, freeMap', _,
      layout.held_of_idle (Directory.freeIndex_not_inUse free), created, now⟩

end Layout

section Format

/-- `ASSERT(hdr->Allocate(...))` passes when enough sectors are clear. -/
theorem assertAllocate_eq (header : FileHeader) {freeMap : BitMap Disk.numSectors}
    (disk : Disk) {size : Nat} (small : size ≤ numDirect * Disk.sectorSize)
    (enough : (size + Disk.sectorSize - 1) / Disk.sectorSize ≤ freeMap.numClear) :
    ∃ (sectors : List SectorNumber) (allocated : FileHeader)
        (after : BitMap Disk.numSectors),
      FileSystem.assertAllocate header freeMap size disk =
          .ok (allocated, after, disk.cleared sectors) ∧
        sectors.length = (size + Disk.sectorSize - 1) / Disk.sectorSize ∧
        sectors.Nodup ∧
        (∀ sector ∈ sectors, freeMap.testBit sector = false) ∧
        (∀ sector, after.testBit sector =
          (decide (sector ∈ sectors) || freeMap.testBit sector)) ∧
        allocated.fileLength.toInt = size ∧ allocated.Holds sectors := by
  have value : (BitVec.ofNat 32 size).toInt = size := by
    apply CInt.toInt_ofNat_of_lt
    simp only [numDirect, Disk.sectorSize] at small
    omega
  rcases FileHeader.allocate_direct header freeMap disk value small with
    ⟨few, -⟩ |
      ⟨sectors, allocated, after, allocating, length, distinct, clear, marked, sized, direct⟩
  · omega
  · refine ⟨sectors, allocated, after, ?_, length, distinct, clear, marked,
      by rw [sized, value], ?_⟩
    · rw [FileSystem.assertAllocate, allocating, ok_bind]
      rfl
    · exact {
        toDirect := direct
        nonnegative := by rw [sized, value]; omega
        blocks := by rw [sized, value, Int.toNat_natCast, length] }

theorem ledger_new (words : Vector Word (BitMap.wordCount Disk.numSectors)) :
    Ledger (fun _ : Owner => []) (BitMap.new words).testBit where
  nodup _ := List.nodup_nil
  unique inFirst _ := absurd inFirst (List.not_mem_nil)
  marks sector := by simp [BitMap.testBit_new]

theorem mark_sector (freeMap : BitMap Disk.numSectors) (sector : SectorNumber) :
    freeMap.mark (sector.val : Int) = .ok (freeMap.markBit sector) := by
  rw [BitMap.mark, BitMap.index_of_fin]
  rfl

/-- The free map in which the two boot sectors are marked. -/
def bootMap (words : Vector Word (BitMap.wordCount Disk.numSectors)) :
    BitMap Disk.numSectors :=
  ((BitMap.new words).markBit ⟨freeMapSector, by decide⟩).markBit ⟨directorySector, by decide⟩

theorem testBit_bootMap (words : Vector Word (BitMap.wordCount Disk.numSectors))
    (sector : SectorNumber) :
    (bootMap words).testBit sector =
      (decide (sector ∈ bootSectors) || (BitMap.new words).testBit sector) := by
  simp only [bootMap, BitMap.testBit_markBit, bootSectors, List.mem_cons,
    List.not_mem_nil, or_false, BitMap.testBit_new, Bool.or_false]
  rw [Bool.decide_or, Bool.or_comm]

/-- All sectors but two are clear. -/
theorem numClear_bootMap (words : Vector Word (BitMap.wordCount Disk.numSectors)) :
    1022 ≤ (bootMap words).numClear := by
  have bound := BitMap.numClear_le_add (testBit_bootMap words)
  have all : (BitMap.new words).clearSet = Finset.univ := by
    ext sector
    simp [BitMap.testBit_new]
  have total : (BitMap.new words).numClear = Disk.numSectors := by
    rw [BitMap.numClear_eq_card, all, Finset.card_univ, Fintype.card_fin]
  have two : bootSectors.length = 2 := rfl
  have size : Disk.numSectors = 1024 := rfl
  omega

/-- Who owns which sectors after formatting. -/
def formatHoldings (mapSectors dirSectors : List SectorNumber) : Holdings :=
  Function.update (Function.update (Function.update (fun _ => []) .boot bootSectors)
    .freeMap mapSectors) .directory dirSectors

theorem ledger_format (words : Vector Word (BitMap.wordCount Disk.numSectors))
    {first second : BitMap Disk.numSectors} {mapSectors dirSectors : List SectorNumber}
    (mapDistinct : mapSectors.Nodup)
    (mapClear : ∀ sector ∈ mapSectors, (bootMap words).testBit sector = false)
    (mapBits : ∀ sector, first.testBit sector =
      (decide (sector ∈ mapSectors) || (bootMap words).testBit sector))
    (dirDistinct : dirSectors.Nodup)
    (dirClear : ∀ sector ∈ dirSectors, first.testBit sector = false)
    (dirBits : ∀ sector, second.testBit sector =
      (decide (sector ∈ dirSectors) || first.testBit sector)) :
    Ledger (formatHoldings mapSectors dirSectors) second.testBit := by
  have bootOwned : Ledger (Function.update (fun _ => []) Owner.boot bootSectors)
      (bootMap words).testBit := by
    apply (ledger_new words).allocate rfl (show bootSectors.Nodup by decide)
    · simp [BitMap.testBit_new]
    · intro sector
      rw [testBit_bootMap, Bool.or_eq_true, decide_eq_true_eq]
  have mapOwned : Ledger (Function.update
      (Function.update (fun _ => []) Owner.boot bootSectors) .freeMap mapSectors)
        first.testBit := by
    apply bootOwned.allocate (by simp) mapDistinct mapClear
    intro sector
    rw [mapBits, Bool.or_eq_true, decide_eq_true_eq]
  apply mapOwned.allocate (by simp) dirDistinct dirClear
  intro sector
  rw [dirBits, Bool.or_eq_true, decide_eq_true_eq]

/-- A file is opened whose header is on the disk. -/
theorem exists_systemFile (memory : FileHeader) {allocated : FileHeader} {disk : Disk}
    {sector : Nat} (onDisk : sector < Disk.numSectors) {sectors : List SectorNumber}
    (holds : allocated.Holds sectors) (distinct : sectors.Nodup)
    (front : FileHeader.SameFront (disk.headerAt sector) allocated) :
    ∃ file bytes, OpenFile.new memory disk sector = .ok file ∧
      SystemFile disk sector file sectors bytes ∧
        allocated.fileLength.toInt = bytes.length := by
  obtain ⟨loaded, fetching, opened⟩ := FileHeader.fetchFrom_sameFront memory disk onDisk
  have stored : SystemFile disk sector ⟨loaded, 0⟩ sectors (loaded.contents disk sectors) :=
    ⟨holds.of_sameFront front, opened, distinct, rfl⟩
  refine ⟨⟨loaded, 0⟩, _, ?_, stored, ?_⟩
  · rw [OpenFile.new, fetching]
    rfl
  · rw [← stored.length_eq]
    exact congrArg BitVec.toInt (opened.numBytes.trans front.numBytes).symm

/-- Formatting never fails, whatever the memory and the disk contain, and no
entry of the new directory is in use. -/
theorem format_layout (heap : Heap) (disk : Disk) :
    ∃ system held freeMap directory, FileSystem.format heap disk = .ok system ∧
      Layout system held freeMap directory ∧ ∀ i, held (.entry i) = [] := by
  let mapSector : SectorNumber := ⟨freeMapSector, by decide⟩
  let dirSector : SectorNumber := ⟨directorySector, by decide⟩
  have room := numClear_bootMap heap.words
  obtain ⟨mapSectors, mapHdr, first, allocating, mapLength, mapDistinct, mapClear,
    mapBits, mapSized, mapHolds⟩ := @assertAllocate_eq (heap.header 0) (bootMap heap.words)
      disk _ (show freeMapFileSize ≤ numDirect * Disk.sectorSize by decide)
      ((show (freeMapFileSize + Disk.sectorSize - 1) / Disk.sectorSize ≤ 1022 by
        decide).trans room)
  have roomAfter : 1021 ≤ first.numClear := by
    have bound := BitMap.numClear_le_add mapBits
    have one : (freeMapFileSize + Disk.sectorSize - 1) / Disk.sectorSize = 1 := by decide
    omega
  obtain ⟨dirSectors, dirHdr, second, allocatingDir, -, dirDistinct, dirClear,
    dirBits, dirSized, dirHolds⟩ := @assertAllocate_eq (heap.header 1) first
      (disk.cleared mapSectors) _
      (show directoryFileSize ≤ numDirect * Disk.sectorSize by decide)
      ((show (directoryFileSize + Disk.sectorSize - 1) / Disk.sectorSize ≤ 1021 by
        decide).trans roomAfter)
  -- The headers are written first the one and then the other, to different sectors.
  obtain ⟨mapWritten, writingMap, mapStored⟩ := mapHdr.writeBack_headerAt
    ((disk.cleared mapSectors).cleared dirSectors) mapSector.isLt
  obtain ⟨dirWritten, writingDir, dirStored⟩ := dirHdr.writeBack_headerAt
    (Function.update ((disk.cleared mapSectors).cleared dirSectors) mapSector.val mapWritten)
    dirSector.isLt
  let base : Disk := Function.update (Function.update
    ((disk.cleared mapSectors).cleared dirSectors) mapSector.val mapWritten)
    dirSector.val dirWritten
  have mapFront : FileHeader.SameFront (base.headerAt mapSector.val) mapHdr := by
    apply mapStored
    exact (Function.update_of_ne (by decide) _ _).trans (Function.update_self _ _ _)
  have dirFront : FileHeader.SameFront (base.headerAt dirSector.val) dirHdr :=
    dirStored base (Function.update_self _ _ _)
  obtain ⟨freeMapFile, mapBytes, openingMap, mapFile, mapSize⟩ :=
    exists_systemFile (heap.header 2) mapSector.isLt mapHolds mapDistinct mapFront
  obtain ⟨directoryFile, dirBytes, openingDir, dirFile, dirSize⟩ :=
    exists_systemFile (heap.header 3) dirSector.isLt dirHolds dirDistinct dirFront
  have draft : Draft ⟨base, freeMapFile, directoryFile⟩ (formatHoldings mapSectors dirSectors)
      second (Directory.new heap.entries) mapBytes dirBytes := {
    ledger := ledger_format heap.words mapDistinct mapClear mapBits dirDistinct dirClear dirBits
    boot := by simp [formatHoldings]
    freeMapFile := by simpa [formatHoldings] using mapFile
    directoryFile := by simpa [formatHoldings] using dirFile
    entries := fun i => Or.inl ⟨by simp [Directory.new], by simp [formatHoldings]⟩
    mapSize := by
      have size : BitMap.byteCount Disk.numSectors = freeMapFileSize := by decide
      omega
    dirSize := by
      have size : Directory.byteCount numDirEntries = directoryFileSize := by decide
      omega }
  obtain ⟨third, wroteMap, -, draft⟩ := draft.writeFreeMap (heap.buffer 0)
  obtain ⟨fourth, wroteDirectory, -, draft⟩ := draft.writeDirectory (heap.buffer 1)
  refine ⟨_, _, _, _, ?_, draft, by simp [formatHoldings]⟩
  have marking := mark_sector (BitMap.new heap.words) mapSector
  have markingDir := mark_sector ((BitMap.new heap.words).markBit mapSector) dirSector
  simp only [bootMap] at allocating
  simp only [mapSector, dirSector] at marking markingDir wroteMap wroteDirectory
  simp only [mapSector, dirSector] at writingMap writingDir openingMap openingDir
  simp only [FileSystem.format, marking, markingDir, ok_bind]
  rw [allocating, ok_bind]
  simp only [allocatingDir, ok_bind, writingMap, writingDir]
  rw [show _ = Except.ok freeMapFile from openingMap, ok_bind,
    show _ = Except.ok directoryFile from openingDir, ok_bind,
    show _ = Except.ok third from wroteMap, ok_bind,
    show _ = Except.ok fourth from wroteDirectory, ok_bind]

end Format

end Nachos
