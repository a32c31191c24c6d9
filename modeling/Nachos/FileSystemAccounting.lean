import Nachos.FileSystemLayout

/-!
# Accounting of the disk space

The sectors in use, the free map and the headers are read off the disk itself.
Along every run of a freshly formatted file system in which files are created up
to `MaxFileSize` and removed files are left alone, the free map on the disk
marks exactly the sectors in use, and no sector is used twice.
-/

namespace Nachos

open ExclusiveOwnership TransitionRuns

/-- `MaxFileSize`. -/
def maxFileSize : Nat := numDirect * Disk.sectorSize

/-- The data sectors that a header lists among its direct pointers. -/
def FileHeader.listed (header : FileHeader) : List CInt :=
  header.dataSectors.toList.take header.numSectors.toInt.toNat

theorem FileHeader.Direct.listed_eq {header : FileHeader} {sectors : List SectorNumber}
    (direct : header.Direct sectors) : header.listed = sectors.map pointer := by
  obtain ⟨rest, table⟩ := direct.dataSectors_toList
  have length := direct.length_le
  simp only [numDirect, Disk.sectorSize] at length
  have count : header.numSectors.toInt.toNat = (sectors.map pointer).length := by
    rw [direct.numSectors, CInt.toInt_ofNat_of_lt (by omega), Int.toNat_natCast,
      List.length_map]
  rw [listed, table, count, List.take_left]

namespace Disk

/-- The contents of the file whose header is in the given sector. -/
def fileAt (disk : Disk) (sector : Nat) : List Byte :=
  let header := disk.headerAt sector
  (header.listed.flatMap fun pointer => (disk pointer.toInt.toNat).bytes).take
    header.fileLength.toInt.toNat

def storedFreeMap (disk : Disk) : BitMap numSectors :=
  BitMap.ofBytes numSectors (disk.fileAt freeMapSector)

def storedDirectory (disk : Disk) : Directory numDirEntries :=
  Directory.ofBytes numDirEntries (disk.fileAt directorySector)

/-- The header sector of an entry and the data sectors its header lists. -/
def entrySectors (disk : Disk) (entry : DirectoryEntry) : List CInt :=
  if entry.inUse then
    entry.sector :: (disk.headerAt entry.sector.toInt.toNat).listed
  else []

/-- Sectors 0 and 1, the data of the two system files, and the sectors of the
entries in use. -/
def usedSectors (disk : Disk) : List CInt :=
  [BitVec.ofNat 32 freeMapSector, BitVec.ofNat 32 directorySector] ++
    ((disk.headerAt freeMapSector).listed ++
      ((disk.headerAt directorySector).listed ++
        (List.finRange numDirEntries).flatMap fun i =>
          disk.entrySectors (disk.storedDirectory.table i)))

/-- The free map on the disk marks exactly the sectors in use, which are distinct
and on the disk. -/
structure SpaceAccounted (disk : Disk) : Prop where
  marks : ∀ sector : SectorNumber, disk.storedFreeMap.testBit sector = true ↔
    pointer sector ∈ disk.usedSectors
  distinct : disk.usedSectors.Nodup
  onDisk : ∀ sector ∈ disk.usedSectors,
    0 ≤ sector.toInt ∧ sector.toInt < numSectors
  -- No file has data sectors besides those its header lists.
  direct : ∀ i : Fin numDirEntries, (disk.storedDirectory.table i).inUse = true →
    (disk.headerAt (disk.storedDirectory.table i).sector.toInt.toNat).numSectors.toInt ≤
      numDirect

end Disk

theorem SystemFile.fileAt_eq {disk : Disk} {sector : Nat} {file : OpenFile}
    {sectors : List SectorNumber} {bytes : List Byte}
    (stored : SystemFile disk sector file sectors bytes) : disk.fileAt sector = bytes := by
  have length : (disk.headerAt sector).fileLength = file.hdr.fileLength :=
    stored.opened.numBytes.symm
  rw [← stored.contents, Disk.fileAt, stored.header.listed_eq]
  simp only [length, FileHeader.contents, Disk.blocks, List.flatMap_map, toInt_pointer,
    Int.toNat_natCast]

namespace Layout

variable {system : FileSystem} {held : Holdings} {freeMap : BitMap Disk.numSectors}
  {directory : Directory numDirEntries}

theorem storedFreeMap_eq (layout : Layout system held freeMap directory) :
    system.disk.storedFreeMap = freeMap := by
  rw [Disk.storedFreeMap, layout.freeMapFile.fileAt_eq, BitMap.ofBytes_toBytes]

theorem storedDirectory_eq (layout : Layout system held freeMap directory) :
    system.disk.storedDirectory = directory := by
  rw [Disk.storedDirectory, layout.directoryFile.fileAt_eq, Directory.ofBytes_toBytes]

theorem entrySectors_eq (layout : Layout system held freeMap directory)
    (i : Fin numDirEntries) :
    system.disk.entrySectors (directory.table i) = (held (.entry i)).map pointer := by
  rcases layout.entries i with ⟨idle, empty⟩ | ⟨inUse, header, data, owned, address, holds⟩
  · rw [Disk.entrySectors, idle, empty]
    rfl
  · rw [Disk.entrySectors, inUse, owned, address, toInt_pointer, Int.toNat_natCast,
      holds.listed_eq]
    rfl

/-- All the owners. -/
def owners : List Owner :=
  .boot :: .freeMap :: .directory :: (List.finRange numDirEntries).map .entry

theorem nodup_owners : owners.Nodup := by
  decide

theorem mem_owners (owner : Owner) : owner ∈ owners := by
  cases owner <;> simp [owners]

/-- The sectors in use are the sectors owned. -/
theorem usedSectors_eq (layout : Layout system held freeMap directory) :
    system.disk.usedSectors = (owners.flatMap held).map pointer := by
  have boot : [BitVec.ofNat 32 freeMapSector, BitVec.ofNat 32 directorySector] =
      (held .boot).map pointer := by
    rw [layout.boot]
    rfl
  rw [Disk.usedSectors, boot, layout.freeMapFile.header.listed_eq,
    layout.directoryFile.header.listed_eq, layout.storedDirectory_eq]
  simp only [owners, List.flatMap_cons, List.map_append, List.flatMap_map, List.map_flatMap,
    layout.entrySectors_eq]

theorem mem_usedSectors (layout : Layout system held freeMap directory)
    (sector : SectorNumber) :
    pointer sector ∈ system.disk.usedSectors ↔ ∃ owner, sector ∈ held owner := by
  rw [layout.usedSectors_eq, List.mem_map_of_injective pointer_injective, List.mem_flatMap]
  constructor
  · rintro ⟨owner, -, member⟩
    exact ⟨owner, member⟩
  · rintro ⟨owner, member⟩
    exact ⟨owner, mem_owners owner, member⟩

theorem spaceAccounted (layout : Layout system held freeMap directory) :
    system.disk.SpaceAccounted where
  marks sector := by
    rw [layout.storedFreeMap_eq, layout.mem_usedSectors, layout.ledger.marks]
  distinct := by
    rw [layout.usedSectors_eq]
    exact (layout.ledger.toExclusive.nodup_flatMap nodup_owners).map pointer_injective
  onDisk sector member := by
    rw [layout.usedSectors_eq] at member
    obtain ⟨number, -, rfl⟩ := List.mem_map.mp member
    have inside := number.isLt
    rw [toInt_pointer]
    omega
  direct i inUse := by
    rw [layout.storedDirectory_eq] at inUse ⊢
    obtain ⟨header, data, -, address, holds⟩ := layout.entry_of_inUse inUse
    have length := holds.length_le
    have small : data.length < 2 ^ 31 := by
      simp only [numDirect, Disk.sectorSize] at length
      omega
    rw [address, toInt_pointer, Int.toNat_natCast, holds.numSectors,
      CInt.toInt_ofNat_of_lt small]
    omega

end Layout

/-- A handle caches the header of a file with the given data sectors; they are
owned by an entry of the directory as long as the file is not removed. -/
structure Handle.Caches (held : Holdings) (handle : Handle) (data : List SectorNumber) :
    Prop where
  holds : handle.file.hdr.Holds data
  distinct : data.Nodup
  owned : handle.removed = false → ∃ i header, held (.entry i) = header :: data ∧
    handle.sector = pointer header

/-- None of the data sectors that the handle caches is in use. -/
def Handle.Idle (disk : Disk) (handle : Handle) : Prop :=
  ∀ sector ∈ handle.file.hdr.listed, sector ∉ disk.usedSectors

/-- The file of the handle was not removed, or its sectors were not reused. -/
def Handle.Safe (disk : Disk) (handle : Handle) : Prop :=
  handle.removed = false ∨ handle.Idle disk

namespace Session

/-- What holds of a session between its operations. -/
def Sound (session : Session) : Prop :=
  ∃ held freeMap directory, Layout session.system held freeMap directory ∧
    ∀ handle ∈ session.handles, ∃ data, handle.Caches held data

/-- Files are created up to `MaxFileSize`, and data are only written through safe
handles. -/
def WritesSafely (session : Session) : Request → Prop
  | .create _ initialSize _ => 0 ≤ initialSize.toInt ∧ initialSize.toInt ≤ maxFileSize
  | .write handle _ _ _ | .writeAt handle _ _ _ _ =>
      ∀ found, session.handles[handle]? = some found → found.Safe session.system.disk
  | _ => True

theorem handleAt_eq_ok {session : Session} {handle : Nat} {found : Handle}
    (done : session.handleAt handle = .ok found) :
    session.handles[handle]? = some found := by
  unfold handleAt at done
  split at done
  · next same => rw [same, Except.ok.inj done]
  · cases done

section Writing

variable {system : FileSystem} {held : Holdings} {freeMap : BitMap Disk.numSectors}
  {directory : Directory numDirEntries} {handle : Handle} {data : List SectorNumber}

/-- The data sectors of a safe handle are no metadata. -/
theorem metadata_apart (layout : Layout system held freeMap directory)
    (caches : handle.Caches held data) (safe : handle.Safe system.disk)
    {sector : SectorNumber} (metadata : Metadata held sector) : sector ∉ data := by
  intro inData
  rcases safe with present | idle
  · obtain ⟨i, header, owned, -⟩ := caches.owned present
    have inEntry : sector ∈ held (.entry i) := by
      rw [owned]
      exact List.mem_cons_of_mem _ inData
    rcases metadata with boot | map | dir | ⟨j, first⟩
    · exact absurd (layout.ledger.unique boot inEntry) (by simp)
    · exact absurd (layout.ledger.unique map inEntry) (by simp)
    · exact absurd (layout.ledger.unique dir inEntry) (by simp)
    · have same := layout.ledger.unique (List.mem_of_mem_head? first) inEntry
      have fresh := (List.nodup_cons.mp (owned ▸ layout.ledger.nodup (.entry i))).1
      rw [same, owned] at first
      obtain rfl : header = sector := by simpa using first
      exact fresh inData
  · have owner : ∃ owner, sector ∈ held owner := by
      rcases metadata with boot | map | dir | ⟨j, first⟩
      · exact ⟨_, boot⟩
      · exact ⟨_, map⟩
      · exact ⟨_, dir⟩
      · exact ⟨_, List.mem_of_mem_head? first⟩
    apply idle (pointer sector)
    · rw [caches.holds.listed_eq]
      exact List.mem_map_of_mem inData
    · exact (layout.mem_usedSectors sector).mpr owner

/-- A write only changes the data sectors that the handle caches. -/
theorem writeAt_agreeOutside (caches : handle.Caches held data) {memory : Memory}
    {bytes : List Byte} {numBytes position count : CInt} {disk after : Disk}
    (done : handle.file.writeAt memory disk bytes numBytes position =
      .ok (count, after)) : disk.AgreeOutside data after := by
  have length := caches.holds.length_le
  have blocks := caches.holds.blocks
  have small : handle.file.hdr.fileLength.toInt ≤ 2 ^ 30 := by
    simp only [numDirect, Disk.sectorSize] at length blocks
    omega
  rcases OpenFile.writeAt_eq_ok small done with rfl | ⟨place, rfl, fits, supplied⟩
  · exact fun _ _ => rfl
  · obtain ⟨amount, written, writing, -, agree, -⟩ := OpenFile.writeAt_eq
      (caches.holds.maps caches.distinct disk) memory place fits supplied
    obtain ⟨-, rfl⟩ := Prod.mk.inj (Except.ok.inj (writing.symm.trans done))
    exact agree

theorem layout_of_writeAt (layout : Layout system held freeMap directory)
    (caches : handle.Caches held data) (safe : handle.Safe system.disk) {memory : Memory}
    {bytes : List Byte} {numBytes position count : CInt} {after : Disk}
    (done : handle.file.writeAt memory system.disk bytes numBytes position =
      .ok (count, after)) :
    Layout { system with disk := after } held freeMap directory := by
  apply Draft.of_unchanged layout
  intro sector metadata
  apply writeAt_agreeOutside caches done
  intro member inData same
  obtain rfl := Fin.ext same
  exact metadata_apart layout caches safe metadata inData

end Writing

section Steps

variable {session next : Session}

/-- Moving the position of a handle changes nothing that matters. -/
theorem caches_setFile {held : Holdings}
    (caching : ∀ handle ∈ session.handles, ∃ data, handle.Caches held data)
    {handle : Nat} {found : Handle} (present : session.handles[handle]? = some found)
    (file : OpenFile) (same : file.hdr = found.file.hdr) :
    ∀ other ∈ (session.setFile handle found file).handles,
      ∃ data, other.Caches held data := by
  intro other member
  rcases List.mem_or_eq_of_mem_set member with old | rfl
  · exact caching other old
  · obtain ⟨data, caches⟩ := caching found (List.mem_of_getElem? present)
    exact ⟨data, by simpa only [same] using caches.holds, caches.distinct, caches.owned⟩

theorem sound_create (sound : session.Sound) {name : CString} {initialSize : CInt}
    {heap : Heap} (allowed : session.WritesSafely (.create name initialSize heap))
    (stepped : session.step (.create name initialSize heap) = .ok next) : next.Sound := by
  obtain ⟨held, freeMap, directory, layout, caching⟩ := sound
  obtain ⟨⟨result, system⟩, created, done⟩ := bind_eq_ok_iff.mp stepped
  obtain rfl := Except.ok.inj done
  obtain ⟨size, value⟩ := Int.eq_ofNat_of_zero_le allowed.1
  have small : size ≤ numDirect * Disk.sectorSize := by
    have limit := allowed.2
    simp only [maxFileSize] at limit
    omega
  rcases layout.create heap name value small with
    refused | ⟨i, header, data, after, freeMap', directory', idle, success, now⟩
  · obtain ⟨-, rfl⟩ := Prod.mk.inj (Except.ok.inj (refused.symm.trans created))
    exact ⟨held, freeMap, directory, layout, caching⟩
  · obtain ⟨-, rfl⟩ := Prod.mk.inj (Except.ok.inj (success.symm.trans created))
    refine ⟨_, freeMap', directory', now, fun handle member => ?_⟩
    obtain ⟨cached, caches⟩ := caching handle member
    refine ⟨cached, caches.holds, caches.distinct, fun present => ?_⟩
    obtain ⟨j, first, owned, address⟩ := caches.owned present
    have different : (Owner.entry j) ≠ .entry i := by
      intro same
      rw [same, idle] at owned
      cases owned
    exact ⟨j, first, by rw [Function.update_of_ne different, owned], address⟩

theorem sound_open (sound : session.Sound) {name : CString} {heap : Heap}
    (stepped : session.step (.open name heap) = .ok next) : next.Sound := by
  obtain ⟨held, freeMap, directory, layout, caching⟩ := sound
  obtain ⟨fetched, fetching, stepped⟩ := bind_eq_ok_iff.mp stepped
  obtain rfl := Except.ok.inj ((layout.fetchDirectory heap).symm.trans fetching)
  obtain ⟨opened, opening, stepped⟩ := bind_eq_ok_iff.mp stepped
  rw [FileSystem.open, layout.fetchDirectory, ok_bind] at opening
  rcases layout.find_cases name with
    ⟨-, absent⟩ | ⟨i, header, data, -, address, owned, holds⟩
  · have negative : ¬ 0 ≤ (directory.find name).toInt := by
      rw [absent]
      decide
    rw [if_neg negative] at opening
    obtain rfl := Except.ok.inj opening
    obtain rfl := Except.ok.inj stepped
    exact ⟨held, freeMap, directory, layout, caching⟩
  · simp only [address, toInt_pointer] at opening
    rw [if_pos (by omega)] at opening
    obtain ⟨loaded, loading, front⟩ := FileHeader.fetchFrom_sameFront (heap.header 0)
      session.system.disk header.isLt
    simp only [OpenFile.new, loading, Except.map, ok_bind] at opening
    obtain rfl := Except.ok.inj opening
    obtain rfl := Except.ok.inj stepped
    refine ⟨held, freeMap, directory, layout, fun handle member => ?_⟩
    rcases List.mem_append.mp member with old | new
    · exact caching handle old
    · obtain rfl := List.mem_singleton.mp new
      have distinct := (List.nodup_cons.mp (owned ▸ layout.ledger.nodup (.entry i))).2
      exact ⟨data, holds.of_sameFront front, distinct,
        fun _ => ⟨i, header, owned, address⟩⟩

theorem sound_remove (sound : session.Sound) {name : CString} {heap : Heap}
    (stepped : session.step (.remove name heap) = .ok next) : next.Sound := by
  obtain ⟨held, freeMap, directory, layout, caching⟩ := sound
  obtain ⟨fetched, fetching, stepped⟩ := bind_eq_ok_iff.mp stepped
  obtain rfl := Except.ok.inj ((layout.fetchDirectory heap).symm.trans fetching)
  obtain ⟨⟨result, system⟩, removing, done⟩ := bind_eq_ok_iff.mp stepped
  obtain rfl := Except.ok.inj done
  rcases layout.remove heap name with
    ⟨-, absent⟩ | ⟨i, header, data, after, freeMap', directory', address, owned, removed, now⟩
  · obtain ⟨rfl, rfl⟩ := Prod.mk.inj (Except.ok.inj (absent.symm.trans removing))
    exact ⟨held, freeMap, directory, layout, caching⟩
  · obtain ⟨rfl, rfl⟩ := Prod.mk.inj (Except.ok.inj (removed.symm.trans removing))
    refine ⟨_, freeMap', directory', now, fun handle member => ?_⟩
    simp only [if_true, forget, List.mem_map] at member
    obtain ⟨old, inHandles, rfl⟩ := member
    obtain ⟨cached, caches⟩ := caching old inHandles
    refine ⟨cached, caches.holds, caches.distinct, fun present => ?_⟩
    simp only [Bool.or_eq_false_iff, beq_eq_false_iff_ne, ne_eq, address] at present
    obtain ⟨j, first, ownedFirst, addressFirst⟩ := caches.owned present.1
    have different : (Owner.entry j) ≠ .entry i := by
      intro same
      rw [same, owned] at ownedFirst
      obtain ⟨rfl, -⟩ := List.cons.inj ownedFirst
      exact present.2 addressFirst
    exact ⟨j, first, by rw [Function.update_of_ne different, ownedFirst], addressFirst⟩

theorem sound_writeAt (sound : session.Sound) {handle : Nat} {data : List Byte}
    {numBytes position : CInt} {memory : Memory}
    (allowed : session.WritesSafely (.writeAt handle data numBytes position memory))
    (stepped : session.step (.writeAt handle data numBytes position memory) = .ok next) :
    next.Sound := by
  obtain ⟨held, freeMap, directory, layout, caching⟩ := sound
  obtain ⟨found, finding, stepped⟩ := bind_eq_ok_iff.mp stepped
  obtain ⟨⟨count, after⟩, writing, done⟩ := bind_eq_ok_iff.mp stepped
  obtain rfl := Except.ok.inj done
  have present := handleAt_eq_ok finding
  obtain ⟨cached, caches⟩ := caching found (List.mem_of_getElem? present)
  exact ⟨held, freeMap, directory,
    layout_of_writeAt layout caches (allowed found present) writing, caching⟩

theorem sound_write (sound : session.Sound) {handle : Nat} {data : List Byte}
    {numBytes : CInt} {memory : Memory}
    (allowed : session.WritesSafely (.write handle data numBytes memory))
    (stepped : session.step (.write handle data numBytes memory) = .ok next) :
    next.Sound := by
  obtain ⟨held, freeMap, directory, layout, caching⟩ := sound
  obtain ⟨found, finding, stepped⟩ := bind_eq_ok_iff.mp stepped
  obtain ⟨⟨count, after, file⟩, writing, done⟩ := bind_eq_ok_iff.mp stepped
  obtain rfl := Except.ok.inj done
  obtain ⟨⟨amount, written⟩, writingAt, moved⟩ := bind_eq_ok_iff.mp writing
  simp only [Except.ok.injEq, Prod.mk.injEq] at moved
  obtain ⟨rfl, rfl, rfl⟩ := moved
  have present := handleAt_eq_ok finding
  obtain ⟨cached, caches⟩ := caching found (List.mem_of_getElem? present)
  exact ⟨held, freeMap, directory,
    layout_of_writeAt layout caches (allowed found present) writingAt,
    caches_setFile caching present _ rfl⟩

/-- A session stays sound as long as data are written through safe handles. -/
theorem sound_step (session : Session) (request : Request) (next : Session)
    (sound : session.Sound) (allowed : session.WritesSafely request)
    (stepped : session.step request = .ok next) : next.Sound := by
  cases request with
  | create name initialSize heap => exact sound_create sound allowed stepped
  | «open» name heap => exact sound_open sound stepped
  | remove name heap => exact sound_remove sound stepped
  | seek handle position =>
      obtain ⟨held, freeMap, directory, layout, caching⟩ := sound
      obtain ⟨found, finding, done⟩ := bind_eq_ok_iff.mp stepped
      obtain rfl := Except.ok.inj done
      exact ⟨held, freeMap, directory, layout,
        caches_setFile caching (handleAt_eq_ok finding) _ rfl⟩
  | read handle numBytes =>
      obtain ⟨held, freeMap, directory, layout, caching⟩ := sound
      obtain ⟨found, finding, stepped⟩ := bind_eq_ok_iff.mp stepped
      obtain ⟨⟨bytes, file⟩, reading, done⟩ := bind_eq_ok_iff.mp stepped
      obtain rfl := Except.ok.inj done
      obtain ⟨data, -, moved⟩ := bind_eq_ok_iff.mp reading
      obtain ⟨-, rfl⟩ := Prod.mk.inj (Except.ok.inj moved)
      exact ⟨held, freeMap, directory, layout,
        caches_setFile caching (handleAt_eq_ok finding) _ rfl⟩
  | write handle data numBytes memory => exact sound_write sound allowed stepped
  | readAt handle numBytes position =>
      obtain ⟨found, -, stepped⟩ := bind_eq_ok_iff.mp stepped
      obtain ⟨bytes, -, done⟩ := bind_eq_ok_iff.mp stepped
      obtain rfl := Except.ok.inj done
      exact sound
  | writeAt handle data numBytes position memory => exact sound_writeAt sound allowed stepped

end Steps

section Progress

/-- The position and the number of bytes of a request lie in the range of an
`int` together, and the data are there. -/
def InRange (numBytes position : CInt) : Prop :=
  0 ≤ position.toInt ∧ position.toInt + numBytes.toInt < 2 ^ 31

/-- The request uses an existing handle, a position that is not negative, and
enough data. -/
def Proper (session : Session) : Request → Prop
  | .create _ initialSize _ => 0 ≤ initialSize.toInt ∧ initialSize.toInt ≤ maxFileSize
  | .open _ _ | .remove _ _ => True
  | .seek handle _ => (session.handles[handle]?).isSome
  | .read handle numBytes =>
      ∃ found, session.handles[handle]? = some found ∧
        InRange numBytes found.file.seekPosition
  | .readAt handle numBytes position =>
      (session.handles[handle]?).isSome ∧ InRange numBytes position
  | .write handle data numBytes _ =>
      ∃ found, session.handles[handle]? = some found ∧
        InRange numBytes found.file.seekPosition ∧ numBytes.toInt ≤ data.length
  | .writeAt handle data numBytes position _ =>
      (session.handles[handle]?).isSome ∧ InRange numBytes position ∧
        numBytes.toInt ≤ data.length

variable {session : Session} {held : Holdings} {handle : Handle}
  {data : List SectorNumber}

theorem readAt_completes (caches : handle.Caches held data) (disk : Disk)
    {numBytes position : CInt} (range : InRange numBytes position) :
    ∃ bytes, handle.file.readAt disk numBytes position = .ok bytes := by
  obtain ⟨place, value⟩ := Int.eq_ofNat_of_zero_le range.1
  obtain rfl := CInt.eq_ofNat_of_toInt value
  exact ⟨_, OpenFile.readAt_eq (caches.holds.maps caches.distinct disk) place
    (value ▸ range.2)⟩

theorem writeAt_completes (caches : handle.Caches held data) (disk : Disk)
    (memory : Memory) {bytes : List Byte} {numBytes position : CInt}
    (range : InRange numBytes position) (supplied : numBytes.toInt ≤ bytes.length) :
    ∃ result, handle.file.writeAt memory disk bytes numBytes position = .ok result := by
  obtain ⟨place, value⟩ := Int.eq_ofNat_of_zero_le range.1
  obtain rfl := CInt.eq_ofNat_of_toInt value
  obtain ⟨count, after, written, -⟩ := OpenFile.writeAt_eq
    (caches.holds.maps caches.distinct disk) memory place (value ▸ range.2)
    ((Int.min_le_left _ _).trans supplied)
  exact ⟨_, written⟩

theorem handleAt_of_present {session : Session} {index : Nat} {found : Handle}
    (present : session.handles[index]? = some found) :
    session.handleAt index = .ok found := by
  rw [handleAt, present]

/-- In a sound session every proper request completes. -/
theorem step_completes (session : Session) (request : Request) (sound : session.Sound)
    (proper : session.Proper request) : ∃ next, session.step request = .ok next := by
  obtain ⟨held, freeMap, directory, layout, caching⟩ := sound
  have cached : ∀ {index : Nat} {found : Handle},
      session.handles[index]? = some found → ∃ data, found.Caches held data :=
    fun present => caching _ (List.mem_of_getElem? present)
  cases request with
  | create name initialSize heap =>
      obtain ⟨size, value⟩ := Int.eq_ofNat_of_zero_le proper.1
      have small : size ≤ numDirect * Disk.sectorSize := by
        have limit := proper.2
        simp only [maxFileSize] at limit
        omega
      rcases layout.create heap name value small with
        refused | ⟨i, header, data, after, freeMap', directory', -, success, -⟩
      · exact ⟨_, by rw [step, refused]; rfl⟩
      · exact ⟨_, by rw [step, success]; rfl⟩
  | «open» name heap =>
      have opens : ∃ opened, session.system.open heap name = .ok opened := by
        rw [FileSystem.open, layout.fetchDirectory, ok_bind]
        rcases layout.find_cases name with ⟨-, absent⟩ | ⟨i, header, data, -, address, -⟩
        · exact ⟨none, by rw [absent]; exact if_neg (by decide)⟩
        · obtain ⟨loaded, loading, -⟩ := FileHeader.fetchFrom_sameFront (heap.header 0)
            session.system.disk header.isLt
          refine ⟨some ⟨loaded, 0⟩, ?_⟩
          simp only [address, toInt_pointer]
          rw [if_pos (by omega), OpenFile.new, loading]
          rfl
      obtain ⟨opened, opening⟩ := opens
      rw [step, layout.fetchDirectory, ok_bind, opening, ok_bind]
      cases opened <;> exact ⟨_, rfl⟩
  | remove name heap =>
      rcases layout.remove heap name with
        ⟨-, absent⟩ | ⟨i, header, data, after, freeMap', directory', -, -, removed, -⟩
      · exact ⟨_, by rw [step, layout.fetchDirectory, ok_bind, absent]; rfl⟩
      · exact ⟨_, by rw [step, layout.fetchDirectory, ok_bind, removed]; rfl⟩
  | seek handle position =>
      obtain ⟨found, present⟩ := Option.isSome_iff_exists.mp proper
      exact ⟨_, by rw [step, handleAt_of_present present]; rfl⟩
  | read handle numBytes =>
      obtain ⟨found, present, range⟩ := proper
      obtain ⟨data, caches⟩ := cached present
      obtain ⟨bytes, reading⟩ := readAt_completes caches session.system.disk range
      exact ⟨_, by rw [step, handleAt_of_present present, ok_bind, OpenFile.read, reading]; rfl⟩
  | readAt handle numBytes position =>
      obtain ⟨found, present⟩ := Option.isSome_iff_exists.mp proper.1
      obtain ⟨data, caches⟩ := cached present
      obtain ⟨bytes, reading⟩ := readAt_completes caches session.system.disk proper.2
      exact ⟨_, by rw [step, handleAt_of_present present, ok_bind, reading]; rfl⟩
  | write handle bytes numBytes memory =>
      obtain ⟨found, present, range, supplied⟩ := proper
      obtain ⟨data, caches⟩ := cached present
      obtain ⟨result, writing⟩ := writeAt_completes caches session.system.disk memory
        range supplied
      exact ⟨_, by rw [step, handleAt_of_present present, ok_bind, OpenFile.write, writing]; rfl⟩
  | writeAt handle bytes numBytes position memory =>
      obtain ⟨found, present⟩ := Option.isSome_iff_exists.mp proper.1
      obtain ⟨data, caches⟩ := cached present
      obtain ⟨result, writing⟩ := writeAt_completes caches session.system.disk memory
        proper.2.1 proper.2.2
      exact ⟨_, by rw [step, handleAt_of_present present, ok_bind, writing]; rfl⟩

end Progress

theorem sound_start {heap : Heap} {disk : Disk} {system : FileSystem}
    (formatted : FileSystem.format heap disk = .ok system) : Sound ⟨system, []⟩ := by
  obtain ⟨made, held, freeMap, directory, formats, layout, -⟩ := format_layout heap disk
  obtain rfl := Except.ok.inj (formats.symm.trans formatted)
  exact ⟨held, freeMap, directory, layout, by simp⟩

/-- Files are created up to `MaxFileSize`, and only handles of files that were
not removed are used. -/
def KeepsToFiles (session : Session) : Request → Prop
  | .create _ initialSize _ => 0 ≤ initialSize.toInt ∧ initialSize.toInt ≤ maxFileSize
  | .open _ _ | .remove _ _ => True
  | .seek handle _ | .read handle _ | .write handle _ _ _ | .readAt handle _ _
  | .writeAt handle _ _ _ _ =>
      ∀ found, session.handles[handle]? = some found → found.removed = false

theorem KeepsToFiles.writesSafely {session : Session} {request : Request}
    (keeps : session.KeepsToFiles request) : session.WritesSafely request := by
  cases request with
  | create name initialSize heap => exact keeps
  | write handle data numBytes memory => exact fun found present => Or.inl (keeps found present)
  | writeAt handle data numBytes position memory =>
      exact fun found present => Or.inl (keeps found present)
  | «open» | remove | seek | read | readAt => trivial

/-- From a freshly formatted disk on, the space is accounted for after every
operation, and every proper operation completes. -/
theorem space_accounted (heap : Heap) (disk : Disk) (requests : List Request) :
    ∃ system, FileSystem.format heap disk = .ok system ∧
      (RunAllowed step KeepsToFiles ⟨system, []⟩ requests →
        AlongRun step (fun session => session.system.disk.SpaceAccounted)
            ⟨system, []⟩ requests ∧
          (RunRequested step Proper ⟨system, []⟩ requests →
            ∃ last, run step ⟨system, []⟩ requests = .ok last)) := by
  obtain ⟨system, -, -, -, formatted, -⟩ := format_layout heap disk
  have initial := sound_start formatted
  have preserved : ∀ session request next, Sound session →
      session.KeepsToFiles request → session.step request = .ok next → next.Sound :=
    fun session request next sound keeps => sound_step session request next sound
      keeps.writesSafely
  refine ⟨system, formatted, fun permitted => ⟨?_, fun proper => ?_⟩⟩
  · apply (alongRun_of_invariant preserved initial permitted).mono
    rintro session ⟨held, freeMap, directory, layout, -⟩
    exact layout.spaceAccounted
  · exact run_completes preserved step_completes initial permitted proper

theorem space_accounted_example :
    ∃ system last, FileSystem.format Heap.blank Disk.blank = .ok system ∧
      run step ⟨system, []⟩ [.create [97] 3840 Heap.blank, .open [97] Heap.blank,
        .remove [97] Heap.blank, .create [98] 0 Heap.blank] = .ok last ∧
      last.system.disk.SpaceAccounted := by
  obtain ⟨system, formatted, accounted⟩ := space_accounted Heap.blank Disk.blank
    [.create [97] 3840 Heap.blank, .open [97] Heap.blank, .remove [97] Heap.blank,
      .create [98] 0 Heap.blank]
  have sizes : (0 ≤ (3840 : CInt).toInt ∧ (3840 : CInt).toInt ≤ maxFileSize) ∧
      0 ≤ (0 : CInt).toInt ∧ (0 : CInt).toInt ≤ maxFileSize := by decide
  obtain ⟨along, completes⟩ := accounted (fun _ _ => ⟨sizes.1, fun _ _ => ⟨trivial,
    fun _ _ => ⟨trivial, fun _ _ => ⟨sizes.2, trivial⟩⟩⟩⟩)
  obtain ⟨last, reached⟩ := completes ⟨sizes.1, fun _ _ => ⟨trivial, fun _ _ => ⟨trivial,
    fun _ _ => ⟨sizes.2, fun _ _ => trivial⟩⟩⟩⟩
  have accountedLast := alongRun_last along reached
  exact ⟨system, last, formatted, reached, accountedLast⟩

end Session

end Nachos
