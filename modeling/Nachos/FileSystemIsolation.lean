import Nachos.FileSystemAccounting

/-!
# Isolation of files across handles

A handle keeps the header that its file had when it was opened.  A write through
it is confined to the file exactly when the file was not removed meanwhile, or
its former sectors are not in use.
-/

namespace Nachos

open ExclusiveOwnership ListSplice TransitionRuns

/-- Nothing changed outside the file that the handle was opened on: neither the
free map, the directory and the headers, nor the contents of another file. -/
structure Untouched (handle : Handle) (before after : Disk) : Prop where
  freeMap : after.fileAt freeMapSector = before.fileAt freeMapSector
  directory : after.fileAt directorySector = before.fileAt directorySector
  boot : after freeMapSector = before freeMapSector ∧
    after directorySector = before directorySector
  headers : ∀ i : Fin numDirEntries, (before.storedDirectory.table i).inUse = true →
    after (before.storedDirectory.table i).sector.toInt.toNat =
      before (before.storedDirectory.table i).sector.toInt.toNat
  files : ∀ i : Fin numDirEntries, (before.storedDirectory.table i).inUse = true →
    ¬ (handle.removed = false ∧ (before.storedDirectory.table i).sector = handle.sector) →
      after.fileAt (before.storedDirectory.table i).sector.toInt.toNat =
        before.fileAt (before.storedDirectory.table i).sector.toInt.toNat

/-- Every `WriteAt` through the handle leaves everything else untouched. -/
def Handle.Isolated (disk : Disk) (handle : Handle) : Prop :=
  ∀ (memory : Memory) (data : List Byte) (numBytes position count : CInt) (after : Disk),
    Session.InRange numBytes position → numBytes.toInt ≤ data.length →
      handle.file.writeAt memory disk data numBytes position = .ok (count, after) →
        Untouched handle disk after

theorem fileAt_congr {before after : Disk} {sector : Nat} {sectors : List SectorNumber}
    (holds : (before.headerAt sector).Holds sectors) (header : after sector = before sector)
    (data : ∀ member ∈ sectors, after member.val = before member.val) :
    after.fileAt sector = before.fileAt sector := by
  have same : after.headerAt sector = before.headerAt sector := by
    simp only [Disk.headerAt, header]
  simp only [Disk.fileAt, same, holds.listed_eq, List.flatMap_map, toInt_pointer,
    Int.toNat_natCast]
  congr 1
  apply List.flatMap_congr
  intro member inFile
  rw [data member inFile]

/-- The first byte of each block of a file. -/
theorem getElem?_fileAt {disk : Disk} {sector : Nat} {sectors : List SectorNumber}
    (holds : (disk.headerAt sector).Holds sectors) {index : Nat}
    (inside : index < sectors.length) :
    (disk.fileAt sector)[index * Disk.sectorSize]? =
      (disk sectors[index].val).bytes[0]? := by
  have blocks := holds.blocks
  have short : index * Disk.sectorSize < (disk.headerAt sector).fileLength.toInt.toNat := by
    simp only [Disk.sectorSize] at blocks ⊢
    omega
  have contents : disk.fileAt sector = (disk.blocks sectors).take
      (disk.headerAt sector).fileLength.toInt.toNat := by
    simp only [Disk.fileAt, holds.listed_eq, List.flatMap_map, toInt_pointer,
      Int.toNat_natCast, Disk.blocks]
  have read : (disk.blocks sectors)[index * Disk.sectorSize + 0]? =
      sectors[index]?.bind fun sector => (disk sector.val).bytes[0]? :=
    disk.getElem?_blocks sectors (by decide)
  rw [contents, List.getElem?_take_of_lt short]
  simpa [inside] using read

section Confinement

variable {system : FileSystem} {held : Holdings} {freeMap : BitMap Disk.numSectors}
  {directory : Directory numDirEntries} {handle : Handle} {data : List SectorNumber}

/-- The sectors of another file are not among those that a safe handle caches. -/
theorem files_apart (layout : Layout system held freeMap directory)
    (caches : handle.Caches held data) (safe : handle.Safe system.disk)
    {i : Fin numDirEntries} {header : SectorNumber} {file : List SectorNumber}
    (owned : held (.entry i) = header :: file)
    (other : ¬ (handle.removed = false ∧ pointer header = handle.sector))
    {sector : SectorNumber} (member : sector ∈ held (.entry i)) : sector ∉ data := by
  intro inData
  rcases safe with present | idle
  · obtain ⟨j, first, ownedFirst, address⟩ := caches.owned present
    have inOther : sector ∈ held (.entry j) := by
      rw [ownedFirst]
      exact List.mem_cons_of_mem _ inData
    have same := layout.ledger.unique member inOther
    rw [same, ownedFirst] at owned
    obtain ⟨rfl, -⟩ := List.cons.inj owned
    exact other ⟨present, address.symm⟩
  · apply idle (pointer sector)
    · rw [caches.holds.listed_eq]
      exact List.mem_map_of_mem inData
    · exact (layout.mem_usedSectors sector).mpr ⟨_, member⟩

theorem isolated_of_safe (layout : Layout system held freeMap directory)
    (caches : handle.Caches held data) (safe : handle.Safe system.disk) :
    handle.Isolated system.disk := by
  intro memory bytes numBytes position count after _ _ done
  have now := Session.layout_of_writeAt layout caches safe done
  have agree := Session.writeAt_agreeOutside caches done
  have kept : ∀ {sector : SectorNumber}, sector ∉ data →
      after sector.val = system.disk sector.val := by
    intro sector outside
    apply agree
    intro member inData same
    exact outside (Fin.ext same ▸ inData)
  have metadata : ∀ {sector : SectorNumber}, Metadata held sector →
      after sector.val = system.disk sector.val := fun belongs =>
    kept (Session.metadata_apart layout caches safe belongs)
  constructor
  · rw [layout.freeMapFile.fileAt_eq]
    exact now.freeMapFile.fileAt_eq
  · rw [layout.directoryFile.fileAt_eq]
    exact now.directoryFile.fileAt_eq
  · exact ⟨metadata (Or.inl layout.freeMapSector_held),
      metadata (Or.inl layout.directorySector_held)⟩
  · intro i inUse
    rw [layout.storedDirectory_eq] at inUse ⊢
    obtain ⟨header, file, owned, address, -⟩ := layout.entry_of_inUse inUse
    rw [address, toInt_pointer, Int.toNat_natCast]
    exact metadata (Or.inr (Or.inr (Or.inr ⟨i, by rw [owned]; rfl⟩)))
  · intro i inUse other
    rw [layout.storedDirectory_eq] at inUse other ⊢
    obtain ⟨header, file, owned, address, holds⟩ := layout.entry_of_inUse inUse
    rw [address] at other ⊢
    rw [toInt_pointer, Int.toNat_natCast]
    have apart : ∀ sector ∈ held (.entry i), sector ∉ data := fun sector member =>
      files_apart layout caches safe owned other member
    rw [owned] at apart
    exact fileAt_congr holds (kept (apart header List.mem_cons_self))
      fun member inFile => kept (apart member (List.mem_cons_of_mem _ inFile))

/-- One byte can be written at the start of every block of the file. -/
theorem write_first_byte (caches : handle.Caches held data) (disk : Disk) {index : Nat}
    (inside : index < data.length) :
    ∃ (bytes : List Byte) (numBytes position count : CInt) (after : Disk),
      Session.InRange numBytes position ∧ numBytes.toInt ≤ bytes.length ∧
        handle.file.writeAt (fun _ => 0) disk bytes numBytes position =
          .ok (count, after) ∧
        (after data[index].val).bytes[0]? ≠ (disk data[index].val).bytes[0]? := by
  have length := caches.holds.length_le
  have blocks := caches.holds.blocks
  have maps := caches.holds.maps caches.distinct disk
  have small : index * Disk.sectorSize + 1 ≤ handle.file.hdr.fileLength.toInt := by
    simp only [Disk.sectorSize] at blocks ⊢
    omega
  have bound : index * Disk.sectorSize + 1 < 2 ^ 31 := by
    simp only [numDirect, Disk.sectorSize] at length ⊢
    omega
  have one : BitVec.toInt (1 : CInt) = 1 := by decide
  have firstLength : 0 < (disk data[index].val).bytes.length := by
    rw [Sector.length_bytes]
    decide
  let byte : Byte := (disk data[index].val).bytes[0] + 1
  obtain ⟨count, after, written, value, agree, contents⟩ := OpenFile.writeAt_eq maps
    (fun _ => 0) (index * Disk.sectorSize)
    (show (index * Disk.sectorSize : Nat) + BitVec.toInt (1 : CInt) < 2 ^ 31 by
      rw [one]
      omega)
    (show _ ≤ (([byte].length : Nat) : Int) by
      rw [one]
      exact Int.min_le_left _ _)
  have single : count = 1 := by
    rw [one] at value
    omega
  subst single
  have position : (BitVec.ofNat 32 (index * Disk.sectorSize)).toInt =
      (index * Disk.sectorSize : Nat) := CInt.toInt_ofNat_of_lt (by omega)
  refine ⟨[byte], 1, BitVec.ofNat 32 (index * Disk.sectorSize), _, after, ?_, ?_,
    written, ?_⟩
  · rw [Session.InRange, position, one]
    omega
  · rw [one]
    rfl
  · have read : ∀ now : Disk, (handle.file.hdr.contents now data)[
        index * Disk.sectorSize]? = (now data[index].val).bytes[0]? := by
      intro now
      have byte := @FileHeader.getElem?_contents handle.file.hdr now data index 0 (by decide)
        (by omega)
      simpa [inside] using byte
    have total := FileHeader.length_contents maps
    rw [← read after, contents, List.take_of_length_le (by simp),
      getElem?_splice_inside (by simp only [List.length_singleton]; omega) (Nat.le_refl _)
        (by simp), Nat.sub_self, List.getElem?_eq_getElem firstLength]
    intro same
    have value : byte = (disk data[index].val).bytes[0] := Option.some.inj same
    simp [byte] at value

/-- A handle that is not safe can be used to change somebody else's sector. -/
theorem not_isolated (layout : Layout system held freeMap directory)
    (caches : handle.Caches held data) (unsafeHandle : ¬ handle.Safe system.disk) :
    ¬ handle.Isolated system.disk := by
  intro isolated
  simp only [Handle.Safe, not_or, Handle.Idle, not_forall, not_not] at unsafeHandle
  obtain ⟨removed, shared, listed, used⟩ := unsafeHandle
  rw [caches.holds.listed_eq] at listed
  obtain ⟨sector, inData, rfl⟩ := List.mem_map.mp listed
  obtain ⟨owner, member⟩ := (layout.mem_usedSectors sector).mp used
  obtain ⟨index, inside, rfl⟩ := List.mem_iff_getElem.mp inData
  obtain ⟨bytes, numBytes, position, count, after, range, supplied, written, changed⟩ :=
    write_first_byte caches system.disk inside
  have untouched := isolated _ bytes numBytes position count after range supplied written
  -- A file whose header and contents stay the same keeps the first byte of each block.
  have keeps : ∀ {header : Nat} {sectors : List SectorNumber},
      (system.disk.headerAt header).Holds sectors → after header = system.disk header →
        after.fileAt header = system.disk.fileAt header → data[index] ∉ sectors := by
    intro header sectors holds sameHeader sameFile inSectors
    obtain ⟨block, within, same⟩ := List.mem_iff_getElem.mp inSectors
    have before := getElem?_fileAt holds within
    have holdsAfter : (after.headerAt header).Holds sectors := by
      simpa only [Disk.headerAt, sameHeader] using holds
    have now := getElem?_fileAt holdsAfter within
    rw [sameFile, before, same] at now
    exact changed now.symm
  cases owner with
  | boot =>
      rw [layout.boot] at member
      rcases List.mem_pair.mp member with same | same
      · rw [same] at changed
        exact changed (congrArg (·.bytes[0]?) untouched.boot.1)
      · rw [same] at changed
        exact changed (congrArg (·.bytes[0]?) untouched.boot.2)
  | freeMap => exact keeps layout.freeMapFile.header untouched.boot.1 untouched.freeMap member
  | directory =>
      exact keeps layout.directoryFile.header untouched.boot.2 untouched.directory member
  | entry i =>
      rcases layout.entries i with ⟨-, empty⟩ | ⟨inUse, header, file, owned, address, holds⟩
      · simp [empty] at member
      · have headers := untouched.headers i (by rwa [layout.storedDirectory_eq])
        have files := untouched.files i (by rwa [layout.storedDirectory_eq])
          fun both => removed both.1
        rw [layout.storedDirectory_eq] at headers files
        rw [address, toInt_pointer, Int.toNat_natCast] at headers files
        rw [owned] at member
        rcases List.mem_cons.mp member with same | inFile
        · rw [same] at changed
          exact changed (congrArg (·.bytes[0]?) headers)
        · exact keeps holds headers files inFile

end Confinement

/-- Along every run in which files are created up to `MaxFileSize` and data are
written through safe handles only, the handles through which a write is confined
to its file are exactly the safe ones. -/
theorem isolated_iff_safe (heap : Heap) (disk : Disk) (requests : List Request) :
    ∃ system, FileSystem.format heap disk = .ok system ∧
      (RunAllowed Session.step Session.WritesSafely ⟨system, []⟩ requests →
        AlongRun Session.step (fun session => ∀ handle ∈ session.handles,
            (handle.Isolated session.system.disk ↔ handle.Safe session.system.disk))
          ⟨system, []⟩ requests) := by
  obtain ⟨system, -, -, -, formatted, -⟩ := format_layout heap disk
  refine ⟨system, formatted, fun permitted => ?_⟩
  apply (alongRun_of_invariant Session.sound_step (Session.sound_start formatted)
    permitted).mono
  rintro session ⟨held, freeMap, directory, layout, caching⟩ handle member
  obtain ⟨data, caches⟩ := caching handle member
  constructor
  · intro isolated
    by_contra reused
    exact not_isolated layout caches reused isolated
  · exact isolated_of_safe layout caches

section Examples

/-- A file is opened and removed, and another file is created. -/
def reusingRequests : List Request :=
  [.create [97] 1 Heap.blank, .open [97] Heap.blank, .remove [97] Heap.blank,
    .create [98] 1 Heap.blank]

theorem reusingRequests_allowed (session : Session) :
    RunAllowed Session.step Session.WritesSafely session reusingRequests := by
  have size : 0 ≤ (1 : CInt).toInt ∧ (1 : CInt).toInt ≤ maxFileSize := by decide
  exact fun _ _ => ⟨size, fun _ _ => ⟨trivial, fun _ _ => ⟨trivial, fun _ _ => ⟨size, trivial⟩⟩⟩⟩

theorem isolated_iff_safe_example :
    ∃ system, FileSystem.format Heap.blank Disk.blank = .ok system ∧
      AlongRun Session.step (fun session => ∀ handle ∈ session.handles,
          (handle.Isolated session.system.disk ↔ handle.Safe session.system.disk))
        ⟨system, []⟩ reusingRequests := by
  obtain ⟨system, formatted, along⟩ :=
    isolated_iff_safe Heap.blank Disk.blank reusingRequests
  exact ⟨system, formatted, along (reusingRequests_allowed _)⟩

/-- Whether a session has a handle of a removed file with sectors in use. -/
def hasReused : Except Fault Session → Bool
  | .ok session => session.handles.any fun handle =>
      handle.removed && handle.file.hdr.listed.any fun sector =>
        decide (sector ∈ session.system.disk.usedSectors)
  | .error _ => false

def reusingRun : Except Fault Session := do
  let system ← FileSystem.format Heap.blank Disk.blank
  run Session.step ⟨system, []⟩ reusingRequests

set_option maxRecDepth 4000 in
theorem reusingRun_reuses : hasReused reusingRun = true := by
  decide +kernel

/-- A write through a handle of a removed file reaches the file created later. -/
theorem removed_file_not_isolated :
    ∃ system last handle, FileSystem.format Heap.blank Disk.blank = .ok system ∧
      run Session.step ⟨system, []⟩ reusingRequests = .ok last ∧
        handle ∈ last.handles ∧ ¬ handle.Isolated last.system.disk := by
  have reuses := reusingRun_reuses
  cases reached : reusingRun with
  | error fault =>
      rw [reached] at reuses
      cases reuses
  | ok last =>
      rw [reached] at reuses
      obtain ⟨system, formatted, ran⟩ := bind_eq_ok_iff.mp reached
      obtain ⟨held, freeMap, directory, layout, caching⟩ := invariant_of_run
        Session.sound_step (Session.sound_start formatted) (reusingRequests_allowed _) ran
      simp only [hasReused, List.any_eq_true, Bool.and_eq_true, decide_eq_true_eq] at reuses
      obtain ⟨handle, member, removed, sector, listed, used⟩ := reuses
      obtain ⟨data, caches⟩ := caching handle member
      refine ⟨system, last, handle, formatted, ran, member, not_isolated layout caches ?_⟩
      rintro (present | idle)
      · rw [removed] at present
        cases present
      · exact idle sector listed used

end Examples

end Nachos
