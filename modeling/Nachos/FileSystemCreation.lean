import Nachos.DirectoryMap
import Nachos.FileAllocation
import Nachos.FileSystemLayout

/-!
# Creating a file

`Create` changes the free map and the directory in memory and writes both back
only when everything has worked.  The results here need less than the layout:
the free map may mark more sectors than are in use, and the existing files may
be of any size.
-/

namespace Nachos

open LittleEndianWords TransitionRuns ExclusiveOwnership

/-- A file on the disk: its header, as far as a sector holds it, and its blocks. -/
structure ExistingFile (disk : Disk) where
  sector : SectorNumber
  header : FileHeader
  blocks : FileBlocks
  front : header.SameFront (disk.headerAt sector.val)
  stored : blocks.Stored header disk

namespace ExistingFile

/-- The sectors of the header, the data and the index. -/
def sectors {disk : Disk} (file : ExistingFile disk) : List SectorNumber :=
  file.sector :: file.blocks.sectors

/-- Nothing of the file has changed. -/
structure Kept {disk : Disk} (file : ExistingFile disk) (after : Disk) : Prop where
  sectors : ∀ sector ∈ file.sectors, after sector.val = disk sector.val
  header : after.headerAt file.sector.val = disk.headerAt file.sector.val
  stored : file.blocks.Stored file.header after
  contents : file.header.contents after file.blocks.data =
    file.header.contents disk file.blocks.data

theorem kept_of_sectors {disk after : Disk} {file : ExistingFile disk}
    (same : ∀ sector ∈ file.sectors, after sector.val = disk sector.val) :
    file.Kept after where
  sectors := same
  header := by
    simp only [Disk.headerAt, same file.sector List.mem_cons_self]
  stored := file.stored.congr fun sector isIndex =>
    same sector (List.mem_cons_of_mem _ (file.blocks.mem_sectors.mpr (Or.inr isIndex)))
  contents := by
    rw [FileHeader.contents, FileHeader.contents, Disk.blocks, Disk.blocks]
    congr 1
    apply List.flatMap_congr
    intro sector isData
    rw [same sector (List.mem_cons_of_mem _ (file.blocks.mem_sectors.mpr (Or.inl isData)))]

end ExistingFile

/-- The free map on the disk marks the sectors of the two system files and of
the other files, and the system files share no sector with another file. -/
structure UsedMarked {ι : Type} (system : FileSystem) (freeMap : BitMap Disk.numSectors)
    (directory : Directory numDirEntries) (mapSectors dirSectors : List SectorNumber)
    (files : ι → ExistingFile system.disk) : Prop where
  freeMapFile : SystemFile system.disk freeMapSector system.freeMapFile mapSectors
    freeMap.toBytes
  directoryFile : SystemFile system.disk directorySector system.directoryFile dirSectors
    directory.toBytes
  systemMarked : ∀ sector ∈ bootSectors ++ (mapSectors ++ dirSectors),
    freeMap.testBit sector = true
  systemApart : (bootSectors ++ (mapSectors ++ dirSectors)).Nodup
  filesMarked : ∀ i, ∀ sector ∈ (files i).sectors, freeMap.testBit sector = true
  filesApart : ∀ i, ∀ sector ∈ (files i).sectors, sector ∉ mapSectors ++ dirSectors

/-- What a `Create` that returns `TRUE` did: the name is bound to a sector that
was clear and holds the header of the new file, in an entry that was not in use,
and the other entries are as they were. -/
structure Created (freeMap : BitMap Disk.numSectors) (directory : Directory numDirEntries)
    (dirSectors : List SectorNumber) (name : CString) (initialSize : CInt)
    (after : FileSystem) (i : Fin numDirEntries) (sector : SectorNumber)
    (directory' : Directory numDirEntries) : Prop where
  absent : directory.findIndex name = none
  idle : (directory.table i).inUse = false
  wasClear : freeMap.testBit sector = false
  stored : SystemFile after.disk directorySector after.directoryFile dirSectors
    directory'.toBytes
  found : directory'.find name = pointer sector
  entries : ∀ j : Fin numDirEntries, j ≠ i → directory'.table j = directory.table j
  header : (after.disk.headerAt sector.val).fileLength = initialSize

/-- In the layout that the operations of the file system keep, the free map
marks every sector in use. -/
theorem Draft.exists_usedMarked {system : FileSystem} {held : Holdings}
    {freeMap : BitMap Disk.numSectors} {directory : Directory numDirEntries}
    (layout : Layout system held freeMap directory) :
    ∃ files : {i : Fin numDirEntries // (directory.table i).inUse = true} →
        ExistingFile system.disk,
      (∀ i, (directory.table i.val).sector = pointer (files i).sector) ∧
        UsedMarked system freeMap directory (held .freeMap) (held .directory) files := by
  have each : ∀ i : {i : Fin numDirEntries // (directory.table i).inUse = true},
      ∃ file : ExistingFile system.disk,
        (directory.table i.val).sector = pointer file.sector ∧
          file.sectors = held (.entry i.val) := by
    intro i
    obtain ⟨header, data, owned, address, holds⟩ := layout.entry_of_inUse i.property
    let blocks : FileBlocks := ⟨data, none, holds.length_le, by simp⟩
    have whole : blocks.data = data := by
      rw [FileBlocks.data, Option.elim_none, List.append_nil]
    let file : ExistingFile system.disk := {
      sector := header
      header := system.disk.headerAt header.val
      blocks := blocks
      front := ⟨rfl, rfl, rfl⟩
      stored := {
        numSectors := by rw [whole, holds.numSectors]
        direct := by
          obtain ⟨rest, all⟩ := holds.dataSectors_toList
          exact ⟨rest, all.symm⟩
        l1 := by simp [blocks] } }
    refine ⟨file, address, ?_⟩
    rw [owned, ExistingFile.sectors, FileBlocks.sectors, Option.elim_none, List.append_nil]
  choose files address owned using each
  refine ⟨files, address, ?_⟩
  have marked : ∀ {owner : Owner} {sector : SectorNumber}, sector ∈ held owner →
      freeMap.testBit sector = true :=
    fun {owner} {sector} member => (layout.ledger.marks sector).mpr ⟨owner, member⟩
  exact {
    freeMapFile := layout.freeMapFile
    directoryFile := layout.directoryFile
    systemMarked := by
      intro sector member
      rw [← layout.boot, List.mem_append, List.mem_append] at member
      rcases member with isBoot | inMap | inDirectory
      · exact marked isBoot
      · exact marked inMap
      · exact marked inDirectory
    systemApart := by
      have owners := layout.ledger.nodup_flatMap
        (show [Owner.boot, .freeMap, .directory].Nodup by decide)
      simpa [layout.boot] using owners
    filesMarked := by
      intro i sector inside
      rw [owned i] at inside
      exact marked inside
    filesApart := by
      intro i sector inside system
      rw [owned i] at inside
      rcases List.mem_append.mp system with inMap | inDirectory
      · cases layout.ledger.unique inside inMap
      · cases layout.ledger.unique inside inDirectory }

section Create

variable {ι : Type} {system after : FileSystem} {freeMap : BitMap Disk.numSectors}
  {directory : Directory numDirEntries} {mapSectors dirSectors : List SectorNumber}
  {files : ι → ExistingFile system.disk} {heap : Heap} {name : CString}
  {initialSize : CInt}

/-- A sector that is marked is not touched by the allocation of a file. -/
theorem Allocation.kept {freeMap' : BitMap Disk.numSectors} {fileSize : CInt}
    {allocated : FileHeader} {disk disk' : Disk} {blocks : FileBlocks}
    (allocation : Allocation freeMap freeMap' fileSize allocated disk disk' blocks)
    {sector : SectorNumber} (marked : freeMap.testBit sector = true) :
    disk' sector.val = disk sector.val := by
  apply allocation.placed.outside
  intro member inside same
  have clear := allocation.wereClear member inside
  rw [Fin.ext same, marked] at clear
  cases clear

namespace UsedMarked

theorem marked_of_boot
    (used : UsedMarked system freeMap directory mapSectors dirSectors files)
    {sector : SectorNumber} (isBoot : sector ∈ bootSectors) :
    freeMap.testBit sector = true ∧ sector ∉ mapSectors ∧ sector ∉ dirSectors := by
  have apart := (List.nodup_append.mp used.systemApart).2.2 sector isBoot
  refine ⟨used.systemMarked sector (List.mem_append_left _ isBoot), ?_, ?_⟩
  · intro inMap
    exact apart sector (List.mem_append_left _ inMap) rfl
  · intro inDirectory
    exact apart sector (List.mem_append_right _ inDirectory) rfl

theorem marked_of_map
    (used : UsedMarked system freeMap directory mapSectors dirSectors files)
    {sector : SectorNumber} (inMap : sector ∈ mapSectors) :
    freeMap.testBit sector = true ∧ sector ∉ dirSectors := by
  have apart := (List.nodup_append.mp (List.nodup_append.mp used.systemApart).2.1).2.2
  refine ⟨used.systemMarked sector (by simp [inMap]), ?_⟩
  intro inDirectory
  exact apart sector inMap sector inDirectory rfl

theorem marked_of_directory
    (used : UsedMarked system freeMap directory mapSectors dirSectors files)
    {sector : SectorNumber} (inDirectory : sector ∈ dirSectors) :
    freeMap.testBit sector = true ∧ sector ∉ mapSectors := by
  refine ⟨used.systemMarked sector (by simp [inDirectory]), ?_⟩
  intro inMap
  exact (used.marked_of_map inMap).2 inDirectory

/-- The directory and then the free map are written, to a disk on which the marked sectors
are as they were. -/
theorem writeFiles (used : UsedMarked system freeMap directory mapSectors dirSectors files)
    {base second third : Disk} (kept : ∀ other : SectorNumber, freeMap.testBit other = true →
      base other.val = system.disk other.val)
    {directory' : Directory numDirEntries} {freeMap' : BitMap Disk.numSectors}
    {memory memory' : Memory}
    (wroteDirectory : directory'.writeBack system.directoryFile memory base = .ok second)
    (wroteMap : freeMap'.writeBack system.freeMapFile memory' second = .ok third) :
    SystemFile third directorySector system.directoryFile dirSectors directory'.toBytes ∧
      ∀ other : SectorNumber, other ∉ mapSectors ++ dirSectors →
        third other.val = base other.val := by
  let mapHeader : SectorNumber := ⟨freeMapSector, by decide⟩
  let dirHeader : SectorNumber := ⟨directorySector, by decide⟩
  have mapBoot := used.marked_of_boot (show mapHeader ∈ bootSectors by decide)
  have dirBoot := used.marked_of_boot (show dirHeader ∈ bootSectors by decide)
  have unlisted : ∀ other : SectorNumber, ∀ {sectors : List SectorNumber},
      other ∉ sectors → ∀ member ∈ sectors, member.val ≠ other.val := by
    intro other sectors absent member inside same
    exact absent (Fin.ext same ▸ inside)
  have dirFile : SystemFile base directorySector system.directoryFile dirSectors
      directory.toBytes := by
    apply used.directoryFile.of_unchanged (kept dirHeader dirBoot.1)
    intro member inFile
    exact kept member (used.marked_of_directory inFile).1
  obtain ⟨disk, wrote, outsideDirectory, dirFile⟩ := dirFile.writeDirectory
    directory.length_toBytes (unlisted dirHeader dirBoot.2.2) directory' memory
  obtain rfl := Except.ok.inj (wroteDirectory.symm.trans wrote)
  have mapFile : SystemFile second freeMapSector system.freeMapFile mapSectors
      freeMap.toBytes := by
    apply used.freeMapFile.of_unchanged
    · exact (outsideDirectory _ (unlisted mapHeader mapBoot.2.2)).trans
        (kept mapHeader mapBoot.1)
    · intro member inFile
      obtain ⟨marked, foreign⟩ := used.marked_of_map inFile
      exact (outsideDirectory _ (unlisted member foreign)).trans (kept member marked)
  obtain ⟨disk, wrote, outsideMap, -⟩ := mapFile.writeFreeMap
    (BitMap.length_toBytes freeMap) (unlisted mapHeader mapBoot.2.1) freeMap' memory'
  obtain rfl := Except.ok.inj (wroteMap.symm.trans wrote)
  constructor
  · apply dirFile.of_unchanged
    · exact outsideMap _ (unlisted dirHeader dirBoot.2.1)
    · intro member inFile
      exact outsideMap _ (unlisted member (used.marked_of_directory inFile).2)
  · intro other foreign
    rw [List.mem_append, not_or] at foreign
    rw [outsideMap _ (unlisted other foreign.1),
      outsideDirectory _ (unlisted other foreign.2)]

theorem not_mem_files (used : UsedMarked system freeMap directory mapSectors dirSectors files)
    {sector : SectorNumber} (clear : freeMap.testBit sector = false) :
    sector ∉ mapSectors ++ dirSectors := by
  intro inFiles
  have marked : freeMap.testBit sector = true := by
    rcases List.mem_append.mp inFiles with inMap | inDirectory
    · exact (used.marked_of_map inMap).1
    · exact (used.marked_of_directory inDirectory).1
  rw [clear] at marked
  cases marked

end UsedMarked

/-- From the allocation on, `Create` writes to sectors that were clear and to
the data of the system files. -/
theorem createAt_eq_true (used : UsedMarked system freeMap directory mapSectors dirSectors files)
    {sector : SectorNumber} (clear : freeMap.testBit sector = false)
    {directory' : Directory numDirEntries}
    (done : system.createAt heap initialSize (pointer sector) (freeMap.markBit sector)
      directory' = .ok (true, after)) :
    SystemFile after.disk directorySector after.directoryFile dirSectors
        directory'.toBytes ∧
      (after.disk.headerAt sector.val).fileLength = initialSize ∧
      ∀ other : SectorNumber, freeMap.testBit other = true →
        other ∉ mapSectors ++ dirSectors →
          after.disk other.val = system.disk other.val := by
  obtain ⟨⟨success, hdr, freeMap', base⟩, allocating, done⟩ := bind_eq_ok_iff.mp done
  cases success with
  | false => cases done
  | true =>
      obtain ⟨written, writing, done⟩ := bind_eq_ok_iff.mp done
      obtain ⟨second, wroteDirectory, done⟩ := bind_eq_ok_iff.mp done
      obtain ⟨third, wroteMap, done⟩ := bind_eq_ok_iff.mp done
      obtain ⟨-, rfl⟩ := Prod.mk.inj (Except.ok.inj done)
      obtain ⟨blocks, allocation⟩ := FileHeader.allocate_eq_ok_true allocating
      obtain ⟨content, stores, front⟩ := hdr.writeBack_headerAt base sector.isLt
      rw [toInt_pointer, stores] at writing
      obtain rfl := Except.ok.inj writing
      -- Up to here only sectors that were clear have changed.
      have first : ∀ other : SectorNumber, freeMap.testBit other = true →
          Function.update base sector.val content other.val = system.disk other.val := by
        intro other marked
        have different : other ≠ sector := by
          rintro rfl
          rw [clear] at marked
          cases marked
        rw [Function.update_of_ne fun same => different (Fin.ext same)]
        exact allocation.kept (by simp [marked])
      obtain ⟨dirFile, outside⟩ := used.writeFiles first wroteDirectory wroteMap
      refine ⟨dirFile, ?_, ?_⟩
      · have same := front third <| by
          rw [outside sector (used.not_mem_files clear), Function.update_self]
        exact same.numBytes.trans allocation.numBytes
      · intro other marked foreign
        exact (outside other foreign).trans (first other marked)

/-- `createAt` that gives up has not written to the disk. -/
theorem createAt_eq_false {sector : CInt} {map : BitMap Disk.numSectors}
    {directory' : Directory numDirEntries}
    (done : system.createAt heap initialSize sector map directory' = .ok (false, after)) :
    after = system := by
  obtain ⟨⟨success, hdr, freeMap', base⟩, allocating, done⟩ := bind_eq_ok_iff.mp done
  cases success with
  | false =>
      obtain ⟨-, -, rfl⟩ := FileHeader.allocate_eq_ok_false allocating
      exact (Prod.mk.inj (Except.ok.inj done)).2.symm
  | true =>
      obtain ⟨written, -, done⟩ := bind_eq_ok_iff.mp done
      obtain ⟨second, -, done⟩ := bind_eq_ok_iff.mp done
      obtain ⟨third, -, done⟩ := bind_eq_ok_iff.mp done
      cases (Prod.mk.inj (Except.ok.inj done)).1

/-- `Create` does everything or nothing. -/
theorem create_allOrNothing
    (used : UsedMarked system freeMap directory mapSectors dirSectors files)
    {created : Bool}
    (done : system.create heap name initialSize = .ok (created, after)) :
    (created = false → after = system) ∧
      (created = true →
        (∃ i sector directory', Created freeMap directory dirSectors name initialSize after
          i sector directory') ∧
        (∀ sector ∈ bootSectors, after.disk sector.val = system.disk sector.val) ∧
        ∀ k, (files k).Kept after.disk) := by
  rcases FileSystem.create_cases (FileSystem.fetchDirectory_eq used.directoryFile heap)
      (FileSystem.fetchFreeMap_eq used.freeMapFile heap) name initialSize with
    refused | ⟨i, sector, absent, idle, clear, goesOn⟩
  · rw [refused] at done
    cases done
    simp
  rw [goesOn] at done
  constructor
  · rintro rfl
    exact createAt_eq_false done
  · rintro rfl
    obtain ⟨stored, header, kept⟩ := createAt_eq_true used clear done
    constructor
    · exact ⟨i, sector, _, {
        absent := absent
        idle := idle
        wasClear := clear
        stored := stored
        found := Directory.find_set_assign absent i _
        entries := fun j different => Vector.getElem_set_ne _ _ fun same =>
          different (Fin.ext same.symm)
        header := header }⟩
    constructor
    · intro boot isBoot
      obtain ⟨marked, notMap, notDirectory⟩ := used.marked_of_boot isBoot
      exact kept boot marked (by simp [notMap, notDirectory])
    · intro k
      apply ExistingFile.kept_of_sectors
      intro other inside
      exact kept other (used.filesMarked k other inside) (used.filesApart k other inside)

end Create

section Examples

/-- A file is created beside an existing one. -/
def secondCreation : Except Fault (Bool × Bool × FileSystem × FileSystem) := do
  let system ← FileSystem.format Heap.blank Disk.blank
  let (first, system) ← system.create Heap.blank [97] 300
  let (second, after) ← system.create Heap.blank [98] 300
  .ok (first, second, system, after)

set_option maxRecDepth 4000 in
theorem secondCreation_succeeds :
    (secondCreation.map fun result => (result.1, result.2.1)).toOption = some (true, true) := by
  decide +kernel

theorem create_allOrNothing_example :
    ∃ (system after : FileSystem) (freeMap : BitMap Disk.numSectors)
        (directory : Directory numDirEntries) (dirSectors : List SectorNumber)
        (files : {i : Fin numDirEntries // (directory.table i).inUse = true} →
          ExistingFile system.disk),
      (∃ i : Fin numDirEntries, (directory.table i).inUse = true) ∧
        system.create Heap.blank [98] 300 = .ok (true, after) ∧
        (∃ i sector directory', Created freeMap directory dirSectors [98] 300 after
          i sector directory') ∧
        (∀ sector ∈ bootSectors, after.disk sector.val = system.disk sector.val) ∧
        ∀ k, (files k).Kept after.disk := by
  have succeeds := secondCreation_succeeds
  obtain ⟨system, held, freeMap, directory, formatted, layout, -⟩ :=
    format_layout Heap.blank Disk.blank
  rw [secondCreation, formatted, ok_bind] at succeeds
  rcases layout.create Heap.blank [97] (show (300 : CInt).toInt = (300 : Nat) by decide)
      (by decide) with
    refused | ⟨i, header, data, disk, freeMap', directory', -, created, layout⟩
  · rw [refused, ok_bind] at succeeds
    cases second : system.create Heap.blank [98] 300 with
    | error fault =>
        simp only [second] at succeeds
        cases succeeds
    | ok result =>
        simp only [second] at succeeds
        cases succeeds
  · rw [created, ok_bind] at succeeds
    have inUse : directory'[i].inUse = true := by
      by_contra idle
      have nothing := layout.held_of_idle (by simpa using idle)
      rw [Function.update_self] at nothing
      cases nothing
    obtain ⟨files, -, used⟩ := layout.exists_usedMarked
    cases second : FileSystem.create { system with disk := disk } Heap.blank [98] 300 with
    | error fault =>
        simp only [second] at succeeds
        cases succeeds
    | ok result =>
        obtain ⟨added, after⟩ := result
        cases added with
        | false =>
            simp only [second] at succeeds
            cases succeeds
        | true =>
            have done := (create_allOrNothing used second).2 rfl
            exact ⟨_, after, _, _, _, files, ⟨i, inUse⟩, second, done⟩

end Examples

end Nachos
