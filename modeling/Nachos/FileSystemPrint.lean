import Mathlib.Data.List.TakeWhile
import Nachos.FileHeaderPrint
import Nachos.FileSystemStore

/-!
# The debugging dump of the file system

`FileSystem::List` and `FileSystem::Print`, with `BitMap::Print`, `Directory::List` and
`Directory::Print`.  What they print is consistent: the sectors of the dump are, each one
once, those of the bitmap, and the names and contents are those of the files.

`printf` takes a name as far as the next zero byte in memory.  `strncpy` stores none behind a
name of `FileNameMaxLen` or more characters, so that what is printed for it may go on.
-/

namespace Nachos

open SlotMap TransitionRuns

namespace BitMap

variable {numBits : Nat}

/-- The loop of `Print`. -/
def printBits (bits : BitMap numBits) : List Nat → Except Fault (List Nat)
  | [] => .ok []
  | i :: rest => do
      let marked ← bits.test i
      let others ← bits.printBits rest
      .ok (if marked then i :: others else others)

/-- `BitMap::Print`: the indices that are printed. -/
def print (bits : BitMap numBits) : Except Fault (List Nat) :=
  bits.printBits (List.range numBits)

end BitMap

/-- A line of `Directory::Print`, and the dump that follows it. -/
structure ListedFile where
  name : List Byte
  sector : CInt
  dump : FileHeader.Dump

/-- The sectors that are printed for a file. -/
def ListedFile.sectors (file : ListedFile) : List CInt :=
  file.sector :: file.dump.fileBlocks

namespace Directory

variable {tableSize : Nat}

/-- The offset of `name` in a `DirectoryEntry`. -/
def nameOffset : Nat := 8

/-- The characters that `printf` prints for `table[i].name`. -/
def printedName (directory : Directory tableSize) (i : Fin tableSize) :
    Except Fault (List Byte) :=
  let memory := directory.toBytes.drop (i.val * DirectoryEntry.size + nameOffset)
  if 0 ∈ memory then .ok (memory.takeWhile (· != 0)) else .error .outOfBounds

/-- The loop of `List`. -/
def listEntries (directory : Directory tableSize) :
    List (Fin tableSize) → Except Fault (List (List Byte))
  | [] => .ok []
  | i :: rest =>
      if (directory.table i).inUse then do
        let name ← directory.printedName i
        let others ← directory.listEntries rest
        .ok (name :: others)
      else directory.listEntries rest

/-- `Directory::List`. -/
def list (directory : Directory tableSize) : Except Fault (List (List Byte)) :=
  directory.listEntries (List.finRange tableSize)

/-- The loop of `Print`, which fetches all headers into the same object. -/
def printEntries (directory : Directory tableSize) (disk : Disk) :
    FileHeader → List (Fin tableSize) → Except Fault (List ListedFile)
  | _, [] => .ok []
  | hdr, i :: rest =>
      if (directory.table i).inUse then do
        let name ← directory.printedName i
        let hdr ← hdr.fetchFrom disk (directory.table i).sector.toInt
        let dump ← hdr.print disk
        let others ← directory.printEntries disk hdr rest
        .ok (⟨name, (directory.table i).sector, dump⟩ :: others)
      else directory.printEntries disk hdr rest

/-- `Directory::Print`. -/
def print (directory : Directory tableSize) (disk : Disk) (hdr : FileHeader) :
    Except Fault (List ListedFile) :=
  directory.printEntries disk hdr (List.finRange tableSize)

end Directory

/-- What `FileSystem::Print` prints. -/
structure SystemDump where
  mapHeader : FileHeader.Dump
  directoryHeader : FileHeader.Dump
  bitmap : List Nat
  files : List ListedFile

namespace SystemDump

def character (byte : Byte) : Char :=
  Char.ofNat byte.toNat

/-- The output of `Directory::Print` for an entry. -/
def fileText (file : ListedFile) : String :=
  "Name: " ++ String.ofList (file.name.map character) ++ ", Sector: " ++
    toString file.sector.toInt ++ "\n" ++ file.dump.text

def text (dump : SystemDump) : String :=
  "Bit map file header:\n" ++ dump.mapHeader.text ++
    "Directory file header:\n" ++ dump.directoryHeader.text ++
    "Bitmap set:\n" ++ String.join (dump.bitmap.map fun i => toString i ++ ", ") ++ "\n" ++
    "Directory contents:\n" ++ String.join (dump.files.map fileText) ++ "\n"

/-- The sectors that the dump mentions: those of the two system files with their headers,
and for every file that of its header and those of its blocks. -/
def sectors (dump : SystemDump) : List CInt :=
  [BitVec.ofNat 32 freeMapSector, BitVec.ofNat 32 directorySector] ++
    (dump.mapHeader.fileBlocks ++ (dump.directoryHeader.fileBlocks ++
      dump.files.flatMap ListedFile.sectors))

end SystemDump

namespace FileSystem

/-- `FileSystem::List`. -/
def list (system : FileSystem) (heap : Heap) : Except Fault (List (List Byte)) := do
  let directory ← system.fetchDirectory heap
  directory.list

/-- `FileSystem::Print`. -/
def print (system : FileSystem) (heap : Heap) : Except Fault SystemDump := do
  let bitHdr ← (heap.header 0).fetchFrom system.disk freeMapSector
  let mapHeader ← bitHdr.print system.disk
  let dirHdr ← (heap.header 1).fetchFrom system.disk directorySector
  let directoryHeader ← dirHdr.print system.disk
  let freeMap ← system.fetchFreeMap heap
  let bitmap ← freeMap.print
  let directory ← system.fetchDirectory heap
  let files ← directory.print system.disk (heap.header 2)
  .ok ⟨mapHeader, directoryHeader, bitmap, files⟩

end FileSystem

section BitMaps

variable {numBits : Nat}

theorem BitMap.printBits_eq (bits : BitMap numBits) (indices : List (Fin numBits)) :
    bits.printBits (indices.map Fin.val) =
      .ok ((indices.filter bits.testBit).map Fin.val) := by
  induction indices with
  | nil => rfl
  | cons index indices ih =>
      have test : bits.test index.val = .ok (bits.testBit index) := by
        have inside : (0 : Int) ≤ index.val ∧ (index.val : Int) < numBits := by omega
        rw [BitMap.test, BitMap.index, dif_pos inside]
        rfl
      rw [List.map_cons, BitMap.printBits, test, ok_bind, ih, ok_bind]
      cases marked : bits.testBit index <;> simp [marked]

theorem BitMap.print_eq (bits : BitMap numBits) :
    bits.print = .ok (((List.finRange numBits).filter bits.testBit).map Fin.val) := by
  rw [BitMap.print, ← List.map_coe_finRange_eq_range]
  exact bits.printBits_eq _

end BitMaps

namespace FileHeader

variable {header : FileHeader} {disk : Disk} {sectors : List SectorNumber}

/-- `Print` of a file without indirect pointers shows its sectors and its contents. -/
theorem Holds.print (holds : header.Holds sectors) (distinct : sectors.Nodup) (disk : Disk) :
    ∃ dump, header.print disk = .ok dump ∧ dump.fileBlocks = sectors.map pointer ∧
      dump.bytes = header.contents disk sectors := by
  have length := holds.length_le
  have count : header.numSectors.toInt = sectors.length := by
    rw [holds.numSectors]
    apply CInt.toInt_ofNat_of_lt
    simp only [numDirect, Disk.sectorSize] at length
    omega
  obtain ⟨dump, printed, blocks, -, bytes⟩ :=
    (holds.maps distinct disk).print_eq count length
  exact ⟨dump, printed, blocks, bytes⟩

end FileHeader

section Names

variable {tableSize : Nat} {directory : Directory tableSize} {i : Fin tableSize}

/-- The bytes of an entry from its name on. -/
theorem DirectoryEntry.drop_nameOffset (entry : DirectoryEntry) (rest : List Byte) :
    (entry.toBytes ++ rest).drop Directory.nameOffset =
      entry.name.toList ++ (entry.extName.toList ++ (entry.fullPath.toList ++ rest)) := by
  have bytes : entry.toBytes ++ rest =
      ((if entry.inUse then (1 : Byte) else 0) ::
        (entry.padding.toList ++ LittleEndianWords.wordBytes entry.sector)) ++
      (entry.name.toList ++ (entry.extName.toList ++ (entry.fullPath.toList ++ rest))) := by
    simp [DirectoryEntry.toBytes]
  rw [bytes]
  apply List.drop_left'
  simp [Directory.nameOffset]

theorem Directory.drop_nameOffset (directory : Directory tableSize) (i : Fin tableSize) :
    ∃ rest, directory.toBytes.drop (i.val * DirectoryEntry.size + Directory.nameOffset) =
      (directory.table i).name.toList ++ rest := by
  have inside : i.val < directory.toList.length := by simp
  have split : directory.toList = directory.toList.take i.val ++
      directory.table i :: directory.toList.drop (i.val + 1) := by
    conv_lhs => rw [← List.take_append_drop i.val directory.toList]
    rw [List.drop_eq_getElem_cons inside]
    simp
  have front : ((directory.toList.take i.val).flatMap DirectoryEntry.toBytes).length =
      i.val * DirectoryEntry.size := by
    rw [ListSplice.length_flatMap_blocks fun entry _ => entry.length_toBytes, List.length_take,
      Nat.min_eq_left inside.le]
  refine ⟨(directory.table i).extName.toList ++ ((directory.table i).fullPath.toList ++
    (directory.toList.drop (i.val + 1)).flatMap DirectoryEntry.toBytes), ?_⟩
  rw [← List.drop_drop, Directory.toBytes, split, List.flatMap_append, List.flatMap_cons, ← front,
    List.drop_left, DirectoryEntry.drop_nameOffset, ← split]

/-- A name that is shorter than `FileNameMaxLen` is printed as it is. -/
theorem Directory.printedName_of_short
    (short : (cutName (directory.table i).name.toList).length < fileNameMaxLen) :
    directory.printedName i = .ok (cutName (directory.table i).name.toList) := by
  obtain ⟨rest, memory⟩ := directory.drop_nameOffset i
  have whole : cutName (directory.table i).name.toList =
      (directory.table i).name.toList.takeWhile (· != 0) := by
    apply List.take_of_length_le
    rw [cutName, List.length_take] at short
    omega
  rw [whole] at short ⊢
  have ends : 0 ∈ (directory.table i).name.toList := by
    by_contra absent
    have all : (directory.table i).name.toList.takeWhile (· != 0) =
        (directory.table i).name.toList := by
      rw [List.takeWhile_eq_self_iff]
      intro byte member
      simp only [bne_iff_ne, ne_eq]
      rintro rfl
      exact absent member
    rw [all, Vector.length_toList] at short
    omega
  have printed : ((directory.table i).name.toList ++ rest).takeWhile (· != 0) =
      (directory.table i).name.toList.takeWhile (· != 0) := by
    rw [List.takeWhile_append, if_neg (by rw [Vector.length_toList]; omega)]
  rw [Directory.printedName, memory, if_pos (List.mem_append_left _ ends), printed]

end Names

section Listing

variable {session : Session} {store : FileStore} {held : Holdings}
  {freeMap : BitMap Disk.numSectors} {directory : Directory numDirEntries}

/-- The name of the file in a slot. -/
def Directory.nameAt (directory : Directory numDirEntries) (i : Fin numDirEntries) :
    Option (List Byte) :=
  (directory.slots i).map Prod.fst

/-- All names are short. -/
def Directory.Short (directory : Directory numDirEntries) : Prop :=
  ∀ i name sector, directory.slots i = some (name, sector) → name.length < fileNameMaxLen

theorem Directory.Short.printedName (short : directory.Short) {i : Fin numDirEntries}
    (inUse : (directory.table i).inUse = true) : ∃ name, directory.printedName i = .ok name ∧
      directory.slots i = some (name, (directory.table i).sector) := by
  have slot : directory.slots i =
      some (cutName (directory.table i).name.toList, (directory.table i).sector) := by
    rw [Directory.slots, if_pos inUse]
  exact ⟨_, Directory.printedName_of_short (short i _ _ slot), slot⟩

theorem Directory.Short.listEntries (short : directory.Short)
    (indices : List (Fin numDirEntries)) :
    directory.listEntries indices = .ok (indices.filterMap directory.nameAt) := by
  induction indices with
  | nil => rfl
  | cons i indices ih =>
      rw [Directory.listEntries]
      by_cases inUse : (directory.table i).inUse = true
      · obtain ⟨name, printed, slot⟩ := short.printedName inUse
        have named : directory.nameAt i = some name := by rw [Directory.nameAt, slot]; rfl
        rw [if_pos inUse, printed, ok_bind, ih, ok_bind, List.filterMap_cons_some named]
      · have unnamed : directory.nameAt i = none := by
          rw [Directory.nameAt, Directory.slots, if_neg inUse]
          rfl
        rw [if_neg inUse, ih, List.filterMap_cons_none unnamed]

/-- The loop of `Print` shows the files of the entries with their sectors. -/
theorem printEntries_eq {system : FileSystem} (layout : Layout system held freeMap directory)
    (short : directory.Short) (hdr : FileHeader) (indices : List (Fin numDirEntries)) :
    ∃ files, directory.printEntries system.disk hdr indices = .ok files ∧
      files.map ListedFile.name = indices.filterMap directory.nameAt ∧
      files.flatMap ListedFile.sectors =
        (indices.flatMap fun i => held (.entry i)).map pointer ∧
      ∀ file ∈ files, ∃ i,
        system.disk.fileSlots directory i = some (file.name, file.dump.bytes) := by
  induction indices generalizing hdr with
  | nil => exact ⟨[], rfl, rfl, rfl, nofun⟩
  | cons i indices ih =>
      rw [Directory.printEntries]
      by_cases inUse : (directory.table i).inUse = true
      · obtain ⟨name, printed, slot⟩ := short.printedName inUse
        obtain ⟨header, data, owned, address, holds⟩ := layout.entry_of_inUse inUse
        obtain ⟨loaded, fetched, front⟩ := hdr.fetchFrom_sameFront system.disk header.isLt
        have distinct : data.Nodup :=
          (List.nodup_cons.mp (owned ▸ layout.ledger.nodup (.entry i))).2
        obtain ⟨dump, dumped, blocks, bytes⟩ :=
          (holds.of_sameFront front).print distinct system.disk
        obtain ⟨files, others, names, sectors, contents⟩ := ih loaded
        have sector : (directory.table i).sector.toInt = header.val := by
          rw [address, toInt_pointer]
        refine ⟨⟨name, (directory.table i).sector, dump⟩ :: files, ?_, ?_, ?_, ?_⟩
        · rw [if_pos inUse, printed, ok_bind, sector, fetched, ok_bind, dumped, ok_bind, others,
            ok_bind]
        · have named : directory.nameAt i = some name := by rw [Directory.nameAt, slot]; rfl
          rw [List.map_cons, names, List.filterMap_cons_some named]
        · rw [List.flatMap_cons, sectors, List.flatMap_cons, owned, List.map_append,
            List.map_cons, ListedFile.sectors, blocks, address]
        · intro file member
          rcases List.mem_cons.mp member with rfl | member
          · refine ⟨i, ?_⟩
            have whole : dump.bytes = system.disk.fileAt header.val := by
              rw [bytes, fileAt_eq_contents holds, FileHeader.contents, FileHeader.contents,
                FileHeader.fileLength, front.numBytes]
              rfl
            rw [Disk.fileSlots, slot, Option.map_some, sector, whole]
            rfl
          · exact contents file member
      · have unnamed : directory.nameAt i = none := by
          rw [Directory.nameAt, Directory.slots, if_neg inUse]
          rfl
        obtain ⟨files, others, names, sectors, contents⟩ := ih hdr
        refine ⟨files, ?_, ?_, ?_, contents⟩
        · rw [if_neg inUse, others]
        · rw [names, List.filterMap_cons_none unnamed]
        · have idle : held (.entry i) = [] := layout.held_of_idle (by simpa using inUse)
          rw [sectors, List.flatMap_cons, idle, List.nil_append]

/-- `Print` of a header that was fetched shows the sectors of its file. -/
theorem print_fetched {disk : Disk} {sector : Nat} {file : OpenFile}
    {sectors : List SectorNumber} {bytes : List Byte}
    (stored : SystemFile disk sector file sectors bytes) (onDisk : sector < Disk.numSectors)
    (hdr : FileHeader) : ∃ loaded dump, hdr.fetchFrom disk sector = .ok loaded ∧
      loaded.print disk = .ok dump ∧ dump.fileBlocks = sectors.map pointer := by
  obtain ⟨loaded, fetched, front⟩ := hdr.fetchFrom_sameFront disk onDisk
  obtain ⟨dump, dumped, blocks, -⟩ :=
    (stored.header.of_sameFront front).print stored.distinct disk
  exact ⟨loaded, dump, fetched, dumped, blocks⟩

/-- `Print` goes through all sectors that are owned. -/
theorem print_eq {system : FileSystem} (layout : Layout system held freeMap directory)
    (short : directory.Short) (heap : Heap) :
    ∃ dump, system.print heap = .ok dump ∧
      dump.files.map ListedFile.name =
        (List.finRange numDirEntries).filterMap directory.nameAt ∧
      dump.sectors = (Layout.owners.flatMap held).map pointer ∧
      dump.bitmap = ((List.finRange Disk.numSectors).filter freeMap.testBit).map Fin.val ∧
      ∀ file ∈ dump.files, ∃ i,
        system.disk.fileSlots directory i = some (file.name, file.dump.bytes) := by
  obtain ⟨bitHdr, mapHeader, fetchedMap, printedMap, mapBlocks⟩ :=
    print_fetched layout.freeMapFile (by decide) (heap.header 0)
  obtain ⟨dirHdr, directoryHeader, fetchedDirectory, printedDirectory, directoryBlocks⟩ :=
    print_fetched layout.directoryFile (by decide) (heap.header 1)
  obtain ⟨files, printed, names, sectors, contents⟩ :=
    printEntries_eq layout short (heap.header 2) (List.finRange numDirEntries)
  obtain ⟨bitmap, marked⟩ : ∃ bitmap, freeMap.print = .ok bitmap ∧
      bitmap = ((List.finRange Disk.numSectors).filter freeMap.testBit).map Fin.val :=
    ⟨_, freeMap.print_eq, rfl⟩
  refine ⟨⟨mapHeader, directoryHeader, bitmap, files⟩, ?_, names, ?_, marked.2, contents⟩
  · rw [FileSystem.print, fetchedMap, ok_bind, printedMap, ok_bind, fetchedDirectory, ok_bind,
      printedDirectory, ok_bind, layout.fetchFreeMap, ok_bind, marked.1, ok_bind,
      layout.fetchDirectory, ok_bind, Directory.print, printed, ok_bind]
  · have boot : [BitVec.ofNat 32 freeMapSector, BitVec.ofNat 32 directorySector] =
        (held .boot).map pointer := by
      rw [layout.boot]
      rfl
    rw [SystemDump.sectors, mapBlocks, directoryBlocks, sectors, boot]
    simp only [Layout.owners, List.flatMap_cons, List.map_append, List.flatMap_map]

/-- What `List` and `Print` print is consistent, and agrees with the store. -/
theorem StoredIn.printed (stored : StoredIn session store held freeMap directory)
    (short : ∀ name ∈ store.files, name.length < fileNameMaxLen) (heap : Heap) :
    ∃ names dump, session.system.list heap = .ok names ∧
      session.system.print heap = .ok dump ∧
      names.Nodup ∧ (∀ name, name ∈ names ↔ name ∈ store.files) ∧
      dump.files.map ListedFile.name = names ∧
      (∀ file ∈ dump.files, store.files.lookup file.name = some file.dump.bytes) ∧
      (dump.sectors.map BitVec.toInt).Perm (dump.bitmap.map Int.ofNat) := by
  obtain ⟨layout, files, -⟩ := stored
  have slot (i : Fin numDirEntries) {name : List Byte} (named : directory.nameAt i = some name) :
      ∃ contents, session.system.disk.fileSlots directory i = some (name, contents) := by
    obtain ⟨entry, used, rfl⟩ := Option.map_eq_some_iff.mp named
    exact ⟨_, by rw [Disk.fileSlots, used]; rfl⟩
  have named (i : Fin numDirEntries) {name contents : List Byte}
      (used : session.system.disk.fileSlots directory i = some (name, contents)) :
      directory.nameAt i = some name := by
    obtain ⟨entry, slot, same⟩ := Option.map_eq_some_iff.mp used
    rw [Directory.nameAt, slot]
    exact congrArg some (congrArg Prod.fst same)
  have allShort : directory.Short := by
    intro i name sector used
    have isNamed : directory.nameAt i = some name := by rw [Directory.nameAt, used]; rfl
    obtain ⟨contents, here⟩ := slot i isNamed
    exact short name (files.mem_iff.mpr ⟨i, contents, here⟩)
  obtain ⟨dump, printed, names, sectors, bitmap, contents⟩ := print_eq layout allShort heap
  refine ⟨_, dump, ?_, printed, ?_, ?_, names, ?_, ?_⟩
  · rw [FileSystem.list, layout.fetchDirectory, ok_bind, Directory.list, allShort.listEntries]
  · apply (List.nodup_finRange _).filterMap
    intro first second name firstNamed secondNamed
    obtain ⟨_, firstSlot⟩ := slot first firstNamed
    obtain ⟨_, secondSlot⟩ := slot second secondNamed
    exact files.distinct firstSlot secondSlot
  · intro name
    rw [List.mem_filterMap, files.mem_iff]
    constructor
    · rintro ⟨i, -, isNamed⟩
      exact ⟨i, slot i isNamed⟩
    · rintro ⟨i, contents, used⟩
      exact ⟨i, List.mem_finRange i, named i used⟩
  · intro file member
    exact files.lookup.mpr (contents file member)
  · have distinct : (Layout.owners.flatMap held).Nodup :=
      layout.ledger.toExclusive.nodup_flatMap Layout.nodup_owners
    have same : (Layout.owners.flatMap held).Perm
        ((List.finRange Disk.numSectors).filter freeMap.testBit) := by
      rw [List.perm_ext_iff_of_nodup distinct ((List.nodup_finRange _).filter _)]
      intro sector
      rw [List.mem_flatMap, List.mem_filter, layout.ledger.marks]
      constructor
      · rintro ⟨owner, -, member⟩
        exact ⟨List.mem_finRange sector, owner, member⟩
      · rintro ⟨-, owner, member⟩
        exact ⟨owner, Layout.mem_owners owner, member⟩
    rw [sectors, bitmap, List.map_map, List.map_map]
    have numbers : BitVec.toInt ∘ pointer = Int.ofNat ∘ (Fin.val : SectorNumber → Nat) := by
      funext sector
      exact toInt_pointer sector
    rw [numbers]
    exact same.map _

end Listing

/-- After every run of proper operations of a formatted file system whose files have names
shorter than `FileNameMaxLen`, `List` prints each name once, and `Print` completes: it shows
the files with their contents, and the sectors that it shows for the system files and for
the others are, each one once, those of the bitmap that it shows. -/
theorem prints_as_stored (heap : Heap) (disk : Disk) (actions : List FileAction) :
    ∃ system, FileSystem.format heap disk = .ok system ∧
      (RunRequested (answering FileStore.act) (fun state => state.2.Proper)
          ([], FileStore.empty) actions →
        ∃ replies session store,
          run (answering Session.act) ([], ⟨system, []⟩) actions = .ok (replies, session) ∧
          run (answering FileStore.act) ([], FileStore.empty) actions = .ok (replies, store) ∧
          ((∀ name ∈ store.files, name.length < fileNameMaxLen) → ∀ fresh : Heap,
            ∃ names dump, session.system.list fresh = .ok names ∧
              session.system.print fresh = .ok dump ∧
              names.Nodup ∧ (∀ name, name ∈ names ↔ name ∈ store.files) ∧
              dump.files.map ListedFile.name = names ∧
              (∀ file ∈ dump.files, store.files.lookup file.name = some file.dump.bytes) ∧
              (dump.sectors.map BitVec.toInt).Perm (dump.bitmap.map Int.ofNat))) := by
  obtain ⟨system, formatted, answers⟩ :=
    formatted_run_refines act_refines FileStore.act_completes heap disk actions
  refine ⟨system, formatted, fun requested => ?_⟩
  obtain ⟨replies, session, store, done, specified, held, freeMap, directory, stored⟩ :=
    answers requested
  exact ⟨replies, session, store, done, specified,
    fun short fresh => stored.printed short fresh⟩

section Examples

/-- A file of three bytes is written. -/
def writtenFile : List FileAction :=
  [.request (.create [97] 3 Heap.blank), .request (.open [97] Heap.blank),
    .request (.write 0 [5, 6, 7] 3 fun _ => 0)]

theorem prints_as_stored_written :
    ∃ system replies session names dump, FileSystem.format Heap.blank Disk.blank = .ok system ∧
      run (answering Session.act) ([], ⟨system, []⟩) writtenFile = .ok (replies, session) ∧
      session.system.list Heap.blank = .ok names ∧
      session.system.print Heap.blank = .ok dump ∧
      [97] ∈ names ∧ ∀ file ∈ dump.files, file.name = [97] ∧ file.dump.bytes = [5, 6, 7] := by
  obtain ⟨system, formatted, answers⟩ :=
    prints_as_stored Heap.blank Disk.blank writtenFile
  obtain ⟨replies, session, store, done, specified, printed⟩ := answers (by decide +kernel)
  have files : (run (answering FileStore.act) ([], FileStore.empty) writtenFile).map
      (fun state => (state.2.files.keys, state.2.files.lookup [97])) =
        .ok ({[97]}, some [5, 6, 7]) := by decide +kernel
  rw [specified] at files
  obtain ⟨keys, contents⟩ := Prod.mk.inj (Except.ok.inj files)
  have only : ∀ name, name ∈ store.files ↔ name = [97] := by
    intro name
    rw [← Finmap.mem_keys, keys, Finset.mem_singleton]
  obtain ⟨names, dump, listed, shown, -, present, named, bytes, -⟩ := printed (by
    intro name member
    rw [(only name).mp member]
    decide) Heap.blank
  refine ⟨system, replies, session, names, dump, formatted, done, listed, shown,
    (present _).mpr ((only _).mpr rfl), fun file member => ?_⟩
  have isNamed : file.name = [97] := by
    apply (only file.name).mp
    rw [← present, ← named]
    exact List.mem_map_of_mem member
  have stored := bytes file member
  rw [isNamed, contents] at stored
  exact ⟨isNamed, (Option.some.inj stored).symm⟩

end Examples

end Nachos
