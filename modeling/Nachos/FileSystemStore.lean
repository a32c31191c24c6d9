import Mathlib.Algebra.BigOperators.Fin
import Nachos.FileStore
import Nachos.FileSystemIsolation

/-!
# The file system is a store of named files

The users of a file system get the replies that the store of named files gives, in every
sequence of operations, also when Nachos is started anew on the same disk in between: what is
in the sectors is all that there is of the files.
-/

namespace Nachos

open ExclusiveOwnership ListSplice SlotMap TransitionRuns

namespace Session

/-- What the user who makes a request gets back. -/
def reply (session : Session) : Request → Except Fault FileReply
  | .create name initialSize heap =>
      (session.system.create heap name initialSize).map fun result => .done result.1
  | .open name heap =>
      (session.system.open heap name).map fun opened => .done opened.isSome
  | .remove name heap =>
      (session.system.remove heap name).map fun result => .done result.1
  | .seek _ _ => .ok .moved
  | .read handle numBytes => do
      let found ← session.handleAt handle
      (found.file.read session.system.disk numBytes).map fun result => .data result.1
  | .write handle data numBytes memory => do
      let found ← session.handleAt handle
      (found.file.write memory session.system.disk data numBytes).map fun result =>
        .count result.1
  | .readAt handle numBytes position => do
      let found ← session.handleAt handle
      (found.file.readAt session.system.disk numBytes position).map .data
  | .writeAt handle data numBytes position memory => do
      let found ← session.handleAt handle
      (found.file.writeAt memory session.system.disk data numBytes position).map fun result =>
        .count result.1

def perform (session : Session) (request : Request) : Except Fault (FileReply × Session) := do
  let reply ← session.reply request
  let next ← session.step request
  .ok (reply, next)

def act (session : Session) : FileAction → Except Fault (FileReply × Session)
  | .request request => session.perform request
  | .reboot heap => do
      let system ← FileSystem.mount heap session.system.disk
      .ok (.moved, ⟨system, []⟩)

end Session

section Contents

variable {disk : Disk} {sector : Nat} {sectors : List SectorNumber}

theorem fileAt_eq_contents (holds : (disk.headerAt sector).Holds sectors) :
    disk.fileAt sector = (disk.headerAt sector).contents disk sectors := by
  simp only [Disk.fileAt, holds.listed_eq, FileHeader.contents, Disk.blocks,
    List.flatMap_map, toInt_pointer, Int.toNat_natCast]

theorem length_fileAt (holds : (disk.headerAt sector).Holds sectors)
    (distinct : sectors.Nodup) :
    (disk.fileAt sector).length = (disk.headerAt sector).fileLength.toInt.toNat := by
  rw [fileAt_eq_contents holds, FileHeader.length_contents (holds.maps distinct disk)]

/-- A file whose sectors are all cleared holds zeros. -/
theorem fileAt_of_zero (holds : (disk.headerAt sector).Holds sectors)
    (zero : ∀ member ∈ sectors, disk member.val = Sector.zero) {size : Nat}
    (length : (disk.headerAt sector).fileLength.toInt = size) :
    disk.fileAt sector = List.replicate size 0 := by
  have blocks : disk.blocks sectors = List.replicate (sectors.length * Disk.sectorSize) 0 := by
    rw [List.eq_replicate_iff]
    refine ⟨disk.length_blocks sectors, fun byte member => ?_⟩
    obtain ⟨inside, isMember, byteIn⟩ := List.mem_flatMap.mp member
    rw [zero inside isMember] at byteIn
    exact List.eq_of_mem_replicate (by simpa [Sector.zero, Sector.bytes] using byteIn)
  have enough : size ≤ sectors.length * Disk.sectorSize := by
    have count := holds.blocks
    rw [length, Int.toNat_natCast] at count
    simp only [Disk.sectorSize] at count ⊢
    omega
  rw [fileAt_eq_contents holds, FileHeader.contents, blocks, length, Int.toNat_natCast,
    List.take_replicate, Nat.min_eq_left enough]

end Contents

/-- The names in a directory with the contents of their files. -/
def Disk.fileSlots (disk : Disk) (directory : Directory numDirEntries) :
    Fin numDirEntries → Option (List Byte × List Byte) := fun i =>
  (directory.slots i).map fun entry => (entry.1, disk.fileAt entry.2.toInt.toNat)

/-- The named files that a disk stores. -/
def Disk.files (disk : Disk) : Fin numDirEntries → Option (List Byte × List Byte) :=
  disk.fileSlots disk.storedDirectory

/-- An open file has the header that the directory has under a name. -/
def OpenFile.Serves (disk : Disk) (directory : Directory numDirEntries) (file : OpenFile)
    (name : List Byte) : Prop :=
  ∃ (i : Fin numDirEntries) (header : SectorNumber),
    directory.slots i = some (name, pointer header) ∧
      file.hdr.SameFront (disk.headerAt header.val)

/-- An open file is what the store has for it; of a file that was removed nothing but the
position is known. -/
structure OpenFile.Shows (disk : Disk) (directory : Directory numDirEntries) (file : OpenFile)
    (opened : OpenedFile) : Prop where
  position : file.seekPosition = opened.position
  serves : ∀ name, opened.name = some name → file.Serves disk directory name

/-- A session stores the files of a store, and has the same of them open. -/
structure StoredIn (session : Session) (store : FileStore) (held : Holdings)
    (freeMap : BitMap Disk.numSectors) (directory : Directory numDirEntries) : Prop where
  layout : Layout session.system held freeMap directory
  files : Represents (session.system.disk.fileSlots directory) store.files
  opened : List.Forall₂
    (fun handle opened => handle.file.Shows session.system.disk directory opened)
    session.handles store.opened

def Session.Stores (session : Session) (store : FileStore) : Prop :=
  ∃ held freeMap directory, StoredIn session store held freeMap directory

namespace Layout

variable {system : FileSystem} {held : Holdings} {freeMap : BitMap Disk.numSectors}
  {directory : Directory numDirEntries}

/-- Every sector is clear or owned, and none is owned twice. -/
theorem length_held_add_numClear (layout : Layout system held freeMap directory) :
    (owners.flatMap held).length + freeMap.numClear = Disk.numSectors := by
  have distinct := layout.ledger.toExclusive.nodup_flatMap nodup_owners
  have marked : freeMap.clearSet = (owners.flatMap held).toFinsetᶜ := by
    ext sector
    rw [BitMap.mem_clearSet, Finset.mem_compl, List.mem_toFinset, ← Bool.not_eq_true,
      layout.ledger.marks, List.mem_flatMap]
    simp [mem_owners]
  have total := Finset.card_add_card_compl (owners.flatMap held).toFinset
  rwa [List.toFinset_card_of_nodup distinct, ← marked, ← BitMap.numClear_eq_card,
    Fintype.card_fin] at total

/-- The sectors of an entry are those of its header and its contents. -/
theorem length_held_entry (layout : Layout system held freeMap directory)
    (i : Fin numDirEntries) :
    (held (.entry i)).length =
      ((system.disk.fileSlots directory i).map fun file =>
        1 + sectorCount file.2.length).getD 0 := by
  rcases layout.entries i with ⟨idle, empty⟩ | ⟨inUse, header, data, owned, address, holds⟩
  · have free : directory.slots i = none := if_neg (by rw [Directory.table, idle]; simp)
    rw [empty, Disk.fileSlots, free]
    rfl
  · have slot : directory.slots i =
        some (cutName (directory.table i).name.toList, pointer header) :=
      Directory.slots_eq_some.mpr ⟨inUse, rfl, address⟩
    have distinct := (List.nodup_cons.mp (owned ▸ layout.ledger.nodup (.entry i))).2
    rw [owned, Disk.fileSlots, slot]
    simp only [Option.map_some, Option.getD_some, toInt_pointer, Int.toNat_natCast,
      length_fileAt holds distinct, List.length_cons, holds.blocks, sectorCount]
    omega

/-- The sectors that the files do not take are clear. -/
theorem used_add_numClear (layout : Layout system held freeMap directory) {store : FileStore}
    (files : Represents (system.disk.fileSlots directory) store.files) :
    store.used + freeMap.numClear = fileSectors := by
  have total := layout.length_held_add_numClear
  have boot : (held .boot).length = 2 := by
    rw [layout.boot]
    rfl
  have mapFile : (held .freeMap).length = sectorCount freeMapFileSize := by
    have holds := layout.freeMapFile.header
    have length := length_fileAt holds layout.freeMapFile.distinct
    rw [layout.freeMapFile.fileAt_eq, BitMap.length_toBytes] at length
    rw [holds.blocks, ← length]
    rfl
  have dirFile : (held .directory).length = sectorCount directoryFileSize := by
    have holds := layout.directoryFile.header
    have length := length_fileAt holds layout.directoryFile.distinct
    rw [layout.directoryFile.fileAt_eq, Directory.length_toBytes] at length
    rw [holds.blocks, ← length]
    rfl
  have entries : (((List.finRange numDirEntries).map .entry).flatMap held).length =
      store.used := by
    have slots := files.sum_keys fun contents => 1 + sectorCount contents.length
    simp only [← layout.length_held_entry, Fin.sum_univ_def] at slots
    rw [List.length_flatMap, List.map_map, FileStore.used]
    refine slots.symm.trans (Finset.sum_congr rfl fun name inFiles => ?_)
    obtain ⟨contents, found⟩ := Finmap.mem_iff.mp (Finmap.mem_keys.mp inFiles)
    rw [found]
    rfl
  rw [owners, List.flatMap_cons, List.flatMap_cons, List.flatMap_cons, List.length_append,
    List.length_append, List.length_append, entries, boot, mapFile, dirFile] at total
  have size : Disk.numSectors = 1024 := rfl
  have few : 2 + sectorCount freeMapFileSize + sectorCount directoryFileSize ≤ 1024 := by
    decide
  rw [fileSectors]
  omega

end Layout

section Slots

variable {disk after : Disk} {directory : Directory numDirEntries}
  {map : Finmap fun _ : List Byte => List Byte}

theorem fileSlots_set (disk : Disk) (directory : Directory numDirEntries)
    (i : Fin numDirEntries) (entry : DirectoryEntry) :
    disk.fileSlots (directory.set i entry i.isLt) = Function.update (disk.fileSlots directory) i
      (if entry.inUse then
        some (cutName entry.name.toList, disk.fileAt entry.sector.toInt.toNat)
      else none) := by
  have slots := directory.slots_set i entry
  ext1 j
  rw [Disk.fileSlots, slots]
  by_cases same : j = i
  · subst same
    rw [Function.update_self, Function.update_self]
    cases entry.inUse <;> rfl
  · rw [Function.update_of_ne same, Function.update_of_ne same]
    rfl

theorem findIndex_isSome_iff_mem (files : Represents (disk.fileSlots directory) map)
    (name : CString) : (directory.findIndex name).isSome ↔ cutName name ∈ map := by
  rw [files.mem_iff]
  constructor
  · intro found
    obtain ⟨i, isFound⟩ := Option.isSome_iff_exists.mp found
    exact ⟨i, _, by rw [Disk.fileSlots, Directory.slots_findIndex isFound]; rfl⟩
  · rintro ⟨i, contents, stored⟩
    obtain ⟨⟨key, sector⟩, slot, same⟩ := Option.map_eq_some_iff.mp stored
    obtain rfl : key = cutName name := congrArg Prod.fst same
    exact Directory.findIndex_of_slots slot

theorem freeIndex_eq_none_iff (files : Represents (disk.fileSlots directory) map) :
    directory.freeIndex = none ↔ ¬ map.keys.card < numDirEntries := by
  rw [files.card_keys_lt_iff]
  constructor
  · rintro full ⟨i, free⟩
    have found := Directory.freeIndex_of_slots (Option.map_eq_none_iff.mp free)
    rw [full] at found
    cases found
  · intro full
    by_contra some
    obtain ⟨i, free⟩ := Option.ne_none_iff_exists'.mp some
    exact full ⟨i, by rw [Disk.fileSlots, Directory.slots_freeIndex free]; rfl⟩

/-- An open file still serves a name when the entry and the header are as they were. -/
theorem OpenFile.Serves.of_unchanged {file : OpenFile} {name : List Byte}
    (serves : file.Serves disk directory name) {directory' : Directory numDirEntries}
    (kept : ∀ i header, directory.slots i = some (name, pointer header) →
      directory'.slots i = directory.slots i ∧ after header.val = disk header.val) :
    file.Serves after directory' name := by
  obtain ⟨i, header, slot, front⟩ := serves
  obtain ⟨sameSlot, sameHeader⟩ := kept i header slot
  refine ⟨i, header, sameSlot.trans slot, ?_⟩
  rwa [Disk.headerAt, sameHeader]

end Slots

namespace Layout

variable {system : FileSystem} {held : Holdings} {freeMap : BitMap Disk.numSectors}
  {directory : Directory numDirEntries} {after : Disk}

theorem entry_of_slot (layout : Layout system held freeMap directory) {i : Fin numDirEntries}
    {name : List Byte} {header : SectorNumber}
    (slot : directory.slots i = some (name, pointer header)) :
    ∃ data, held (.entry i) = header :: data ∧
      (system.disk.headerAt header.val).Holds data := by
  obtain ⟨inUse, -, address⟩ := Directory.slots_eq_some.mp slot
  obtain ⟨first, data, owned, stored, holds⟩ := layout.entry_of_inUse inUse
  obtain rfl := pointer_injective (stored.symm.trans address)
  exact ⟨data, owned, holds⟩

theorem slot_cases (layout : Layout system held freeMap directory) (i : Fin numDirEntries) :
    directory.slots i = none ∨
      ∃ name header data, directory.slots i = some (name, pointer header) ∧
        held (.entry i) = header :: data ∧ (system.disk.headerAt header.val).Holds data := by
  cases slot : directory.slots i with
  | none => exact Or.inl rfl
  | some entry =>
      obtain ⟨name, sector⟩ := entry
      obtain ⟨inUse, -, address⟩ := Directory.slots_eq_some.mp slot
      obtain ⟨header, data, owned, place, holds⟩ := layout.entry_of_inUse inUse
      exact Or.inr ⟨name, header, data, by rw [← address.symm.trans place], owned, holds⟩

/-- The files are as before when no sector of an entry changes. -/
theorem fileSlots_of_kept (layout : Layout system held freeMap directory)
    (kept : ∀ j, ∀ sector ∈ held (.entry j), after sector.val = system.disk sector.val) :
    after.fileSlots directory = system.disk.fileSlots directory := by
  ext1 i
  rcases layout.slot_cases i with free | ⟨name, header, data, slot, owned, holds⟩
  · simp only [Disk.fileSlots, free, Option.map_none]
  · have inEntry : ∀ sector ∈ header :: data, after sector.val = system.disk sector.val :=
      fun sector member => kept i sector (owned ▸ member)
    have same := fileAt_congr holds (inEntry header List.mem_cons_self)
      fun member inFile => inEntry member (List.mem_cons_of_mem _ inFile)
    rw [Disk.fileSlots, Disk.fileSlots, slot]
    simp only [Option.map_some, toInt_pointer, Int.toNat_natCast, same]

/-- An open file keeps serving a name when no sector of an entry changes. -/
theorem serves_of_kept (layout : Layout system held freeMap directory)
    (kept : ∀ j, ∀ sector ∈ held (.entry j), after sector.val = system.disk sector.val)
    {file : OpenFile} {name : List Byte} (serves : file.Serves system.disk directory name)
    {directory' : Directory numDirEntries}
    (slots : ∀ i header, directory.slots i = some (name, pointer header) →
      directory'.slots i = directory.slots i) :
    file.Serves after directory' name := by
  apply serves.of_unchanged
  intro i header slot
  obtain ⟨data, owned, -⟩ := layout.entry_of_slot slot
  exact ⟨slots i header slot, kept i header (by rw [owned]; exact List.mem_cons_self)⟩

end Layout

section Related

variable {α β : Type*} {related : α → β → Prop} {items : List α} {others : List β}

theorem forall₂_getElem? (all : List.Forall₂ related items others) {index : Nat} {other : β}
    (present : others[index]? = some other) :
    ∃ item, items[index]? = some item ∧ related item other := by
  induction all generalizing index with
  | nil => simp at present
  | @cons head _ items _ first rest ih =>
      cases index with
      | zero => exact ⟨head, rfl, Option.some.inj present ▸ first⟩
      | succ index => exact ih present

theorem forall₂_set_modify (all : List.Forall₂ related items others) {index : Nat} {item : α}
    {change : β → β} (changed : ∀ other, others[index]? = some other →
      related item (change other)) :
    List.Forall₂ related (items.set index item) (others.modify index change) := by
  induction all generalizing index with
  | nil => simp
  | cons first rest ih =>
      cases index with
      | zero => exact .cons (changed _ rfl) rest
      | succ index => exact .cons first (ih fun other present => changed other present)

end Related

namespace StoredIn

variable {session : Session} {store : FileStore} {held : Holdings}
  {freeMap : BitMap Disk.numSectors} {directory : Directory numDirEntries}

/-- There is room for a file in the store when the file system finds it. -/
theorem fits_iff (stored : StoredIn session store held freeMap directory) (size : Nat) :
    store.Fits size ↔ directory.freeIndex ≠ none ∧ 1 + sectorCount size ≤ freeMap.numClear := by
  have room := stored.layout.used_add_numClear stored.files
  rw [FileStore.Fits, Ne, freeIndex_eq_none_iff stored.files, not_not]
  apply and_congr_right
  intro
  omega

theorem create (stored : StoredIn session store held freeMap directory) (name : CString)
    {initialSize : CInt} (heap : Heap)
    (proper : store.Proper (.request (.create name initialSize heap))) :
    SameOutcome (SameAnswers Session.Stores)
      (session.perform (.create name initialSize heap))
      (store.perform (.create name initialSize heap)) := by
  obtain ⟨size, value⟩ := Int.eq_ofNat_of_zero_le proper.1
  have small : size ≤ numDirect * Disk.sectorSize := by
    have limit := proper.2
    simp only [maxFileSize] at limit
    omega
  have known := findIndex_isSome_iff_mem stored.files name
  have room := stored.fits_iff size
  rcases stored.layout.create_branches heap name value small with
    ⟨refused, reason⟩ | ⟨i, header, data, after, freeMap', absent, free, enough, done, created, now⟩
  · have noRoom : ¬ (cutName name ∉ store.files ∧ store.Fits initialSize.toInt.toNat) := by
      rw [value, Int.toNat_natCast, room]
      rintro ⟨missing, isFree, clear⟩
      rcases reason with present | full | few
      · exact missing (known.mp present)
      · exact isFree full
      · exact Nat.not_le.mpr few clear
    simp only [Session.perform, Session.reply, Session.step, refused, FileStore.perform,
      FileStore.create, if_neg noRoom]
    exact .ok ⟨rfl, held, freeMap, directory, stored⟩
  · have fits : cutName name ∉ store.files ∧ store.Fits initialSize.toInt.toNat := by
      rw [value, Int.toNat_natCast, room, ← known, absent, free]
      exact ⟨Bool.false_ne_true, Option.some_ne_none _, enough⟩
    simp only [Session.perform, Session.reply, Session.step, done, FileStore.perform,
      FileStore.create, if_pos fits]
    have idle := Directory.slots_freeIndex free
    have assigned : (directory[i].assign name (pointer header)).inUse = true := rfl
    have address : (directory[i].assign name (pointer header)).sector = pointer header := rfl
    have holds : (after.headerAt header.val).Holds data := by
      obtain ⟨first, others, owned, place, holds⟩ := now.entry_of_inUse
        (show (directory.set i (directory[i].assign name (pointer header)))[i].inUse = true by
          rw [Fin.getElem_fin, Vector.getElem_set_self]
          rfl)
      rw [Function.update_self] at owned
      obtain ⟨rfl, rfl⟩ := List.cons.inj owned
      exact holds
    have contents : after.fileAt header.val = List.replicate size 0 :=
      fileAt_of_zero holds created.zero created.length
    refine .ok ⟨rfl, _, freeMap', _, now, ?_, ?_⟩
    · have empty : session.system.disk.fileSlots directory i = none := by
        rw [Disk.fileSlots, idle]
        rfl
      have inserted := stored.files.insert empty fits.1 (List.replicate size 0)
      rw [fileSlots_set, if_pos assigned, cutName_assign, address, toInt_pointer,
        Int.toNat_natCast, contents, stored.layout.fileSlots_of_kept created.kept, value,
        Int.toNat_natCast]
      exact inserted
    · refine stored.opened.imp fun handle opened shows => ⟨shows.position, fun key named => ?_⟩
      apply stored.layout.serves_of_kept created.kept (shows.serves key named)
      intro j other slot
      have different : j ≠ i := by
        rintro rfl
        rw [idle] at slot
        cases slot
      rw [Directory.slots_set, Function.update_of_ne different]

/-- `Open` finds the names that the store has, and reads the header. -/
theorem open_cases (stored : StoredIn session store held freeMap directory) (name : CString)
    (heap : Heap) :
    (cutName name ∉ store.files ∧ session.system.open heap name = .ok none) ∨
      ∃ (i : Fin numDirEntries) (header : SectorNumber) (loaded : FileHeader),
        cutName name ∈ store.files ∧
          session.system.open heap name = .ok (some ⟨loaded, 0⟩) ∧
          directory.slots i = some (cutName name, pointer header) ∧
          loaded.SameFront (session.system.disk.headerAt header.val) := by
  have known := findIndex_isSome_iff_mem stored.files name
  rcases stored.layout.find_cases name with
    ⟨missing, absent⟩ | ⟨i, header, data, found, address, owned, holds⟩
  · refine Or.inl ⟨?_, ?_⟩
    · rw [← known, missing]
      exact Bool.false_ne_true
    · rw [FileSystem.open, stored.layout.fetchDirectory, ok_bind, absent]
      exact if_neg (by decide)
  · obtain ⟨loaded, loading, front⟩ := FileHeader.fetchFrom_sameFront (heap.header 0)
      session.system.disk header.isLt
    refine Or.inr ⟨i, header, loaded, ?_, ?_, ?_, front⟩
    · rw [← known, found]
      rfl
    · rw [FileSystem.open, stored.layout.fetchDirectory, ok_bind]
      simp only [address, toInt_pointer]
      rw [if_pos (by omega), OpenFile.new, loading]
      rfl
    · have place : (directory.table i).sector = pointer header := by
        simpa only [Directory.find, found] using address
      rw [Directory.slots_findIndex found, place]

theorem «open» (stored : StoredIn session store held freeMap directory) (name : CString)
    (heap : Heap) :
    SameOutcome (SameAnswers Session.Stores) (session.perform (.open name heap))
      (store.perform (.open name heap)) := by
  rcases stored.open_cases name heap with
    ⟨notThere, opening⟩ | ⟨i, header, loaded, there, opening, slot, front⟩
  · simp only [Session.perform, Session.reply, Session.step, opening,
      stored.layout.fetchDirectory, ok_bind, FileStore.perform, FileStore.open, if_neg notThere]
    exact .ok ⟨rfl, held, freeMap, directory, stored⟩
  · simp only [Session.perform, Session.reply, Session.step, opening,
      stored.layout.fetchDirectory, ok_bind, FileStore.perform, FileStore.open, if_pos there]
    refine .ok ⟨rfl, held, freeMap, directory, stored.layout, stored.files, ?_⟩
    refine List.rel_append stored.opened (.cons ⟨rfl, fun key named => ?_⟩ .nil)
    obtain rfl := Option.some.inj named
    exact ⟨i, header, slot, front⟩

theorem remove (stored : StoredIn session store held freeMap directory) (name : CString)
    (heap : Heap) :
    SameOutcome (SameAnswers Session.Stores) (session.perform (.remove name heap))
      (store.perform (.remove name heap)) := by
  have known := findIndex_isSome_iff_mem stored.files name
  rcases stored.layout.remove_branches heap name with
    ⟨missing, -, refused⟩ |
      ⟨i, header, data, after, freeMap', found, address, owned, removed, kept, now⟩
  · have notThere : cutName name ∉ store.files := by
      rw [← known, missing]
      exact Bool.false_ne_true
    simp only [Session.perform, Session.reply, Session.step, refused,
      stored.layout.fetchDirectory, ok_bind, FileStore.perform, FileStore.remove,
      if_neg notThere]
    exact .ok ⟨rfl, held, freeMap, directory, stored⟩
  · have there : cutName name ∈ store.files := by
      rw [← known, found]
      rfl
    have slot := Directory.slots_findIndex found
    have file : ∃ contents,
        session.system.disk.fileSlots directory i = some (cutName name, contents) :=
      ⟨_, by rw [Disk.fileSlots, slot]; rfl⟩
    obtain ⟨contents, file⟩ := file
    simp only [Session.perform, Session.reply, Session.step, removed,
      stored.layout.fetchDirectory, ok_bind, FileStore.perform, FileStore.remove,
      if_pos there]
    refine .ok ⟨rfl, _, freeMap', _, now, ?_, ?_⟩
    · rw [fileSlots_set, if_neg Bool.false_ne_true, stored.layout.fileSlots_of_kept kept]
      exact stored.files.erase file
    · simp only [if_true, Session.forget, List.forall₂_map_left_iff,
        List.forall₂_map_right_iff]
      refine stored.opened.imp fun handle opened shows => ⟨?_, fun key named => ?_⟩
      · rw [shows.position]
        split <;> rfl
      · split at named
        · cases named
        next other =>
          apply stored.layout.serves_of_kept kept (shows.serves key named)
          intro j header' stays
          have different : j ≠ i := by
            rintro rfl
            rw [slot] at stays
            exact other (by rw [named, (Prod.mk.inj (Option.some.inj stays)).1])
          rw [Directory.slots_set, Function.update_of_ne different]

end StoredIn

/-- An open file with the name that it serves, and where that file is on the disk. -/
structure Located (session : Session) (held : Holdings) (directory : Directory numDirEntries)
    (file : OpenFile) (name : List Byte) (i : Fin numDirEntries) (header : SectorNumber)
    (data : List SectorNumber) : Prop where
  slot : directory.slots i = some (name, pointer header)
  owned : held (.entry i) = header :: data
  holds : (session.system.disk.headerAt header.val).Holds data
  front : file.hdr.SameFront (session.system.disk.headerAt header.val)
  distinct : data.Nodup

namespace Located

variable {session : Session} {store : FileStore} {held : Holdings}
  {freeMap : BitMap Disk.numSectors} {directory : Directory numDirEntries} {file : OpenFile}
  {name : List Byte} {i : Fin numDirEntries} {header : SectorNumber} {data : List SectorNumber}

theorem maps (located : Located session held directory file name i header data) :
    file.hdr.Maps session.system.disk data :=
  (located.holds.of_sameFront located.front).maps located.distinct _

/-- The file and the open file hold the same bytes, on any disk that has the header. -/
theorem contents_eq (located : Located session held directory file name i header data)
    {disk : Disk} (same : disk header.val = session.system.disk header.val) :
    file.hdr.contents disk data = disk.fileAt header.val := by
  have front : disk.headerAt header.val = session.system.disk.headerAt header.val := by
    simp only [Disk.headerAt, same]
  rw [fileAt_eq_contents (front ▸ located.holds), front, FileHeader.contents,
    FileHeader.contents, FileHeader.fileLength, FileHeader.fileLength, located.front.numBytes]

theorem fileSlot (located : Located session held directory file name i header data) :
    session.system.disk.fileSlots directory i =
      some (name, session.system.disk.fileAt header.val) := by
  rw [Disk.fileSlots, located.slot]
  simp only [Option.map_some, toInt_pointer, Int.toNat_natCast]

theorem length_eq (located : Located session held directory file name i header data) :
    file.hdr.fileLength.toInt = (session.system.disk.fileAt header.val).length := by
  have nonnegative := (located.holds.of_sameFront located.front).nonnegative
  rw [← located.contents_eq rfl, FileHeader.length_contents located.maps]
  omega

/-- `ReadAt` gets the range of the file. -/
theorem readAt_eq (located : Located session held directory file name i header data)
    {numBytes position : CInt} (range : Session.InRange numBytes position) :
    file.readAt session.system.disk numBytes position =
      .ok (FileStore.readRange (session.system.disk.fileAt header.val) numBytes position) := by
  obtain ⟨place, value⟩ := Int.eq_ofNat_of_zero_le range.1
  obtain rfl := CInt.eq_ofNat_of_toInt value
  rw [OpenFile.readAt_eq located.maps place (value ▸ range.2), located.contents_eq rfl,
    FileStore.readRange, value, Int.toNat_natCast]

/-- `WriteAt` changes the range of the file and no other sector. -/
theorem writeAt_eq (located : Located session held directory file name i header data)
    {bytes : List Byte} {numBytes position : CInt} (range : Session.InRange numBytes position)
    (supplied : numBytes.toInt ≤ bytes.length) (headerApart : header ∉ data)
    (memory : Memory) :
    ∃ after, file.writeAt memory session.system.disk bytes numBytes position =
        .ok (BitVec.ofNat 32 (FileStore.writeRange
          (session.system.disk.fileAt header.val) bytes numBytes position).1, after) ∧
      session.system.disk.AgreeOutside data after ∧
      after.fileAt header.val = (FileStore.writeRange
        (session.system.disk.fileAt header.val) bytes numBytes position).2 := by
  obtain ⟨place, value⟩ := Int.eq_ofNat_of_zero_le range.1
  obtain rfl := CInt.eq_ofNat_of_toInt value
  obtain ⟨count, after, written, amount, agree, contents⟩ := OpenFile.writeAt_eq
    located.maps memory place (value ▸ range.2) ((Int.min_le_left _ _).trans supplied)
  have length := located.length_eq
  have counted : (FileStore.writeRange (session.system.disk.fileAt header.val) bytes numBytes
      (BitVec.ofNat 32 place)).1 = count := by
    simp only [FileStore.writeRange, value, Int.toNat_natCast]
    omega
  have kept : after header.val = session.system.disk header.val := by
    apply agree
    intro member inData same
    exact headerApart (Fin.ext same ▸ inData)
  refine ⟨after, counted ▸ written, agree, ?_⟩
  rw [← located.contents_eq kept, contents, located.contents_eq rfl, FileStore.writeRange]
  simp only [FileStore.writeRange] at counted
  rw [counted, value, Int.toNat_natCast]

end Located

namespace StoredIn

variable {session : Session} {store : FileStore} {held : Holdings}
  {freeMap : BitMap Disk.numSectors} {directory : Directory numDirEntries}

theorem locate (stored : StoredIn session store held freeMap directory) {file : OpenFile}
    {name : List Byte} {i : Fin numDirEntries} {header : SectorNumber}
    (slot : directory.slots i = some (name, pointer header))
    (front : file.hdr.SameFront (session.system.disk.headerAt header.val)) :
    ∃ data, Located session held directory file name i header data := by
  obtain ⟨data, owned, holds⟩ := stored.layout.entry_of_slot slot
  exact ⟨data, slot, owned, holds, front,
    (List.nodup_cons.mp (owned ▸ stored.layout.ledger.nodup (.entry i))).2⟩

/-- The file that an open file serves is the one that the store has. -/
theorem lookup_eq (stored : StoredIn session store held freeMap directory) {file : OpenFile}
    {name : List Byte} {i : Fin numDirEntries} {header : SectorNumber}
    {data : List SectorNumber}
    (located : Located session held directory file name i header data) :
    store.files.lookup name = some (session.system.disk.fileAt header.val) :=
  stored.files.lookup.mpr ⟨i, located.fileSlot⟩

/-- A file that is open under its name is found on the disk. -/
theorem located (stored : StoredIn session store held freeMap directory) {handle : Nat}
    {opened : OpenedFile} (present : store.opened[handle]? = some opened)
    (named : opened.name.isSome) :
    ∃ found name i header data, session.handles[handle]? = some found ∧
      found.file.seekPosition = opened.position ∧
      store.openedAt handle =
        .ok (opened, name, session.system.disk.fileAt header.val) ∧
      Located session held directory found.file name i header data := by
  obtain ⟨found, inHandles, shows⟩ := forall₂_getElem? stored.opened present
  obtain ⟨name, isName⟩ := Option.isSome_iff_exists.mp named
  obtain ⟨i, header, slot, front⟩ := shows.serves name isName
  obtain ⟨data, place⟩ := stored.locate slot front
  refine ⟨found, name, i, header, data, inHandles, shows.position, ?_, place⟩
  simp only [FileStore.openedAt, present, isName, stored.lookup_eq place, Option.getD_some]

theorem seek (stored : StoredIn session store held freeMap directory) {handle : Nat}
    {found : Handle} (present : session.handles[handle]? = some found) (position : CInt) :
    StoredIn (session.setFile handle found (found.file.seek position))
      (store.seek handle position) held freeMap directory where
  layout := stored.layout
  files := stored.files
  opened := by
    apply forall₂_set_modify stored.opened
    intro opened isOpened
    obtain ⟨item, inHandles, shows⟩ := forall₂_getElem? stored.opened isOpened
    obtain rfl : item = found := Option.some.inj (inHandles.symm.trans present)
    exact ⟨rfl, shows.serves⟩

/-- When only the data of one file change, the store has new contents for its name. -/
theorem written (stored : StoredIn session store held freeMap directory) {file : OpenFile}
    {name : List Byte} {i : Fin numDirEntries} {header : SectorNumber}
    {data : List SectorNumber}
    (located : Located session held directory file name i header data) {after : Disk}
    (agree : session.system.disk.AgreeOutside data after) :
    StoredIn (session.setDisk after)
      { store with files := store.files.insert name (after.fileAt header.val) }
      held freeMap directory := by
  have caches : Handle.Caches held ⟨file, pointer header, false⟩ data :=
    ⟨located.holds.of_sameFront located.front, located.distinct,
      fun _ => ⟨i, header, located.owned, rfl⟩⟩
  have kept {sector : SectorNumber} (apart : sector ∉ data) :
      after sector.val = session.system.disk sector.val := by
    apply agree
    intro member inData same
    exact apart (Fin.ext same ▸ inData)
  have metadata {sector : SectorNumber} (belongs : Metadata held sector) :
      after sector.val = session.system.disk sector.val :=
    kept (Session.metadata_apart stored.layout caches (Or.inl rfl) belongs)
  constructor
  · exact Draft.of_unchanged stored.layout fun sector belongs => metadata belongs
  · have slots : after.fileSlots directory = Function.update
        (session.system.disk.fileSlots directory) i (some (name, after.fileAt header.val)) := by
      ext1 j
      by_cases here : j = i
      · subst here
        rw [Function.update_self, Disk.fileSlots, located.slot]
        simp only [Option.map_some, toInt_pointer, Int.toNat_natCast]
      rw [Function.update_of_ne here]
      rcases stored.layout.slot_cases j with free | ⟨other, first, others, slot, owned, holds⟩
      · simp only [Disk.fileSlots, free, Option.map_none]
      · have apart : ∀ sector ∈ held (.entry j), sector ∉ data := by
          intro sector inOther inData
          have inFile : sector ∈ held (.entry i) := by
            rw [located.owned]
            exact List.mem_cons_of_mem _ inData
          exact here (Owner.entry.inj (stored.layout.ledger.unique inOther inFile))
        rw [owned] at apart
        have same := fileAt_congr holds (kept (apart first List.mem_cons_self))
          fun member inFile => kept (apart member (List.mem_cons_of_mem _ inFile))
        simp only [Disk.fileSlots, slot, Option.map_some, toInt_pointer, Int.toNat_natCast, same]
    exact slots ▸ stored.files.replace located.fileSlot _
  · refine stored.opened.imp fun handle opened shows => ⟨shows.position, fun key named => ?_⟩
    apply (shows.serves key named).of_unchanged
    intro j first slot
    obtain ⟨others, owned, -⟩ := stored.layout.entry_of_slot slot
    refine ⟨rfl, metadata (Or.inr (Or.inr (Or.inr ⟨j, ?_⟩)))⟩
    rw [owned]
    rfl

theorem readAt (stored : StoredIn session store held freeMap directory) {handle : Nat}
    {numBytes position : CInt}
    (proper : store.Proper (.request (.readAt handle numBytes position))) :
    SameOutcome (SameAnswers Session.Stores)
      (session.perform (.readAt handle numBytes position))
      (store.perform (.readAt handle numBytes position)) := by
  obtain ⟨opened, present, named, range⟩ := proper
  obtain ⟨found, name, i, header, data, inHandles, -, access, located⟩ :=
    stored.located present named
  simp only [Session.perform, Session.reply, Session.step,
    Session.handleAt_of_present inHandles, ok_bind, located.readAt_eq range,
    FileStore.perform, access]
  exact .ok ⟨rfl, held, freeMap, directory, stored⟩

theorem read (stored : StoredIn session store held freeMap directory) {handle : Nat}
    {numBytes : CInt} (proper : store.Proper (.request (.read handle numBytes))) :
    SameOutcome (SameAnswers Session.Stores) (session.perform (.read handle numBytes))
      (store.perform (.read handle numBytes)) := by
  obtain ⟨opened, present, named, range⟩ := proper
  obtain ⟨found, name, i, header, data, inHandles, position, access, located⟩ :=
    stored.located present named
  rw [← position] at range
  simp only [Session.perform, Session.reply, Session.step,
    Session.handleAt_of_present inHandles, ok_bind, OpenFile.read, located.readAt_eq range,
    FileStore.perform, access, ← position]
  exact .ok ⟨rfl, held, freeMap, directory, stored.seek inHandles _⟩

theorem writeAt (stored : StoredIn session store held freeMap directory) {handle : Nat}
    {bytes : List Byte} {numBytes position : CInt} {memory : Memory}
    (proper : store.Proper (.request (.writeAt handle bytes numBytes position memory))) :
    SameOutcome (SameAnswers Session.Stores)
      (session.perform (.writeAt handle bytes numBytes position memory))
      (store.perform (.writeAt handle bytes numBytes position memory)) := by
  obtain ⟨opened, present, named, range, supplied⟩ := proper
  obtain ⟨found, name, i, header, data, inHandles, -, access, located⟩ :=
    stored.located present named
  have headerApart := (List.nodup_cons.mp
    (located.owned ▸ stored.layout.ledger.nodup (.entry i))).1
  obtain ⟨after, writing, agree, contents⟩ :=
    located.writeAt_eq range supplied headerApart memory
  simp only [Session.perform, Session.reply, Session.step,
    Session.handleAt_of_present inHandles, ok_bind, writing, FileStore.perform, access]
  exact .ok ⟨rfl, held, freeMap, directory, contents ▸ stored.written located agree⟩

theorem write (stored : StoredIn session store held freeMap directory) {handle : Nat}
    {bytes : List Byte} {numBytes : CInt} {memory : Memory}
    (proper : store.Proper (.request (.write handle bytes numBytes memory))) :
    SameOutcome (SameAnswers Session.Stores)
      (session.perform (.write handle bytes numBytes memory))
      (store.perform (.write handle bytes numBytes memory)) := by
  obtain ⟨opened, present, named, range, supplied⟩ := proper
  obtain ⟨found, name, i, header, data, inHandles, position, access, located⟩ :=
    stored.located present named
  rw [← position] at range
  have headerApart := (List.nodup_cons.mp
    (located.owned ▸ stored.layout.ledger.nodup (.entry i))).1
  obtain ⟨after, writing, agree, contents⟩ :=
    located.writeAt_eq range supplied headerApart memory
  have moved := contents ▸ (stored.written located agree).seek inHandles
    (found.file.seekPosition + BitVec.ofNat 32 (FileStore.writeRange
      (session.system.disk.fileAt header.val) bytes numBytes found.file.seekPosition).1)
  simp only [Session.perform, Session.reply, Session.step,
    Session.handleAt_of_present inHandles, ok_bind, OpenFile.write, writing,
    FileStore.perform, access, ← position]
  exact .ok ⟨rfl, held, freeMap, directory, moved⟩

end StoredIn

section Starting

/-- The file of a header that is on the disk is opened again as it was. -/
theorem SystemFile.reopen {disk : Disk} {sector : Nat} {file : OpenFile}
    {sectors : List SectorNumber} {bytes : List Byte}
    (stored : SystemFile disk sector file sectors bytes) (onDisk : sector < Disk.numSectors)
    (memory : FileHeader) :
    ∃ reopened, OpenFile.new memory disk sector = .ok reopened ∧
      SystemFile disk sector reopened sectors bytes := by
  obtain ⟨loaded, loading, front⟩ := FileHeader.fetchFrom_sameFront memory disk onDisk
  have length : loaded.fileLength = file.hdr.fileLength :=
    front.numBytes.trans stored.opened.numBytes.symm
  refine ⟨⟨loaded, 0⟩, by rw [OpenFile.new, loading]; rfl, stored.header, front,
    stored.distinct, ?_⟩
  rw [← stored.contents, FileHeader.contents, FileHeader.contents, length]

variable {session : Session} {store : FileStore} {held : Holdings}
  {freeMap : BitMap Disk.numSectors} {directory : Directory numDirEntries}

/-- Everything about the files is found again on the disk. -/
theorem StoredIn.reboot (stored : StoredIn session store held freeMap directory)
    (heap : Heap) :
    SameOutcome (SameAnswers Session.Stores) (session.act (.reboot heap))
      (store.act (.reboot heap)) := by
  obtain ⟨freeMapFile, openingMap, mapStored⟩ :=
    stored.layout.freeMapFile.reopen (by decide) (heap.header 2)
  obtain ⟨directoryFile, openingDir, dirStored⟩ :=
    stored.layout.directoryFile.reopen (by decide) (heap.header 3)
  have mounted : FileSystem.mount heap session.system.disk =
      .ok ⟨session.system.disk, freeMapFile, directoryFile⟩ := by
    rw [FileSystem.mount, openingMap, ok_bind, openingDir, ok_bind]
  have layout : Layout ⟨session.system.disk, freeMapFile, directoryFile⟩ held freeMap
      directory := {
    ledger := stored.layout.ledger
    boot := stored.layout.boot
    freeMapFile := mapStored
    directoryFile := dirStored
    entries := stored.layout.entries
    mapSize := stored.layout.mapSize
    dirSize := stored.layout.dirSize }
  simp only [Session.act, mounted, ok_bind, FileStore.act]
  exact .ok ⟨rfl, held, freeMap, directory, layout, stored.files, .nil⟩

/-- A disk that was formatted stores no file. -/
theorem stores_empty {system : FileSystem}
    (layout : Layout system held freeMap directory) (nothing : ∀ i, held (.entry i) = []) :
    Session.Stores ⟨system, []⟩ .empty := by
  refine ⟨held, freeMap, directory, layout, represents_empty fun i => ?_, .nil⟩
  rcases layout.slot_cases i with free | ⟨name, header, data, -, owned, -⟩
  · rw [Disk.fileSlots, free]
    rfl
  · rw [nothing i] at owned
    cases owned

end Starting

/-- The session answers every proper action as the store does. -/
theorem act_refines (session : Session) (store : FileStore) (action : FileAction)
    (stores : session.Stores store) (proper : store.Proper action) :
    SameOutcome (SameAnswers Session.Stores) (session.act action) (store.act action) := by
  obtain ⟨held, freeMap, directory, stored⟩ := stores
  cases action with
  | reboot heap => exact stored.reboot heap
  | request request =>
      cases request with
      | create name initialSize heap => exact stored.create name heap proper
      | «open» name heap => exact stored.open name heap
      | remove name heap => exact stored.remove name heap
      | seek handle position =>
          obtain ⟨opened, present⟩ : ∃ opened, store.opened[handle]? = some opened :=
            ⟨_, List.getElem?_eq_getElem proper⟩
          obtain ⟨found, inHandles, -⟩ := forall₂_getElem? stored.opened present
          simp only [Session.act, FileStore.act, Session.perform, Session.reply, Session.step,
            Session.handleAt_of_present inHandles, ok_bind, FileStore.perform]
          exact .ok ⟨rfl, held, freeMap, directory, stored.seek inHandles position⟩
      | read handle numBytes => exact stored.read proper
      | write handle bytes numBytes memory => exact stored.write proper
      | readAt handle numBytes position => exact stored.readAt proper
      | writeAt handle bytes numBytes position memory => exact stored.writeAt proper

namespace FileStore

/-- The store answers what is asked properly. -/
theorem act_completes (store : FileStore) (action : FileAction) (proper : store.Proper action) :
    ∃ result, store.act action = .ok result := by
  have access {handle : Nat} {opened : OpenedFile}
      (present : store.opened[handle]? = some opened) (named : opened.name.isSome) :
      ∃ found, store.openedAt handle = .ok found := by
    obtain ⟨name, isName⟩ := Option.isSome_iff_exists.mp named
    exact ⟨_, by rw [openedAt, present]; simp only [isName]; rfl⟩
  cases action with
  | reboot heap => exact ⟨_, rfl⟩
  | request request =>
      cases request with
      | create | «open» | remove | seek => exact ⟨_, rfl⟩
      | read | readAt | write | writeAt =>
          obtain ⟨opened, present, named, -⟩ := proper
          obtain ⟨found, accessed⟩ := access present named
          exact ⟨_, by simp only [act, perform, accessed, ok_bind]; rfl⟩

end FileStore

/-- The disk of a session stores the files of the store. -/
theorem Session.Stores.represents {session : Session} {store : FileStore}
    (stores : session.Stores store) : Represents session.system.disk.files store.files := by
  obtain ⟨held, freeMap, directory, stored⟩ := stores
  rw [Disk.files, stored.layout.storedDirectory_eq]
  exact stored.files

/-- A system that is simulated by one over the store gives the same replies from a formatted
disk on. -/
theorem formatted_run_refines {Action Reply : Type*}
    {perform : Session → Action → Except Fault (Reply × Session)}
    {specified : FileStore → Action → Except Fault (Reply × FileStore)}
    {proper : FileStore → Action → Prop}
    (refines : ∀ session store action, Session.Stores session store → proper store action →
      SameOutcome (SameAnswers Session.Stores) (perform session action)
        (specified store action))
    (completes : ∀ store action, proper store action →
      ∃ result, specified store action = .ok result)
    (heap : Heap) (disk : Disk) (actions : List Action) :
    ∃ system, FileSystem.format heap disk = .ok system ∧
      (RunRequested (answering specified) (fun state => proper state.2)
          ([], FileStore.empty) actions →
        ∃ replies session store,
          run (answering perform) ([], ⟨system, []⟩) actions = .ok (replies, session) ∧
          run (answering specified) ([], FileStore.empty) actions = .ok (replies, store) ∧
          session.Stores store) := by
  obtain ⟨system, held, freeMap, directory, formatted, layout, nothing⟩ :=
    format_layout heap disk
  refine ⟨system, formatted, fun requested => ?_⟩
  have answers (state : List Reply × FileStore) (action : Action) (_ : True)
      (now : proper state.2 action) : ∃ next, answering specified state action = .ok next := by
    obtain ⟨result, done⟩ := completes state.2 action now
    exact ⟨_, by rw [answering, done]; rfl⟩
  obtain ⟨⟨replies, store⟩, done⟩ := run_completes (fun _ _ _ _ _ _ => trivial) answers trivial
    (runAllowed_true _ _) requested
  have alike := sameAnswers_run refines (stores_empty layout nothing) requested
  rw [done] at alike
  generalize reached : run (answering perform) ([], ⟨system, []⟩) actions = result at alike
  cases alike with
  | @ok last _ same =>
      have told : last.1 = replies := same.answers
      refine ⟨replies, last.2, store, ?_, done, same.relates⟩
      rw [← told]

/-- The users of a formatted file system, over which Nachos may be started again any number
of times, are told what the store of named files tells them, and the disk stores its files. -/
theorem answers_as_store (heap : Heap) (disk : Disk) (actions : List FileAction) :
    ∃ system, FileSystem.format heap disk = .ok system ∧
      (RunRequested (answering FileStore.act) (fun state => state.2.Proper)
          ([], FileStore.empty) actions →
        ∃ replies session store,
          run (answering Session.act) ([], ⟨system, []⟩) actions = .ok (replies, session) ∧
          run (answering FileStore.act) ([], FileStore.empty) actions = .ok (replies, store) ∧
          Represents session.system.disk.files store.files) := by
  obtain ⟨system, formatted, answers⟩ :=
    formatted_run_refines act_refines FileStore.act_completes heap disk actions
  refine ⟨system, formatted, fun requested => ?_⟩
  obtain ⟨replies, session, store, done, specified, stores⟩ := answers requested
  exact ⟨replies, session, store, done, specified, stores.represents⟩

section Examples

/-- A file is written, Nachos is started again, and the file is read and removed. -/
def rebootingActions : List FileAction :=
  [.request (.create [97] 3 Heap.blank), .request (.open [97] Heap.blank),
    .request (.write 0 [5, 6, 7, 8] 4 fun _ => 0), .reboot Heap.blank,
    .request (.open [97] Heap.blank), .request (.readAt 0 9 1),
    .request (.remove [97] Heap.blank), .request (.open [97] Heap.blank)]

theorem answers_as_store_rebooting :
    ∃ system session, FileSystem.format Heap.blank Disk.blank = .ok system ∧
      run (answering Session.act) ([], ⟨system, []⟩) rebootingActions =
        .ok ([.done true, .done true, .count 3, .moved, .done true, .data [6, 7], .done true,
          .done false], session) := by
  obtain ⟨system, formatted, answers⟩ :=
    answers_as_store Heap.blank Disk.blank rebootingActions
  obtain ⟨replies, session, store, done, stored, -⟩ := answers (by decide +kernel)
  have told : (run (answering FileStore.act) ([], FileStore.empty) rebootingActions).map
      Prod.fst = .ok [.done true, .done true, .count 3, .moved, .done true, .data [6, 7],
        .done true, .done false] := by decide +kernel
  rw [stored] at told
  obtain rfl := Except.ok.inj told
  exact ⟨system, session, formatted, done⟩

end Examples

end Nachos
