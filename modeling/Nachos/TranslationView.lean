import Nachos.UserPrograms

/-!
# The translation state

What an access reaches depends only on the mappings in the translation buffer and
in the page tables.  `TranslationView` keeps these, without the bits that serve
replacement, and this file describes every operation of the kernel by its effect
on the view.  The bytes of user memory are kept apart in `Storage`.
-/

namespace Nachos

open LittleEndianWords ByteStore TransitionRuns

/-- The part of an entry that decides where an access goes. -/
structure Mapping where
  virtualPage : Nat
  physicalPage : Int
  valid : Bool
  readOnly : Bool
  deriving DecidableEq, Repr

def TranslationEntry.mapping (entry : TranslationEntry) : Mapping where
  virtualPage := entry.virtualPage
  physicalPage := entry.physicalPage
  valid := entry.valid
  readOnly := entry.readOnly

structure TranslationView where
  tlb : Fin tlbSize → Mapping
  tables : Nat → Option (List Mapping)
  marked : Fin memorySize → Bool
  spaces : Nat → Option AddrSpace
  allocated : Nat
  current : Option Nat
  pageTable : Option Nat
  pageTableSize : Nat

/-- The bytes of user programs, and what their addresses depend on. -/
structure Storage where
  mainMemory : Nat → Byte
  disk : Nat → Byte
  swap : UnixFile
  noffCodeOffset : Int

def Machine.storage (machine : Machine) : Storage where
  mainMemory := machine.mainMemory
  disk := machine.disk
  swap := machine.swap
  noffCodeOffset := machine.noffCodeOffset

namespace TranslationView

/-- The valid slot that holds a page. -/
def findTLB (view : TranslationView) (vpn : Nat) : Option (Fin tlbSize) :=
  (List.finRange tlbSize).find? fun slot =>
    (view.tlb slot).valid && (view.tlb slot).virtualPage = vpn

/-- The page table of the machine holds the page at the index of that page. -/
def present (view : TranslationView) (vpn : Nat) : Bool :=
  vpn < view.pageTableSize &&
    match (view.pageTable.bind view.tables).bind fun table => table[vpn]? with
    | some mapping => mapping.virtualPage = vpn && mapping.valid
    | none => false

/-- The page table of an address space; no entries when there is none. -/
def tableOf (view : TranslationView) (id : Nat) : List Mapping :=
  (((view.spaces id).bind AddrSpace.pageTable).bind view.tables).getD []

theorem tableOf_eq (view : TranslationView) {id address : Nat} {space : AddrSpace}
    {table : List Mapping} (isSpace : view.spaces id = some space)
    (isAddress : space.pageTable = some address)
    (isTable : view.tables address = some table) : view.tableOf id = table := by
  simp [tableOf, isSpace, isAddress, isTable]

/-- A mapping is copied to a slot of the translation buffer. -/
def fill (view : TranslationView) (slot : Fin tlbSize) (mapping : Mapping) :
    TranslationView :=
  { view with tlb := Function.update view.tlb slot mapping }

/-- The mapping that `SwitchPageTable` installs. -/
def faulted (vpn : Nat) : Mapping where
  virtualPage := vpn
  physicalPage := vpn
  valid := true
  readOnly := false

/-- A page fault for page `vpn` replaces an entry of a page table. -/
def replace (view : TranslationView) (address : Nat) (table : List Mapping)
    (frame vpn : Nat) (freed : Fin memorySize) : TranslationView :=
  { view with
    tables := Function.update view.tables address
      (some (table.set frame (faulted vpn)))
    marked := fun bit => decide (bit ≠ freed) && view.marked bit }

/-- The mapping of a page of a new address space. -/
def fresh (virtualPage : Nat) (physicalPage : Int) : Mapping where
  virtualPage := virtualPage
  physicalPage := physicalPage
  valid := true
  readOnly := false

/-- A new address space is created and runs. -/
def create (view : TranslationView) (frames : List Int)
    (marked : Fin memorySize → Bool) (realNumPages : Nat) : TranslationView :=
  { view with
    tables := Function.update view.tables view.allocated
      (some (frames.mapIdx fresh))
    spaces := Function.update view.spaces view.allocated
      (some ⟨some view.allocated, frames.length, realNumPages⟩)
    marked := marked
    allocated := view.allocated + 1
    current := some view.allocated
    pageTable := some view.allocated
    pageTableSize := frames.length }

/-- Another thread runs, and the machine gets its page table. -/
def activate (view : TranslationView) (id : Nat) (space : AddrSpace) :
    TranslationView :=
  { view with
    current := some id
    pageTable := space.pageTable
    pageTableSize := space.numPages }

/-- An address space with this page table is deleted. -/
def remove (view : TranslationView) (id address : Nat)
    (marked : Fin memorySize → Bool) : TranslationView :=
  { view with
    tables := Function.update view.tables address none
    spaces := Function.update view.spaces id none
    marked := marked
    current := if view.current = some id then none else view.current }

end TranslationView

namespace TranslationView

/-- What every step keeps.  A live address space has a page table, which is
allocated under the same number, and the machine uses that of the running one. -/
structure WellFormed (view : TranslationView) : Prop where
  space : ∀ {id space}, view.spaces id = some space → space.pageTable = some id ∧
    ∃ table, view.tables id = some table ∧ table.length = space.numPages
  live : ∀ {id table}, view.tables id = some table → ∃ space, view.spaces id = some space
  allocated : ∀ {id space}, view.spaces id = some space → id < view.allocated
  running : ∀ {id}, view.current = some id → ∃ space, view.spaces id = some space ∧
    view.pageTable = some id ∧ view.pageTableSize = space.numPages
  valid : ∀ {id table}, view.tables id = some table → ∀ mapping ∈ table,
    mapping.valid = true ∧ mapping.readOnly = false

end TranslationView

namespace Machine

variable {machine : Machine} {physicalAddress : Int} {size : Nat}

/-- A read only changes the buffer of the swap file. -/
theorem fetch_eq_ok {data : List Byte} {fetched : Machine}
    (done : machine.fetch physicalAddress size = .ok (data, fetched)) :
    ∃ disk, fetched = { machine with disk := disk } := by
  unfold fetch at done
  split at done
  next =>
    cases bytes : machine.swap.readAt size (machine.swapPosition physicalAddress) with
    | error fault => simp [bytes, Except.map] at done
    | ok data =>
        simp only [bytes, Except.map, Except.ok.injEq, Prod.mk.injEq] at done
        exact ⟨_, done.2.symm⟩
  next =>
    split at done
    next =>
      cases done
      exact ⟨machine.disk, rfl⟩
    next => cases done

/-- A write only changes the bytes of user programs. -/
theorem store_eq_machine {value : CInt} {stored : Machine}
    (done : machine.store physicalAddress size value = .ok stored) :
    ∃ mainMemory disk swap,
      stored = { machine with mainMemory := mainMemory, disk := disk, swap := swap } := by
  unfold store at done
  split at done
  next =>
    simp only at done
    cases file : machine.swap.writeAt
        (segment (overwrite machine.disk 0 [UInt8.ofNat value.toNat]) 0 size)
          (machine.swapPosition physicalAddress) with
    | error fault => simp [file, Except.map] at done
    | ok swap =>
        simp only [file, Except.map, Except.ok.injEq] at done
        exact ⟨machine.mainMemory, _, swap, done.symm⟩
  next =>
    split at done
    next =>
      cases done
      exact ⟨_, machine.disk, machine.swap, rfl⟩
    next => cases done

end Machine

namespace UserSystem

def view (sys : UserSystem) : TranslationView where
  tlb slot := (sys.machine.tlb slot).mapping
  tables address := (sys.tables address).map fun table =>
    table.map TranslationEntry.mapping
  marked := sys.bitmap.testBit
  spaces := sys.spaces
  allocated := sys.allocated
  current := sys.current
  pageTable := sys.machine.pageTable
  pageTableSize := sys.machine.pageTableSize

theorem dereference_eq_ok {α : Type} {object : Option α} {value : α} :
    dereference object = .ok value ↔ object = some value := by
  cases object <;> simp [dereference]

variable {sys after : UserSystem}

theorem pageTableAt_eq_ok {pointer : Option Nat} {address : Nat}
    {table : List TranslationEntry}
    (done : sys.pageTableAt pointer = .ok (address, table)) :
    pointer = some address ∧ sys.tables address = some table := by
  obtain ⟨found, isAddress, done⟩ := bind_eq_ok_iff.mp done
  obtain ⟨value, isTable, done⟩ := bind_eq_ok_iff.mp done
  cases done
  exact ⟨dereference_eq_ok.mp isAddress, dereference_eq_ok.mp isTable⟩

theorem pageTableAt_some {address : Nat} {table : List TranslationEntry}
    (isTable : sys.tables address = some table) :
    sys.pageTableAt (some address) = .ok (address, table) := by
  simp [pageTableAt, dereference, isTable, pure, Except.pure]

section Tables

@[simp]
theorem mapping_sort (entry : TranslationEntry) : entry.sort.mapping = entry.mapping :=
  rfl

theorem mapping_markUsed (writing : Bool) (entry : TranslationEntry) :
    (entry.markUsed writing).mapping = entry.mapping :=
  rfl

/-- Writing a table whose mappings are those of the old one changes no mapping. -/
theorem view_setTable {address : Nat} {table changed : List TranslationEntry}
    (isTable : sys.tables address = some table)
    (same : changed.map TranslationEntry.mapping =
      table.map TranslationEntry.mapping) :
    (sys.setTable address changed).view = sys.view := by
  have tables : ∀ other, (((sys.setTable address changed).tables other).map
      fun table => table.map TranslationEntry.mapping) =
        (sys.tables other).map fun table => table.map TranslationEntry.mapping := by
    intro other
    by_cases equal : other = address
    · subst equal
      simp [setTable, isTable, same]
    · simp [setTable, equal]
  simp only [view, tables]
  rfl

theorem sortPTE_eq_ok (done : sys.sortPTE = .ok after) :
    ∃ tables, after = { sys with tables := tables } ∧ after.view = sys.view := by
  obtain ⟨⟨address, table⟩, found, done⟩ := bind_eq_ok_iff.mp done
  obtain ⟨-, isTable⟩ := pageTableAt_eq_ok found
  simp only at done
  split at done
  next => cases done
  next =>
    cases done
    refine ⟨_, rfl, view_setTable isTable ?_⟩
    apply List.ext_getElem
    · simp
    · intro index first second
      simp only [List.getElem_map, List.getElem_mapIdx]
      split <;> rfl

/-- The effect of `if(bitmap->Test(vpn)) bitmap->Mark(vpn)`: none. -/
theorem markAgain_eq_ok {numBits : Nat} {bitmap marked : BitMap numBits} {vpn : Nat}
    (done : markAgain bitmap vpn = .ok marked) :
    vpn < numBits ∧ ∀ bit, marked.testBit bit = bitmap.testBit bit := by
  obtain ⟨isMarked, tested, done⟩ := bind_eq_ok_iff.mp done
  by_cases inside : vpn < numBits
  · have number : BitMap.index numBits (vpn : Int) = .ok ⟨vpn, inside⟩ :=
      BitMap.index_of_fin ⟨vpn, inside⟩
    refine ⟨inside, fun bit => ?_⟩
    rw [BitMap.test, number] at tested
    cases tested
    cases bitSet : bitmap.testBit ⟨vpn, inside⟩ with
    | true =>
        simp only [bitSet, if_true, BitMap.mark, number, Except.map] at done
        cases done
        rw [BitMap.testBit_markBit]
        by_cases same : bit = ⟨vpn, inside⟩
        · simp [same, bitSet]
        · simp [same]
    | false =>
        simp only [bitSet, Bool.false_eq_true, if_false] at done
        cases done
        rfl
  · have number : BitMap.index numBits (vpn : Int) = .error .assertion := by
      rw [BitMap.index, dif_neg (by omega)]
    rw [BitMap.test, number] at tested
    cases tested

theorem clear_eq_ok {numBits : Nat} {bitmap cleared : BitMap numBits} {which : Int}
    (done : bitmap.clear which = .ok cleared) :
    ∃ bit : Fin numBits, which = bit.val ∧ cleared = bitmap.clearBit bit := by
  unfold BitMap.clear BitMap.index at done
  split at done
  next inside =>
    refine ⟨⟨which.toNat, by omega⟩, by simp; omega, ?_⟩
    simpa [Except.map] using done.symm
  next => cases done

/-- A page fault replaces the mapping at `frameNum` by one that maps page `vpn`
to frame `vpn`, and clears the bit of the old frame. -/
theorem switchPageTable_eq_ok {id frameNum : Nat}
    (done : sys.switchPageTable id frameNum = .ok after) :
    ∃ space address table entry freed,
      sys.spaces id = some space ∧ space.pageTable = some address ∧
      sys.tables address = some table ∧ table[frameNum]? = some entry ∧
      entry.physicalPage = (Fin.val freed : Int) ∧ sys.machine.vpn < memorySize ∧
      after.machine = sys.machine ∧
      after.view = sys.view.replace address (table.map TranslationEntry.mapping)
        frameNum sys.machine.vpn freed := by
  obtain ⟨space, isSpace, done⟩ := bind_eq_ok_iff.mp done
  obtain ⟨⟨address, table⟩, found, done⟩ := bind_eq_ok_iff.mp done
  obtain ⟨entry, isEntry, done⟩ := bind_eq_ok_iff.mp done
  obtain ⟨marked, again, done⟩ := bind_eq_ok_iff.mp done
  obtain ⟨cleared, clearing, done⟩ := bind_eq_ok_iff.mp done
  obtain ⟨isAddress, isTable⟩ := pageTableAt_eq_ok found
  obtain ⟨small, unchanged⟩ := markAgain_eq_ok again
  obtain ⟨freed, isFreed, rfl⟩ := clear_eq_ok clearing
  cases done
  refine ⟨space, address, table, entry, freed, dereference_eq_ok.mp isSpace,
    isAddress, isTable, dereference_eq_ok.mp isEntry, isFreed, small, rfl, ?_⟩
  have tables : (fun other => ((Function.update sys.tables address
      (some (table.set frameNum { entry with
        physicalPage := sys.machine.vpn
        virtualPage := sys.machine.vpn
        valid := true
        use := false
        dirty := false
        readOnly := false })) other).map fun table =>
          table.map TranslationEntry.mapping)) =
      Function.update sys.view.tables address
        (some ((table.map TranslationEntry.mapping).set frameNum
          (TranslationView.faulted sys.machine.vpn))) := by
    ext other
    by_cases same : other = address
    · subst same
      simp only [Function.update_self, Option.map_some, List.map_set]
      rfl
    · simp [view, same]
  have bits : (marked.clearBit freed).testBit =
      fun bit => decide (bit ≠ freed) && sys.bitmap.testBit bit := by
    ext bit
    rw [BitMap.testBit_clearBit, unchanged]
  simp only [view, bits, tables, TranslationView.replace]

/-- The index of the entry that a page fault replaces. -/
def replacementFrame (sys : UserSystem) : Except Fault Nat := do
  let sys ← sys.sortPTE
  sys.lruPTE

/-- Replacement looks at the page table only. -/
theorem replacementFrame_congr (tables : after.tables = sys.tables)
    (pageTable : after.machine.pageTable = sys.machine.pageTable)
    (size : after.machine.pageTableSize = sys.machine.pageTableSize) :
    after.replacementFrame = sys.replacementFrame := by
  simp only [replacementFrame, sortPTE, lruPTE, machineTable, pageTableAt, setTable,
    tables, pageTable, size]
  cases sys.machine.pageTable with
  | none => rfl
  | some address =>
      cases isTable : sys.tables address with
      | none => simp [dereference, isTable]
      | some table =>
          simp only [dereference, isTable, ok_bind, pure, Except.pure]
          split
          next => rfl
          next => simp [pageTable, size]

/-- A page fault replaces the entry that `SortPTE` and `LRU_PTE` select. -/
theorem updatePageTable_eq_ok (done : sys.updatePageTable = .ok after) :
    ∃ id space address table frame mapping freed,
      sys.current = some id ∧ sys.spaces id = some space ∧
      space.pageTable = some address ∧ sys.view.tables address = some table ∧
      sys.replacementFrame = .ok frame ∧ table[frame]? = some mapping ∧
      mapping.physicalPage = (Fin.val freed : Int) ∧ sys.machine.vpn < memorySize ∧
      after.machine = { sys.machine with pageTableFrame := frame } ∧
      after.view = sys.view.replace address table frame sys.machine.vpn freed := by
  obtain ⟨sorted, sorting, done⟩ := bind_eq_ok_iff.mp done
  obtain ⟨frame, selecting, done⟩ := bind_eq_ok_iff.mp done
  obtain ⟨id, isCurrent, done⟩ := bind_eq_ok_iff.mp done
  obtain ⟨tables, isSorted, sortedView⟩ := sortPTE_eq_ok sorting
  obtain ⟨space, address, table, entry, freed, isSpace, isAddress, isTable, isEntry,
    isFreed, small, machine, view⟩ := switchPageTable_eq_ok done
  subst isSorted
  refine ⟨id, space, address, table.map TranslationEntry.mapping, frame,
    entry.mapping, freed, dereference_eq_ok.mp isCurrent, isSpace, isAddress, ?_,
    bind_eq_ok_iff.mpr ⟨_, sorting, selecting⟩, ?_, isFreed, small, machine, ?_⟩
  · rw [← sortedView]
    simp only [UserSystem.view] at isTable ⊢
    rw [isTable]
    rfl
  · rw [List.getElem?_map, isEntry]
    rfl
  · rw [view, ← sortedView]
    rfl

theorem missingPTE_eq_ok {missing : Bool} (done : sys.missingPTE = .ok missing) :
    sys.view.present sys.machine.vpn = !missing := by
  unfold missingPTE at done
  simp only at done
  split at done
  next beyond =>
    cases done
    simp [TranslationView.present, UserSystem.view, Nat.not_lt.mpr beyond]
  next inside =>
    obtain ⟨⟨address, table⟩, found, done⟩ := bind_eq_ok_iff.mp done
    obtain ⟨entry, isEntry, done⟩ := bind_eq_ok_iff.mp done
    obtain ⟨isAddress, isTable⟩ := pageTableAt_eq_ok found
    have isEntry := dereference_eq_ok.mp isEntry
    cases done
    simp only [TranslationView.present, UserSystem.view, isAddress, isTable,
      Option.bind_some, Option.map_some, List.getElem?_map, isEntry,
      TranslationEntry.mapping, decide_eq_true (Nat.not_le.mp inside), Bool.true_and]
    by_cases page : entry.virtualPage = sys.machine.vpn <;> simp [page]

end Tables

section Entries

/-- `TranslatePTE` ends with `entry` at an index of the page table of the machine:
that of the page, or the one where a page fault has put the page. -/
theorem translatePTE_eq_ok {id : Nat} (formed : sys.view.WellFormed)
    (isCurrent : sys.current = some id) (done : sys.translatePTE = .ok after) :
    ∃ frame, after.machine = { sys.machine with
        pageTableFrame := frame, entry := some (.page id frame) } ∧
      ((sys.view.present sys.machine.vpn = true ∧ frame = sys.machine.vpn ∧
          after.view = sys.view) ∨
        (sys.view.present sys.machine.vpn = false ∧
          ∃ table mapping freed, sys.view.tables id = some table ∧
            sys.replacementFrame = .ok frame ∧ table[frame]? = some mapping ∧
            mapping.physicalPage = (Fin.val freed : Int) ∧
            sys.machine.vpn < memorySize ∧
            after.view = sys.view.replace id table frame sys.machine.vpn freed)) := by
  obtain ⟨space, isSpace, isPageTable, -⟩ := formed.running isCurrent
  obtain ⟨raised, raising, done⟩ := bind_eq_ok_iff.mp done
  simp only at done
  split at done
  next => cases done
  obtain ⟨⟨address, table⟩, found, done⟩ := bind_eq_ok_iff.mp done
  obtain ⟨entry, isEntry, done⟩ := bind_eq_ok_iff.mp done
  simp only at done
  split at done
  next => cases done
  cases done
  obtain ⟨isAddress, -⟩ := pageTableAt_eq_ok found
  obtain ⟨missing, deciding, raising⟩ := bind_eq_ok_iff.mp raising
  have present := missingPTE_eq_ok deciding
  cases missing with
  | false =>
      cases raising
      obtain rfl : id = address := Option.some.inj (isPageTable.symm.trans isAddress)
      exact ⟨sys.machine.vpn, rfl, Or.inl ⟨present, rfl, rfl⟩⟩
  | true =>
      obtain ⟨owner, ownSpace, own, ownTable, frame, mapping, freed, isOwner,
        isOwnSpace, isOwn, isOwnTable, selected, isMapping, isFreed, small, machine,
        view⟩ := updatePageTable_eq_ok raising
      obtain rfl : id = owner := Option.some.inj (isCurrent.symm.trans isOwner)
      obtain rfl : id = own :=
        Option.some.inj ((formed.space isOwnSpace).1.symm.trans isOwn)
      rw [machine] at isAddress
      obtain rfl : id = address := Option.some.inj (isPageTable.symm.trans isAddress)
      refine ⟨frame, ?_, Or.inr ⟨present, ownTable, mapping, freed, isOwnTable, ?_,
        isMapping, isFreed, small, ?_⟩⟩
      · rw [machine]
      · rw [← selected]
        exact replacementFrame_congr rfl rfl rfl
      · exact view

theorem currentEntry_page_eq_ok {id frame : Nat} {entry : TranslationEntry}
    (pointer : sys.machine.entry = some (.page id frame))
    (done : sys.currentEntry = .ok entry) :
    ∃ table, sys.view.tables id = some table ∧ table[frame]? = some entry.mapping := by
  unfold currentEntry at done
  simp only [pointer, dereference, ok_bind] at done
  obtain ⟨table, isTable, isEntry⟩ := bind_eq_ok_iff.mp done
  refine ⟨table.map TranslationEntry.mapping, ?_, ?_⟩
  · simp [view, dereference_eq_ok.mp isTable]
  · simp [dereference_eq_ok.mp isEntry]

variable {change : TranslationEntry → TranslationEntry}

theorem modifyEntry_page_eq_ok {id frame : Nat}
    (pointer : sys.machine.entry = some (.page id frame))
    (keeps : ∀ entry, (change entry).mapping = entry.mapping)
    (done : sys.modifyEntry change = .ok after) :
    after.machine = sys.machine ∧ after.view = sys.view := by
  unfold modifyEntry at done
  simp only [pointer, dereference, ok_bind] at done
  obtain ⟨table, isTable, done⟩ := bind_eq_ok_iff.mp done
  obtain ⟨entry, isEntry, done⟩ := bind_eq_ok_iff.mp done
  have isEntry := dereference_eq_ok.mp isEntry
  cases done
  refine ⟨rfl, view_setTable (dereference_eq_ok.mp isTable) ?_⟩
  rw [List.map_set, keeps]
  apply List.ext_getElem?
  intro index
  by_cases same : frame = index
  · subst same
    obtain ⟨inside, -⟩ := List.getElem?_eq_some_iff.mp isEntry
    rw [List.getElem?_set_self (by simpa using inside), List.getElem?_map, isEntry]
    rfl
  · rw [List.getElem?_set_ne same]

theorem modifyEntry_tlb_eq_ok {slot : Fin tlbSize}
    (pointer : sys.machine.entry = some (.tlb slot))
    (keeps : ∀ entry, (change entry).mapping = entry.mapping)
    (done : sys.modifyEntry change = .ok after) :
    (∃ tlb, after.machine = { sys.machine with tlb := tlb }) ∧
      after.view = sys.view := by
  obtain ⟨found, isFound, done⟩ := bind_eq_ok_iff.mp done
  obtain rfl : found = .tlb slot :=
    Option.some.inj ((dereference_eq_ok.mp isFound).symm.trans pointer)
  cases done
  refine ⟨⟨_, rfl⟩, ?_⟩
  have slots : (fun other => (Function.update sys.machine.tlb slot
      (change (sys.machine.tlb slot)) other).mapping) =
        fun other => (sys.machine.tlb other).mapping := by
    ext other
    by_cases same : other = slot
    · subst same
      rw [Function.update_self, keeps]
    · rw [Function.update_of_ne same]
  simp only [view, slots]

/-- The choice of a slot looks at the translation buffer only. -/
theorem chooseTLB_congr {first second : Machine} (same : first.tlb = second.tlb) :
    first.chooseTLB.1 = second.chooseTLB.1 := by
  simp only [Machine.chooseTLB, Machine.switchOutTLB, Machine.sortTLB, same]
  split <;> rfl

theorem chooseTLB_eq (machine : Machine) :
    ∃ tlb, machine.chooseTLB.2 = { machine with tlb := tlb } ∧
      ∀ slot, (tlb slot).mapping = (machine.tlb slot).mapping := by
  unfold Machine.chooseTLB
  split
  next => exact ⟨machine.tlb, rfl, fun slot => rfl⟩
  next => exact ⟨_, rfl, fun slot => rfl⟩

/-- `UpdateTLB` copies the mapping of the entry to the chosen slot. -/
theorem updateTLB_eq_ok {id frame : Nat}
    (pointer : sys.machine.entry = some (.page id frame))
    (done : sys.updateTLB = .ok after) :
    ∃ slot table mapping, sys.machine.chooseTLB.1 = Fin.val slot ∧
      sys.view.tables id = some table ∧ table[frame]? = some mapping ∧
      (∃ tlb, after.machine = { sys.machine with tlb := tlb }) ∧
      after.view = sys.view.fill slot mapping := by
  obtain ⟨tlb, machine, same⟩ := chooseTLB_eq sys.machine
  unfold updateTLB at done
  simp only [machine] at done
  obtain ⟨entry, isEntry, done⟩ := bind_eq_ok_iff.mp done
  split at done
  next inside =>
    cases done
    obtain ⟨table, isTable, isMapping⟩ := @currentEntry_page_eq_ok
      { sys with machine := { sys.machine with tlb := tlb } } id frame entry pointer isEntry
    refine ⟨⟨_, inside⟩, table, entry.mapping, rfl, isTable, isMapping, ⟨_, rfl⟩, ?_⟩
    have slots : (fun other => (Function.update tlb ⟨_, inside⟩
        { entry with nruN := (tlb ⟨_, inside⟩).nruN } other).mapping) =
          Function.update sys.view.tlb ⟨_, inside⟩ entry.mapping := by
      ext other
      by_cases chosen : other = ⟨_, inside⟩
      · subst chosen
        rw [Function.update_self, Function.update_self]
        rfl
      · rw [Function.update_of_ne chosen, Function.update_of_ne chosen, same]
        rfl
    simp only [view, slots, TranslationView.fill]
  next => cases done

end Entries

section Accesses

/-- The access misses the translation buffer and the page table. -/
def PageFaults (sys : UserSystem) (addr : CInt) : Prop :=
  sys.view.findTLB (addr.toNat / pageSize) = none ∧
    sys.view.present (addr.toNat / pageSize) = false

instance (sys : UserSystem) (addr : CInt) : Decidable (sys.PageFaults addr) :=
  inferInstanceAs (Decidable (_ ∧ _))

/-- How the search for a page ends in an access of address space `id`: with the
mapping that is used and the translation state afterwards. -/
inductive Lookup (sys : UserSystem) (id vpn : Nat) :
    Mapping → TranslationView → Prop where
  | hit {slot : Fin tlbSize} (found : sys.view.findTLB vpn = some slot) :
      Lookup sys id vpn (sys.view.tlb slot) sys.view
  | load {slot : Fin tlbSize} {table : List Mapping} {mapping : Mapping}
      (missed : sys.view.findTLB vpn = none) (present : sys.view.present vpn = true)
      (chosen : sys.machine.chooseTLB.1 = slot.val)
      (isTable : sys.view.tables id = some table)
      (isMapping : table[vpn]? = some mapping) :
      Lookup sys id vpn mapping (sys.view.fill slot mapping)
  | fault {slot : Fin tlbSize} {table : List Mapping} {frame : Nat}
      {mapping : Mapping} {freed : Fin memorySize}
      (missed : sys.view.findTLB vpn = none) (absent : sys.view.present vpn = false)
      (chosen : sys.machine.chooseTLB.1 = slot.val)
      (isTable : sys.view.tables id = some table)
      (selected : sys.replacementFrame = .ok frame)
      (isMapping : table[frame]? = some mapping)
      (isFreed : mapping.physicalPage = freed.val) (small : vpn < memorySize) :
      Lookup sys id vpn (TranslationView.faulted vpn)
        ((sys.view.replace id table frame vpn freed).fill slot
          (TranslationView.faulted vpn))

theorem useEntry_eq_ok {tlbMiss writing : Bool} {physicalAddress : Int}
    (done : sys.useEntry tlbMiss writing = .ok (.ok physicalAddress, after)) :
    ∃ entry touched, sys.currentEntry = .ok entry ∧
      sys.modifyEntry (TranslationEntry.markUsed writing) = .ok touched ∧
      touched.updateOnMiss tlbMiss = .ok after ∧
      physicalAddress = wrapInt (entry.physicalPage * pageSize + after.machine.offset) := by
  obtain ⟨entry, isEntry, done⟩ := bind_eq_ok_iff.mp done
  split at done
  next => cases done
  obtain ⟨touched, touching, done⟩ := bind_eq_ok_iff.mp done
  obtain ⟨updated, updating, done⟩ := bind_eq_ok_iff.mp done
  cases done
  exact ⟨entry, touched, isEntry, touching, updating, rfl⟩

/-- A successful translation ends one of the three searches. -/
theorem translate_eq_ok {id size : Nat} {addr : CInt} {writing : Bool}
    {physicalAddress : Int} (formed : sys.view.WellFormed)
    (isCurrent : sys.current = some id)
    (done : sys.translate addr size writing = .ok (.ok physicalAddress, after)) :
    misaligned addr size = false ∧ ∃ mapping,
      Lookup sys id (addr.toNat / pageSize) mapping after.view ∧
      after.machine.storage = sys.machine.storage ∧
      physicalAddress =
        wrapInt (mapping.physicalPage * pageSize + (addr.toNat % pageSize : Nat)) := by
  unfold translate at done
  split at done
  next => cases done
  next aligned =>
    refine ⟨by simpa using aligned, ?_⟩
    obtain ⟨⟨tlbMiss, found⟩, finding, done⟩ := bind_eq_ok_iff.mp done
    obtain ⟨entry, touched, isEntry, touching, updating, rfl⟩ := useEntry_eq_ok done
    unfold findEntry at finding
    split at finding
    next slot isSlot =>
      cases finding
      obtain ⟨⟨tlb, machine⟩, view⟩ :=
        modifyEntry_tlb_eq_ok rfl (mapping_markUsed writing) touching
      cases updating
      cases isEntry
      refine ⟨sys.view.tlb slot, ?_, ?_, ?_⟩
      · rw [view]
        exact Lookup.hit isSlot
      · rw [machine]
        rfl
      · rw [machine]
        rfl
    next missed =>
      obtain ⟨handled, handling, finding⟩ := bind_eq_ok_iff.mp finding
      simp only [pure, Except.pure, Except.ok.injEq, Prod.mk.injEq] at finding
      obtain ⟨rfl, rfl⟩ := finding
      obtain ⟨frame, machine, ended⟩ :=
        @translatePTE_eq_ok (sys.setPage addr) handled id formed isCurrent handling
      have pointer : handled.machine.entry = some (.page id frame) := by rw [machine]
      obtain ⟨touchedMachine, touchedView⟩ :=
        modifyEntry_page_eq_ok pointer (mapping_markUsed writing) touching
      obtain ⟨slot, table, mapping, chosen, isTable, isMapping, ⟨tlb, updated⟩, view⟩ :=
        updateTLB_eq_ok (by rw [touchedMachine, pointer]) updating
      obtain ⟨entryTable, isEntryTable, entryAt⟩ :=
        currentEntry_page_eq_ok pointer isEntry
      rw [touchedView] at isTable view
      obtain rfl : entryTable = table :=
        Option.some.inj (isEntryTable.symm.trans isTable)
      obtain rfl : entry.mapping = mapping := Option.some.inj (entryAt.symm.trans isMapping)
      have slotChosen : sys.machine.chooseTLB.1 = slot.val := by
        rw [← chosen, touchedMachine, machine]
        exact chooseTLB_congr rfl
      refine ⟨entry.mapping, ?_, ?_, ?_⟩
      · rcases ended with ⟨present, rfl, same⟩ |
          ⟨absent, oldTable, old, freed, isOld, selected, oldAt, isFreed, small, same⟩
        · rw [view, same]
          rw [same] at isTable
          exact Lookup.load missed present slotChosen isTable isMapping
        · have installed : entry.mapping =
              TranslationView.faulted (addr.toNat / pageSize) := by
            rw [same] at isTable
            simp only [TranslationView.replace, Function.update_self,
              Option.some.injEq] at isTable
            subst isTable
            obtain ⟨inside, -⟩ := List.getElem?_eq_some_iff.mp oldAt
            rw [List.getElem?_set_self inside] at isMapping
            exact (Option.some.inj isMapping).symm
          rw [view, same, installed]
          exact Lookup.fault missed absent slotChosen isOld
            ((@replacementFrame_congr sys (sys.setPage addr) rfl rfl rfl).symm.trans
              selected) oldAt isFreed small
      · rw [updated, touchedMachine, machine]
        rfl
      · rw [updated, touchedMachine, machine]
        rfl

theorem translateOrRaise_eq_ok {size : Nat} {addr : CInt} {writing : Bool}
    {translated : Option Int}
    (done : sys.translateOrRaise addr size writing = .ok (translated, after)) :
    ∃ physicalAddress, translated = some physicalAddress ∧
      sys.translate addr size writing = .ok (.ok physicalAddress, after) := by
  obtain ⟨⟨result, system⟩, translating, done⟩ := bind_eq_ok_iff.mp done
  cases result with
  | ok physicalAddress =>
      cases done
      exact ⟨physicalAddress, rfl, translating⟩
  | error exception =>
      obtain ⟨handled, handling, -⟩ := bind_eq_ok_iff.mp done
      unfold translate at translating
      split at translating
      next =>
        cases translating
        cases handling
      next =>
        obtain ⟨⟨tlbMiss, found⟩, finding, used⟩ := bind_eq_ok_iff.mp translating
        obtain ⟨entry, isEntry, used⟩ := bind_eq_ok_iff.mp used
        split at used
        next =>
          cases used
          cases handling
        next =>
          obtain ⟨touched, touching, used⟩ := bind_eq_ok_iff.mp used
          obtain ⟨updated, updating, used⟩ := bind_eq_ok_iff.mp used
          cases used

/-- A completed `ReadMem` returns the value at the address found. -/
theorem readMem_eq_ok {size : Nat} {addr : CInt} {result : Option CInt}
    (done : sys.readMem addr size = .ok (result, after)) :
    ∃ physicalAddress translated data machine,
      sys.translate addr size false = .ok (.ok physicalAddress, translated) ∧
      checkSize size = .ok () ∧
      translated.machine.fetch physicalAddress size = .ok (data, machine) ∧
      result = some (Machine.loadedValue data) ∧
      after = { translated with machine := machine } := by
  obtain ⟨⟨found, translated⟩, translating, done⟩ := bind_eq_ok_iff.mp done
  obtain ⟨physicalAddress, rfl, isAddress⟩ := translateOrRaise_eq_ok translating
  obtain ⟨⟨⟩, checked, done⟩ := bind_eq_ok_iff.mp done
  obtain ⟨⟨data, machine⟩, fetched, done⟩ := bind_eq_ok_iff.mp done
  cases done
  exact ⟨physicalAddress, translated, data, machine, isAddress, checked, fetched,
    rfl, rfl⟩

theorem writeMem_eq_ok {size : Nat} {addr value : CInt} {written : Bool}
    (done : sys.writeMem addr size value = .ok (written, after)) :
    ∃ physicalAddress translated machine,
      sys.translate addr size true = .ok (.ok physicalAddress, translated) ∧
      checkSize size = .ok () ∧
      translated.machine.store physicalAddress size value = .ok machine ∧
      written = true ∧ after = { translated with machine := machine } := by
  obtain ⟨⟨found, translated⟩, translating, done⟩ := bind_eq_ok_iff.mp done
  obtain ⟨physicalAddress, rfl, isAddress⟩ := translateOrRaise_eq_ok translating
  obtain ⟨⟨⟩, checked, done⟩ := bind_eq_ok_iff.mp done
  obtain ⟨machine, stored, done⟩ := bind_eq_ok_iff.mp done
  cases done
  exact ⟨physicalAddress, translated, machine, isAddress, checked, stored, rfl, rfl⟩

theorem view_of_fetch {physicalAddress : Int} {size : Nat} {data : List Byte}
    {machine : Machine}
    (fetched : sys.machine.fetch physicalAddress size = .ok (data, machine)) :
    ({ sys with machine := machine } : UserSystem).view = sys.view := by
  obtain ⟨disk, rfl⟩ := Machine.fetch_eq_ok fetched
  rfl

theorem view_of_store {physicalAddress : Int} {size : Nat} {value : CInt}
    {machine : Machine}
    (stored : sys.machine.store physicalAddress size value = .ok machine) :
    ({ sys with machine := machine } : UserSystem).view = sys.view := by
  obtain ⟨mainMemory, disk, swap, rfl⟩ := Machine.store_eq_machine stored
  rfl

end Accesses

end UserSystem

end Nachos
