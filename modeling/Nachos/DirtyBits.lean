import Nachos.TranslationSteps

/-!
# The dirty bits of the entries

A translation sets the dirty bit of the entry it uses: that of the translation buffer
when the page is there, else that of the page table, which `UpdateTLB` then copies.
This file follows the pages of the entries with their dirty bits through an access,
next to the mappings of `TranslationView`.
-/

namespace Nachos

open LittleEndianWords ByteStore TransitionRuns

/-- The page of an entry, and whether it is marked as written. -/
structure PageState where
  virtualPage : Nat
  valid : Bool
  dirty : Bool
  deriving DecidableEq, Repr

namespace PageState

/-- An access marks the entry that it uses. -/
def mark (writing : Bool) (page : PageState) : PageState :=
  { page with dirty := page.dirty || writing }

/-- The entry that a page fault installs. -/
def faulted (vpn : Nat) : PageState where
  virtualPage := vpn
  valid := true
  dirty := false

@[simp]
theorem virtualPage_mark (writing : Bool) (page : PageState) :
    (page.mark writing).virtualPage = page.virtualPage :=
  rfl

@[simp]
theorem valid_mark (writing : Bool) (page : PageState) :
    (page.mark writing).valid = page.valid :=
  rfl

end PageState

def TranslationEntry.pageState (entry : TranslationEntry) : PageState where
  virtualPage := entry.virtualPage
  valid := entry.valid
  dirty := entry.dirty

@[simp]
theorem pageState_sort (entry : TranslationEntry) : entry.sort.pageState = entry.pageState :=
  rfl

@[simp]
theorem pageState_markUsed (writing : Bool) (entry : TranslationEntry) :
    (entry.markUsed writing).pageState = entry.pageState.mark writing :=
  rfl

namespace UserSystem

def tlbStates (sys : UserSystem) (slot : Fin tlbSize) : PageState :=
  (sys.machine.tlb slot).pageState

/-- The entries of the page table at an address. -/
def tableStates (sys : UserSystem) (address : Nat) : List PageState :=
  ((sys.tables address).getD []).map TranslationEntry.pageState

variable {sys after : UserSystem} {id frame : Nat}

section Tables

theorem tableStates_of_table {table : List TranslationEntry}
    (isTable : sys.tables id = some table) :
    sys.tableStates id = table.map TranslationEntry.pageState := by
  rw [tableStates, isTable, Option.getD_some]

theorem tableStates_setTable (address : Nat) (table : List TranslationEntry) :
    (sys.setTable address table).tableStates address =
      table.map TranslationEntry.pageState :=
  tableStates_of_table (Function.update_self ..)

theorem tableStates_setTable_of_ne {address : Nat} (different : id ≠ address)
    (table : List TranslationEntry) :
    (sys.setTable address table).tableStates id = sys.tableStates id := by
  simp [tableStates, setTable, different]

/-- The states and the mappings of a page table are of the same entries. -/
theorem map_tableStates {table : List Mapping} (isTable : sys.view.tables id = some table) :
    (sys.tableStates id).map (fun page => (page.virtualPage, page.valid)) =
      table.map fun mapping => (mapping.virtualPage, mapping.valid) := by
  cases entries : sys.tables id with
  | none => simp [view, entries] at isTable
  | some list =>
      obtain rfl : list.map TranslationEntry.mapping = table := by
        simpa [view, entries] using isTable
      rw [tableStates_of_table entries, List.map_map, List.map_map]
      rfl

theorem getElem?_tableStates {table : List Mapping} {index : Nat}
    (isTable : sys.view.tables id = some table) :
    ((sys.tableStates id)[index]?).map (fun page => (page.virtualPage, page.valid)) =
      table[index]?.map fun mapping => (mapping.virtualPage, mapping.valid) := by
  rw [← List.getElem?_map, map_tableStates isTable, List.getElem?_map]

theorem sortPTE_tableStates (done : sys.sortPTE = .ok after) :
    after.tableStates id = sys.tableStates id := by
  obtain ⟨⟨address, table⟩, found, done⟩ := bind_eq_ok_iff.mp done
  obtain ⟨-, isTable⟩ := pageTableAt_eq_ok found
  simp only at done
  split at done
  next => cases done
  next =>
    cases done
    by_cases same : id = address
    · subst same
      rw [tableStates_setTable, tableStates_of_table isTable]
      apply List.ext_getElem
      · simp
      · intro index first second
        simp only [List.getElem_map, List.getElem_mapIdx]
        split <;> rfl
    · exact tableStates_setTable_of_ne same _

theorem switchPageTable_tableStates {space : AddrSpace}
    (isSpace : sys.spaces id = some space) (own : space.pageTable = some id)
    (done : sys.switchPageTable id frame = .ok after) :
    after.tableStates id =
      (sys.tableStates id).set frame (PageState.faulted sys.machine.vpn) := by
  obtain ⟨found, isFound, done⟩ := bind_eq_ok_iff.mp done
  obtain ⟨⟨address, table⟩, pointed, done⟩ := bind_eq_ok_iff.mp done
  obtain ⟨entry, -, done⟩ := bind_eq_ok_iff.mp done
  obtain ⟨marked, -, done⟩ := bind_eq_ok_iff.mp done
  obtain ⟨cleared, -, done⟩ := bind_eq_ok_iff.mp done
  obtain rfl : space = found :=
    Option.some.inj (isSpace.symm.trans (dereference_eq_ok.mp isFound))
  obtain ⟨isAddress, isTable⟩ := pageTableAt_eq_ok pointed
  obtain rfl : id = address := Option.some.inj (own.symm.trans isAddress)
  cases done
  rw [tableStates_of_table isTable, tableStates_of_table (Function.update_self ..),
    List.map_set]
  rfl

theorem updatePageTable_tableStates (formed : sys.view.WellFormed)
    (running : sys.current = some id) (done : sys.updatePageTable = .ok after) :
    sys.replacementFrame = .ok after.machine.pageTableFrame ∧
      after.tableStates id = (sys.tableStates id).set after.machine.pageTableFrame
        (PageState.faulted sys.machine.vpn) := by
  obtain ⟨sorted, sorting, done⟩ := bind_eq_ok_iff.mp done
  obtain ⟨frame, selecting, done⟩ := bind_eq_ok_iff.mp done
  obtain ⟨owner, isCurrent, done⟩ := bind_eq_ok_iff.mp done
  have states : sorted.tableStates id = sys.tableStates id := sortPTE_tableStates sorting
  obtain ⟨tables, rfl, -⟩ := sortPTE_eq_ok sorting
  obtain rfl : id = owner :=
    Option.some.inj (running.symm.trans (dereference_eq_ok.mp isCurrent))
  obtain ⟨space, isSpace, -⟩ := formed.running running
  obtain ⟨-, -, -, -, -, -, -, -, -, -, -, machine, -⟩ := switchPageTable_eq_ok done
  have switched := switchPageTable_tableStates (by exact isSpace) (formed.space isSpace).1 done
  rw [machine]
  exact ⟨bind_eq_ok_iff.mpr ⟨_, sorting, selecting⟩, by rw [switched, ← states]; rfl⟩

/-- `TranslatePTE` only changes the page table by a page fault. -/
theorem translatePTE_tableStates (formed : sys.view.WellFormed)
    (running : sys.current = some id) (done : sys.translatePTE = .ok after) :
    ∃ frame, after.machine = { sys.machine with
        pageTableFrame := frame, entry := some (.page id frame) } ∧
      ((sys.view.present sys.machine.vpn = true ∧ frame = sys.machine.vpn ∧
          after.tableStates id = sys.tableStates id) ∨
        (sys.view.present sys.machine.vpn = false ∧ sys.replacementFrame = .ok frame ∧
          after.tableStates id =
            (sys.tableStates id).set frame (PageState.faulted sys.machine.vpn))) := by
  obtain ⟨frame, machine, -⟩ := translatePTE_eq_ok formed running done
  refine ⟨frame, machine, ?_⟩
  obtain ⟨raised, raising, done⟩ := bind_eq_ok_iff.mp done
  simp only at done
  split at done
  next => cases done
  obtain ⟨⟨address, table⟩, -, done⟩ := bind_eq_ok_iff.mp done
  obtain ⟨entry, -, done⟩ := bind_eq_ok_iff.mp done
  simp only at done
  split at done
  next => cases done
  cases done
  have pointers : address = id ∧ raised.machine.pageTableFrame = frame := by
    simpa using congrArg Machine.entry machine
  have isFrame := pointers.2
  obtain ⟨missing, deciding, raising⟩ := bind_eq_ok_iff.mp raising
  have present := missingPTE_eq_ok deciding
  cases missing with
  | false =>
      cases raising
      exact Or.inl ⟨present, isFrame.symm, rfl⟩
  | true =>
      obtain ⟨selected, states⟩ :=
        updatePageTable_tableStates (by exact formed) (by exact running) raising
      rw [isFrame] at selected states
      refine Or.inr ⟨present, ?_, states⟩
      rw [← selected]
      exact replacementFrame_congr rfl rfl rfl

end Tables

section Entries

theorem modifyEntry_page_states {writing : Bool}
    (pointer : sys.machine.entry = some (.page id frame))
    (done : sys.modifyEntry (TranslationEntry.markUsed writing) = .ok after) :
    ∃ page, (sys.tableStates id)[frame]? = some page ∧
      after.tableStates id = (sys.tableStates id).set frame (page.mark writing) := by
  unfold modifyEntry at done
  simp only [pointer, dereference, ok_bind] at done
  obtain ⟨table, isTable, done⟩ := bind_eq_ok_iff.mp done
  obtain ⟨entry, isEntry, done⟩ := bind_eq_ok_iff.mp done
  have isTable := dereference_eq_ok.mp isTable
  have isEntry := dereference_eq_ok.mp isEntry
  cases done
  refine ⟨entry.pageState, ?_, ?_⟩
  · rw [tableStates_of_table isTable, List.getElem?_map, isEntry]
    rfl
  · rw [tableStates_setTable, tableStates_of_table isTable, List.map_set]
    rfl

/-- An access that hits the translation buffer marks the slot only. -/
theorem modifyEntry_tlb_states {slot : Fin tlbSize} {writing : Bool}
    (pointer : sys.machine.entry = some (.tlb slot))
    (done : sys.modifyEntry (TranslationEntry.markUsed writing) = .ok after) :
    after.tlbStates = Function.update sys.tlbStates slot ((sys.tlbStates slot).mark writing) ∧
      after.tableStates id = sys.tableStates id := by
  obtain ⟨found, isFound, done⟩ := bind_eq_ok_iff.mp done
  obtain rfl : found = .tlb slot :=
    Option.some.inj ((dereference_eq_ok.mp isFound).symm.trans pointer)
  cases done
  refine ⟨?_, rfl⟩
  ext1 other
  by_cases same : other = slot
  · subst same
    simp [tlbStates]
  · simp [tlbStates, same]

theorem chooseTLB_states (machine : Machine) :
    ∃ tlb, machine.chooseTLB.2 = { machine with tlb := tlb } ∧
      ∀ slot, (tlb slot).pageState = (machine.tlb slot).pageState := by
  unfold Machine.chooseTLB
  split
  next => exact ⟨machine.tlb, rfl, fun slot => rfl⟩
  next => exact ⟨_, rfl, fun slot => rfl⟩

theorem updateTLB_states {page : PageState}
    (pointer : sys.machine.entry = some (.page id frame))
    (isPage : (sys.tableStates id)[frame]? = some page) (done : sys.updateTLB = .ok after) :
    ∃ slot, sys.machine.chooseTLB.1 = Fin.val slot ∧
      after.tlbStates = Function.update sys.tlbStates slot page ∧
      after.tableStates id = sys.tableStates id := by
  obtain ⟨tlb, machine, same⟩ := chooseTLB_states sys.machine
  unfold updateTLB at done
  simp only [machine] at done
  obtain ⟨entry, isEntry, done⟩ := bind_eq_ok_iff.mp done
  split at done
  next inside =>
    cases done
    have isState : entry.pageState = page := by
      unfold currentEntry at isEntry
      simp only [pointer, dereference, ok_bind] at isEntry
      obtain ⟨table, isTable, isEntry⟩ := bind_eq_ok_iff.mp isEntry
      rw [tableStates_of_table (dereference_eq_ok.mp isTable), List.getElem?_map,
        dereference_eq_ok.mp isEntry] at isPage
      exact Option.some.inj isPage
    refine ⟨⟨_, inside⟩, rfl, ?_, rfl⟩
    ext1 other
    by_cases chosen : other = ⟨_, inside⟩
    · subst chosen
      simp only [tlbStates, Function.update_self]
      exact isState
    · simp only [tlbStates, Function.update_of_ne chosen]
      exact same other
  next => cases done

end Entries

section Accesses

/-- How an access of address space `id` leaves the states of the slots and of its page
table. -/
inductive Marking (sys : UserSystem) (id vpn : Nat) (writing : Bool) :
    (Fin tlbSize → PageState) → List PageState → Prop where
  | hit {slot : Fin tlbSize} (found : sys.view.findTLB vpn = some slot) :
      Marking sys id vpn writing
        (Function.update sys.tlbStates slot ((sys.tlbStates slot).mark writing))
        (sys.tableStates id)
  | load {slot : Fin tlbSize} {page : PageState} (missed : sys.view.findTLB vpn = none)
      (present : sys.view.present vpn = true) (chosen : sys.machine.chooseTLB.1 = slot.val)
      (isPage : (sys.tableStates id)[vpn]? = some page) :
      Marking sys id vpn writing
        (Function.update sys.tlbStates slot (page.mark writing))
        ((sys.tableStates id).set vpn (page.mark writing))
  | fault {slot : Fin tlbSize} {frame : Nat} (missed : sys.view.findTLB vpn = none)
      (absent : sys.view.present vpn = false) (chosen : sys.machine.chooseTLB.1 = slot.val)
      (selected : sys.replacementFrame = .ok frame)
      (inside : frame < (sys.tableStates id).length) :
      Marking sys id vpn writing
        (Function.update sys.tlbStates slot ((PageState.faulted vpn).mark writing))
        ((sys.tableStates id).set frame ((PageState.faulted vpn).mark writing))

theorem translate_marking {size : Nat} {addr : CInt} {writing : Bool}
    {physicalAddress : Int} (formed : sys.view.WellFormed)
    (running : sys.current = some id)
    (done : sys.translate addr size writing = .ok (.ok physicalAddress, after)) :
    Marking sys id (addr.toNat / pageSize) writing after.tlbStates
      (after.tableStates id) := by
  unfold translate at done
  split at done
  next => cases done
  obtain ⟨⟨tlbMiss, found⟩, finding, done⟩ := bind_eq_ok_iff.mp done
  obtain ⟨entry, touched, -, touching, updating, -⟩ := useEntry_eq_ok done
  unfold findEntry at finding
  split at finding
  next slot isSlot =>
    cases finding
    cases updating
    obtain ⟨tlb, table⟩ := modifyEntry_tlb_states (by rfl) touching
    rw [tlb, table]
    exact Marking.hit isSlot
  next missed =>
    obtain ⟨handled, handling, finding⟩ := bind_eq_ok_iff.mp finding
    simp only [pure, Except.pure, Except.ok.injEq, Prod.mk.injEq] at finding
    obtain ⟨rfl, rfl⟩ := finding
    obtain ⟨frame, machine, ended⟩ :=
      translatePTE_tableStates (by exact formed) (by exact running) handling
    have pointer : handled.machine.entry = some (.page id frame) := by rw [machine]
    obtain ⟨page, isPage, marked⟩ := modifyEntry_page_states pointer touching
    obtain ⟨touchedMachine, -⟩ :=
      modifyEntry_page_eq_ok pointer (mapping_markUsed writing) touching
    obtain ⟨inside, -⟩ := List.getElem?_eq_some_iff.mp isPage
    have isMarked : (touched.tableStates id)[frame]? = some (page.mark writing) := by
      rw [marked, List.getElem?_set_self inside]
    obtain ⟨slot, chosen, tlb, table⟩ :=
      updateTLB_states (by rw [touchedMachine, pointer]) isMarked updating
    have slotChosen : sys.machine.chooseTLB.1 = slot.val := by
      rw [← chosen, touchedMachine, machine]
      exact chooseTLB_congr rfl
    have sameSlots : touched.tlbStates = sys.tlbStates := by
      ext1 other
      simp only [tlbStates, touchedMachine, machine]
      rfl
    rw [tlb, table, marked, sameSlots]
    rcases ended with ⟨present, rfl, states⟩ | ⟨absent, selected, states⟩
    · rw [states] at isPage ⊢
      exact Marking.load missed present slotChosen isPage
    · rw [states] at isPage inside ⊢
      rw [List.length_set] at inside
      obtain rfl : PageState.faulted (addr.toNat / pageSize) = page := by
        rw [List.getElem?_set_self inside] at isPage
        exact Option.some.inj isPage
      rw [List.set_set]
      refine Marking.fault missed absent slotChosen ?_ inside
      rw [← selected]
      exact replacementFrame_congr rfl rfl rfl

end Accesses

end UserSystem

end Nachos
