import Nachos.FrameOwnership
import Nachos.MachineMemory

/-!
# Isolation of address spaces

Two address spaces whose page tables share no frame do not see each other's writes,
as long as each of them reaches the frames of its own page table.  The translation
buffer is not emptied on a switch, so an access may instead reach a frame of the
address space that ran before.
-/

namespace Nachos

open LittleEndianWords ByteStore TransitionRuns

namespace UserSystem

/-- The value that address space `id` reads when its thread is dispatched now. -/
def readBy (sys : UserSystem) (id : Nat) (addr : CInt) (size : Nat) :
    Except Fault (Option CInt) := do
  let sys ← sys.dispatch (some id)
  let (value, _) ← sys.readMem addr size
  return value

/-- An access of address space `id` finds the frame of its own page table: the slot
of the translation buffer that it hits agrees with the page table, or it misses and
the page is present. -/
def ReachesOwn (sys : UserSystem) (id : Nat) (addr : CInt) : Prop :=
  ((sys.view.tableOf id)[addr.toNat / pageSize]?.any fun mapping =>
    match sys.view.findTLB (addr.toNat / pageSize) with
    | some slot => mapping.physicalPage = (sys.view.tlb slot).physicalPage
    | none => mapping.valid && mapping.virtualPage = addr.toNat / pageSize) = true

instance (sys : UserSystem) (id : Nat) (addr : CInt) :
    Decidable (sys.ReachesOwn id addr) :=
  inferInstanceAs (Decidable (_ = _))

/-- The address of a byte in a frame. -/
def frameAddress (mapping : Mapping) (addr : CInt) : Int :=
  mapping.physicalPage * pageSize + (addr.toNat % pageSize : Nat)

/-- A read of the swap file does not go beyond its end. -/
def ReadsInside (sys : UserSystem) (id : Nat) (addr : CInt) (size : Nat) : Prop :=
  ∀ mapping ∈ (sys.view.tableOf id)[addr.toNat / pageSize]?,
    sys.machine.InsideSwap (frameAddress mapping addr) size

instance (sys : UserSystem) (id : Nat) (addr : CInt) (size : Nat) :
    Decidable (sys.ReadsInside id addr size) :=
  inferInstanceAs (Decidable (∀ _ ∈ _, _))

end UserSystem

section Completion

/-- The loop of `SwitchOutTLB` ends at one of the indices. -/
theorem leastIndex_lt {count : Nat} (positive : 0 < count) (key : Nat → Nat) :
    leastIndex count key < count := by
  have inside : ∀ (indices : List Nat) (least : Nat), least < count →
      (∀ index ∈ indices, index < count) →
        indices.foldl (fun min i => if key i < key min then i else min) least < count := by
    intro indices
    induction indices with
    | nil => exact fun least bound _ => bound
    | cons index indices ih =>
        intro least bound bounds
        rw [List.foldl_cons]
        apply ih
        · split
          next => exact bounds index (by simp)
          next => exact bound
        · exact fun other member => bounds other (by simp [member])
  exact inside _ 0 positive fun index member => List.mem_range.mp member

theorem switchOutTLB_lt (machine : Machine) : machine.switchOutTLB < tlbSize := by
  unfold Machine.switchOutTLB
  generalize (fun i => if inside : i < tlbSize then
    (machine.tlb ⟨i, inside⟩).nruN else 0) = key
  have positive : 0 < tlbSize := by decide
  exact leastIndex_lt positive key

theorem chooseTLB_lt (machine : Machine) : machine.chooseTLB.1 < tlbSize := by
  unfold Machine.chooseTLB
  split
  next slot _ => exact slot.isLt
  next =>
    dsimp only
    exact switchOutTLB_lt machine.sortTLB

end Completion

namespace UserSystem

variable {sys : UserSystem} {id vpn : Nat} {table : List TranslationEntry}
  {entry : TranslationEntry}

theorem currentEntry_page (pointer : sys.machine.entry = some (.page id vpn))
    (isTable : sys.tables id = some table) (isEntry : table[vpn]? = some entry) :
    sys.currentEntry = .ok entry := by
  simp [currentEntry, pointer, dereference, isTable, isEntry]

theorem updateTLB_completes (pointer : sys.machine.entry = some (.page id vpn))
    (isTable : sys.tables id = some table) (isEntry : table[vpn]? = some entry) :
    ∃ after, sys.updateTLB = .ok after := by
  obtain ⟨tlb, machine, -⟩ := chooseTLB_eq sys.machine
  have inside := chooseTLB_lt sys.machine
  have found := @currentEntry_page
    { sys with machine := { sys.machine with tlb := tlb } } id vpn table entry pointer
      isTable isEntry
  simp only [updateTLB, machine, found, ok_bind, inside, dif_pos]
  exact ⟨_, rfl⟩

/-- When the page is in the page table, the entry can be used. -/
theorem useEntry_completes {tlbMiss : Bool}
    (pointer : sys.machine.entry = some (.page id vpn))
    (isTable : sys.tables id = some table) (isEntry : table[vpn]? = some entry) :
    ∃ physicalAddress after,
      sys.useEntry tlbMiss false = .ok (.ok physicalAddress, after) := by
  obtain ⟨inside, -⟩ := List.getElem?_eq_some_iff.mp isEntry
  have found := currentEntry_page pointer isTable isEntry
  have modified : sys.modifyEntry (TranslationEntry.markUsed false) =
      .ok (sys.setTable id (table.set vpn (entry.markUsed false))) := by
    simp [modifyEntry, pointer, dereference, isTable, isEntry, pure, Except.pure]
  obtain ⟨updated, updating⟩ : ∃ updated, (sys.setTable id
      (table.set vpn (entry.markUsed false))).updateOnMiss tlbMiss = .ok updated := by
    cases tlbMiss with
    | false => exact ⟨_, rfl⟩
    | true =>
        exact updateTLB_completes pointer (Function.update_self ..)
          (List.getElem?_set_self inside)
  simp only [useEntry, found, ok_bind, Bool.and_false, Bool.false_eq_true, if_false,
    modified, updating]
  exact ⟨_, _, rfl⟩

theorem translatePTE_completes {size : Nat}
    (isPageTable : sys.machine.pageTable = some id)
    (isSize : sys.machine.pageTableSize = size) (inside : sys.machine.vpn < size)
    (isTable : sys.tables id = some table)
    (isEntry : table[sys.machine.vpn]? = some entry)
    (page : entry.virtualPage = sys.machine.vpn) (valid : entry.valid = true) :
    ∃ after, sys.translatePTE = .ok after ∧ after.tables = sys.tables ∧
      after.machine.entry = some (.page id sys.machine.vpn) := by
  have bound : ¬ sys.machine.pageTableSize ≤ sys.machine.vpn := by omega
  let framed : UserSystem := { sys with
    machine := { sys.machine with pageTableFrame := sys.machine.vpn } }
  have found : framed.machineTable = .ok (id, table) := by
    rw [machineTable, show framed.machine.pageTable = some id from isPageTable]
    exact pageTableAt_some isTable
  have missing : framed.missingPTE = .ok false := by
    simp only [missingPTE]
    rw [if_neg bound, found]
    simp [framed, dereference, isEntry, page, valid, pure, Except.pure]
  have raised : framed.raiseIfMissing = .ok framed := by
    rw [raiseIfMissing, missing]
    rfl
  refine ⟨{ sys with
    machine := { sys.machine with
      pageTableFrame := sys.machine.vpn
      entry := some (.page id sys.machine.vpn) } }, ?_, rfl, rfl⟩
  change (framed.raiseIfMissing >>= _) = _
  rw [raised, ok_bind]
  rw [if_neg bound, found]
  simp [framed, dereference, isEntry, valid]

/-- An access that reaches its own page table completes its translation. -/
theorem translate_completes {addr : CInt} {size : Nat} (formed : sys.view.WellFormed)
    (running : sys.current = some id) (own : sys.ReachesOwn id addr)
    (aligned : misaligned addr size = false) :
    ∃ physicalAddress after,
      sys.translate addr size false = .ok (.ok physicalAddress, after) := by
  obtain ⟨space, isSpace, isPageTable, isSize⟩ := formed.running running
  obtain ⟨isOwn, mappings, isMappings, length⟩ := formed.space isSpace
  simp only [translate, aligned, Bool.false_eq_true, if_false]
  cases found : sys.view.findTLB (addr.toNat / pageSize) with
  | some slot =>
      have hit : (sys.setPage addr).machine.findTLB (sys.setPage addr).machine.vpn =
          some slot := found
      simp [findEntry, hit, useEntry, currentEntry, dereference, modifyEntry,
        updateOnMiss, pure, Except.pure]
  | none =>
      have hit : (sys.setPage addr).machine.findTLB (sys.setPage addr).machine.vpn =
          none := found
      simp only [ReachesOwn, found, sys.view.tableOf_eq isSpace isOwn isMappings,
        Option.any_eq_true, Bool.and_eq_true, decide_eq_true_eq] at own
      obtain ⟨mapping, isMapping, valid, page⟩ := own
      obtain ⟨table, isTable, rfl⟩ := Option.map_eq_some_iff.mp isMappings
      rw [List.getElem?_map, Option.map_eq_some_iff] at isMapping
      obtain ⟨entry, isEntry, rfl⟩ := isMapping
      obtain ⟨inside, -⟩ := List.getElem?_eq_some_iff.mp isEntry
      rw [List.length_map] at length
      obtain ⟨handled, handling, tables, pointer⟩ :=
        @translatePTE_completes (sys.setPage addr) id table entry space.numPages isPageTable
          isSize (length ▸ inside) isTable isEntry page valid
      have finding : (sys.setPage addr).findEntry = .ok (true, handled) := by
        simp [findEntry, hit, exceptionHandler, handling, pure, Except.pure]
      rw [finding, ok_bind]
      exact useEntry_completes pointer (tables ▸ isTable) isEntry

theorem present_of_reachesOwn {addr : CInt} (formed : sys.view.WellFormed)
    (running : sys.current = some id) (own : sys.ReachesOwn id addr)
    (missed : sys.view.findTLB (addr.toNat / pageSize) = none) :
    sys.view.present (addr.toNat / pageSize) = true := by
  obtain ⟨space, isSpace, isPageTable, isSize⟩ := formed.running running
  obtain ⟨isOwn, table, isTable, length⟩ := formed.space isSpace
  simp only [ReachesOwn, Option.any_eq_true, missed, Bool.and_eq_true,
    decide_eq_true_eq] at own
  obtain ⟨mapping, isMapping, valid, page⟩ := own
  rw [formed.tableOf isTable] at isMapping
  obtain ⟨inside, -⟩ := List.getElem?_eq_some_iff.mp isMapping
  have bound : addr.toNat / pageSize < sys.view.pageTableSize := by omega
  simp [TranslationView.present, isPageTable, isTable, isMapping, valid, page, bound]

/-- An access that reaches its own page table uses the frame that the table says. -/
theorem Lookup.own_frame {addr : CInt} {used : Mapping} {view : TranslationView}
    (formed : sys.view.WellFormed) (running : sys.current = some id)
    (own : sys.ReachesOwn id addr)
    (found : sys.Lookup id (addr.toNat / pageSize) used view) :
    ∃ mapping, (sys.view.tableOf id)[addr.toNat / pageSize]? = some mapping ∧
      used.physicalPage = mapping.physicalPage ∧
      view.tables = sys.view.tables ∧ view.spaces = sys.view.spaces := by
  have isPresent := present_of_reachesOwn formed running own
  simp only [ReachesOwn, Option.any_eq_true] at own
  obtain ⟨mapping, isMapping, agrees⟩ := own
  refine ⟨mapping, isMapping, ?_⟩
  cases found with
  | hit found =>
      simp only [found, decide_eq_true_eq] at agrees
      exact ⟨agrees.symm, rfl, rfl⟩
  | load missed present chosen isLoaded isUsed =>
      rw [formed.tableOf isLoaded] at isMapping
      obtain rfl := Option.some.inj (isUsed.symm.trans isMapping)
      exact ⟨rfl, rfl, rfl⟩
  | fault missed absent =>
      rw [isPresent missed] at absent
      cases absent

theorem readMem_of_misaligned {addr : CInt} {size : Nat}
    (misalign : misaligned addr size = true) :
    sys.readMem addr size = .error .assertion := by
  simp [readMem, translateOrRaise, translate, misalign, exceptionHandler]

/-- What a read returns that reaches its own page table. -/
def ownValue (machine : Machine) (mapping : Mapping) (addr : CInt) (size : Nat) :
    Except Fault (Option CInt) :=
  if misaligned addr size then .error .assertion
  else do
    checkSize size
    let data ← (machine.fetch (wrapInt (frameAddress mapping addr)) size).map Prod.fst
    return some (Machine.loadedValue data)

theorem readMem_eq {addr : CInt} {size : Nat} (formed : sys.view.WellFormed)
    (running : sys.current = some id) (own : sys.ReachesOwn id addr) :
    ∃ mapping, (sys.view.tableOf id)[addr.toNat / pageSize]? = some mapping ∧
      (sys.readMem addr size).map Prod.fst = ownValue sys.machine mapping addr size := by
  obtain ⟨mapping, isMapping, -⟩ := (Option.any_eq_true ..).mp own
  refine ⟨mapping, isMapping, ?_⟩
  cases aligned : misaligned addr size with
  | true =>
      rw [readMem_of_misaligned aligned, ownValue, if_pos aligned]
      rfl
  | false =>
      obtain ⟨physicalAddress, after, translating⟩ :=
        translate_completes formed running own aligned
      obtain ⟨-, used, found, storage, rfl⟩ :=
        translate_eq_ok formed running translating
      obtain ⟨other, isOther, frame, -⟩ := found.own_frame formed running own
      obtain rfl := Option.some.inj (isMapping.symm.trans isOther)
      have same := Machine.fetch_congr storage
        (wrapInt (frameAddress mapping addr)) size
      rw [frame] at translating
      rw [frameAddress] at same
      simp only [readMem, translateOrRaise, translating, ok_bind, pure, Except.pure,
        ownValue, aligned, Bool.false_eq_true, if_false, ← same, frameAddress]
      cases checkSize size with
      | error fault => rfl
      | ok checked =>
          simp only [ok_bind]
          cases after.machine.fetch (wrapInt (mapping.physicalPage * pageSize +
            (addr.toNat % pageSize : Nat))) size <;> rfl

/-- A read of another thread's program is decided by the frame that the page table
of its address space names. -/
theorem readBy_eq {space : AddrSpace} {addr : CInt} {size : Nat}
    (formed : sys.view.WellFormed) (isSpace : sys.spaces id = some space)
    (own : sys.ReachesOwn id addr) :
    ∃ mapping, (sys.view.tableOf id)[addr.toNat / pageSize]? = some mapping ∧
      sys.readBy id addr size = ownValue sys.machine mapping addr size := by
  let dispatched : UserSystem := { sys with
    machine := { sys.machine with
      pageTable := space.pageTable
      pageTableSize := space.numPages }
    current := some id }
  have dispatching : sys.dispatch (some id) = .ok dispatched := by
    simp only [dispatch, saveCurrent_eq formed, ok_bind, restoreCurrent, restoreState,
      isSpace, dereference, pure, Except.pure]
    rfl
  have newFormed : dispatched.view.WellFormed := formed.activate isSpace
  obtain ⟨mapping, isMapping, read⟩ := @readMem_eq dispatched id addr size newFormed rfl own
  refine ⟨mapping, isMapping, ?_⟩
  have same := Machine.fetch_congr
    (show dispatched.machine.storage = sys.machine.storage from rfl)
      (wrapInt (frameAddress mapping addr)) size
  rw [readBy, dispatching, ok_bind]
  simp only [ownValue, ← same] at read ⊢
  rw [← read]
  cases dispatched.readMem addr size <;> rfl

/-- An aligned access stays inside its page. -/
theorem inside_page {addr : CInt} {size : Nat} (aligned : misaligned addr size = false)
    (checked : checkSize size = .ok ()) : addr.toNat % pageSize + size ≤ pageSize := by
  unfold checkSize at checked
  split at checked
  next sizes =>
    have page : pageSize = 128 := rfl
    rw [page]
    rcases sizes with rfl | rfl | rfl
    · omega
    · simp [misaligned] at aligned
      omega
    · simp [misaligned] at aligned
      omega
  next => cases checked

/-- The frame of a mapping is on the bitmap. -/
theorem frame_bounds (formed : sys.view.WellFormed) (owned : sys.FrameOwnership)
    {mapping : Mapping} {index : Nat}
    (isMapping : (sys.view.tableOf id)[index]? = some mapping) :
    mapping.physicalPage ∈ frames (sys.view.tableOf id) ∧
      0 ≤ mapping.physicalPage ∧ mapping.physicalPage < memorySize := by
  have member := List.mem_of_getElem? isMapping
  have valid : mapping.valid = true := by
    cases isTable : sys.view.tables id with
    | none => simp [formed.tableOf_of_none isTable] at member
    | some table =>
        rw [formed.tableOf isTable] at member
        exact (formed.valid isTable mapping member).1
  have held : mapping.physicalPage ∈ frames (sys.view.tableOf id) :=
    List.mem_map.mpr ⟨mapping, List.mem_filter.mpr ⟨member, valid⟩, rfl⟩
  obtain ⟨bit, isBit, -⟩ := exists_of_isMarked (owned.ledger.marked_of_held held)
  have bound := bit.isLt
  exact ⟨held, by omega, by omega⟩

theorem wrapInt_frameAddress {mapping : Mapping} (lower : 0 ≤ mapping.physicalPage)
    (upper : mapping.physicalPage < memorySize) (addr : CInt) :
    wrapInt (frameAddress mapping addr) = frameAddress mapping addr := by
  have page : pageSize = 128 := rfl
  have memory : memorySize = 4096 := rfl
  have offset := Nat.mod_lt addr.toNat (show 0 < pageSize by decide)
  apply Machine.wrapInt_of_small <;> simp only [frameAddress, page] at offset ⊢ <;> omega

/-- Accesses to different frames touch different addresses, which are not far
apart. -/
theorem frames_disjoint {first second : Mapping} {firstAddr secondAddr : CInt}
    {firstSize secondSize : Nat} (apart : first.physicalPage ≠ second.physicalPage)
    (firstRoom : firstAddr.toNat % pageSize + firstSize ≤ pageSize)
    (secondRoom : secondAddr.toNat % pageSize + secondSize ≤ pageSize) :
    frameAddress first firstAddr + firstSize ≤ frameAddress second secondAddr ∨
      frameAddress second secondAddr + secondSize ≤ frameAddress first firstAddr := by
  have page : pageSize = 128 := rfl
  simp only [frameAddress, page] at firstRoom secondRoom ⊢
  omega

theorem frames_near {first second : Mapping} {firstAddr secondAddr : CInt}
    (lower : 0 ≤ first.physicalPage) (upper : first.physicalPage < memorySize)
    (secondLower : 0 ≤ second.physicalPage)
    (secondUpper : second.physicalPage < memorySize) :
    frameAddress second secondAddr - frameAddress first firstAddr < 2 ^ 30 := by
  have page : pageSize = 128 := rfl
  have memory : memorySize = 4096 := rfl
  simp only [frameAddress, page, memory] at upper secondUpper ⊢
  omega

/-- The steps that isolate address spaces: programs find enough free frames, no page
fault is handled, and each access reaches a frame of its own page table. -/
def OwnPages (sys : UserSystem) : Action → Prop
  | .start program => sys.EnoughFrames program
  | .read addr _ => ∀ id ∈ sys.current, sys.ReachesOwn id addr
  | .write addr _ _ => ∀ id ∈ sys.current, sys.ReachesOwn id addr
  | .pageFault _ => False
  | .dispatch _ => True
  | .destroy _ => True

instance (sys : UserSystem) : ∀ action, Decidable (sys.OwnPages action)
  | .start program => inferInstanceAs (Decidable (sys.EnoughFrames program))
  | .read addr _ => inferInstanceAs (Decidable (∀ id ∈ sys.current, sys.ReachesOwn id addr))
  | .write addr _ _ =>
      inferInstanceAs (Decidable (∀ id ∈ sys.current, sys.ReachesOwn id addr))
  | .pageFault _ => inferInstanceAs (Decidable False)
  | .dispatch _ => inferInstanceAs (Decidable True)
  | .destroy _ => inferInstanceAs (Decidable True)

theorem OwnPages.frameSafe {action : Action} {view : TranslationView}
    (formed : sys.view.WellFormed) (moved : sys.Transition action view)
    (own : sys.OwnPages action) : sys.FrameSafe action := by
  cases moved with
  | start => exact own
  | idle => trivial
  | activate => trivial
  | read running found =>
      rintro ⟨missed, absent⟩
      rw [present_of_reachesOwn formed running (own _ running) missed] at absent
      cases absent
  | write running found =>
      rintro ⟨missed, absent⟩
      rw [present_of_reachesOwn formed running (own _ running) missed] at absent
      cases absent
  | pageFault => exact absurd own id
  | destroy => trivial

/-- A read by address space `id` that reaches its own page table, and the bytes that
the swap file has. -/
def OwnRead (sys : UserSystem) (id : Nat) (addr : CInt) (size : Nat) : Prop :=
  sys.ReachesOwn id addr ∧ sys.ReadsInside id addr size

instance (sys : UserSystem) (id : Nat) (addr : CInt) (size : Nat) :
    Decidable (sys.OwnRead id addr size) :=
  inferInstanceAs (Decidable (_ ∧ _))

/-- No write of the running address space changes what another live address space
reads, for writes and reads that reach their own page tables. -/
def Isolated (useSwap : Bool) (sys : UserSystem) : Prop :=
  ∀ (writer reader : Nat) (addr value readAddr : CInt) (size readSize : Nat)
    (after : UserSystem), sys.current = some writer → reader ≠ writer →
    (sys.spaces reader).isSome = true → sys.OwnPages (.write addr size value) →
    step useSwap sys (.write addr size value) = .ok after →
    sys.OwnRead reader readAddr readSize → after.OwnRead reader readAddr readSize →
    after.readBy reader readAddr readSize = sys.readBy reader readAddr readSize

theorem isolated_of_frameOwnership {useSwap : Bool} (formed : sys.view.WellFormed)
    (owned : sys.FrameOwnership) : sys.Isolated useSwap := by
  intro writer reader addr value readAddr size readSize after running different alive
    ownWrite done ownBefore ownAfter
  obtain ⟨space, isSpace⟩ := Option.isSome_iff_exists.mp alive
  have moved := step_transition formed done
  have newFormed := moved.wellFormed formed
  obtain ⟨-, -, done⟩ := bind_eq_ok_iff.mp done
  obtain ⟨⟨written, stored⟩, writing, done⟩ := bind_eq_ok_iff.mp done
  obtain ⟨physicalAddress, translated, machine, translating, checked, storing, -, rfl⟩ :=
    writeMem_eq_ok writing
  cases done
  obtain ⟨aligned, used, found, storage, rfl⟩ := translate_eq_ok formed running translating
  obtain ⟨target, isTarget, frame, sameTables, sameSpaces⟩ :=
    found.own_frame formed running (ownWrite writer running)
  have view := view_of_store storing
  -- The write leaves all page tables as they are.
  have sameTable : ({ translated with machine := machine } : UserSystem).view.tableOf
      reader = sys.view.tableOf reader := by
    rw [view, TranslationView.tableOf, TranslationView.tableOf, sameTables, sameSpaces]
  obtain ⟨mapping, isMapping, before⟩ := readBy_eq formed isSpace ownBefore.1
  obtain ⟨again, isAgain, later⟩ := readBy_eq newFormed
    (show ({ translated with machine := machine } : UserSystem).spaces reader =
      some space by
        have spaces : translated.spaces = sys.spaces := sameSpaces
        rw [← isSpace, ← spaces]) ownAfter.1
  rw [sameTable] at isAgain
  obtain rfl := Option.some.inj (isMapping.symm.trans isAgain)
  obtain ⟨held, lower, upper⟩ := frame_bounds formed owned isMapping
  obtain ⟨targetHeld, targetLower, targetUpper⟩ := frame_bounds formed owned isTarget
  have apart : mapping.physicalPage ≠ target.physicalPage := by
    intro equal
    rw [equal] at held
    exact different (owned.ledger.unique held targetHeld)
  rw [before, later, ownValue, ownValue]
  cases readAligned : misaligned readAddr readSize with
  | true => rfl
  | false =>
      cases readChecked : checkSize readSize with
      | error fault => rfl
      | ok _ =>
          simp only [Bool.false_eq_true, if_false, ok_bind]
          have room := inside_page aligned checked
          have readRoom := inside_page readAligned readChecked
          rw [frame] at storing
          rw [wrapInt_frameAddress lower upper]
          have stays := Machine.fetch_congr storage (frameAddress mapping readAddr) readSize
          have inside := Machine.insideSwap_congr storage
            (ownBefore.2 mapping isMapping)
          have written : wrapInt (target.physicalPage * pageSize +
              (addr.toNat % pageSize : Nat)) = frameAddress target addr :=
            wrapInt_frameAddress targetLower targetUpper addr
          rw [written] at storing
          have near := @frames_near mapping target readAddr addr lower upper targetLower
            targetUpper
          have far := @frames_near target mapping addr readAddr targetLower targetUpper
            lower upper
          rw [← stays, Machine.fetch_store_disjoint storing
            (frames_disjoint apart readRoom room) near (by omega) inside]

/-- In every run whose steps stay with the frames of their own page tables, the
running address space does not change what the others read. -/
theorem isolated_along_run (useSwap : Bool) (memory : BootMemory)
    (actions : List Action)
    (own : RunAllowed (step useSwap) OwnPages (boot memory) actions) :
    AlongRun (step useSwap) (Isolated useSwap) (boot memory) actions := by
  have preserved : ∀ (sys : UserSystem) (action : Action) (after : UserSystem),
      sys.view.WellFormed ∧ sys.FrameOwnership → sys.OwnPages action →
        step useSwap sys action = .ok after →
          after.view.WellFormed ∧ after.FrameOwnership := by
    rintro sys action after ⟨formed, owned⟩ now stepped
    have moved := step_transition formed stepped
    exact ⟨moved.wellFormed formed,
      moved.frameOwnership formed owned (now.frameSafe formed moved)⟩
  have initial := And.intro (wellFormed_boot memory) (frameOwnership_boot memory)
  apply (alongRun_of_invariant preserved initial own).mono
  rintro sys ⟨formed, owned⟩
  exact isolated_of_frameOwnership formed owned

set_option maxRecDepth 4000 in
theorem isolated_along_run_example :
    AlongRun (step false) (Isolated false) (boot .zero)
      [.start .oneInstruction, .dispatch none, .start .oneInstruction, .write 128 4 5,
        .dispatch (some 0), .write 0 4 7] :=
  isolated_along_run false _ _ (by decide +kernel)

set_option maxRecDepth 4000 in
/-- The first program writes 7 to its page 0, and the second one, which has read 0
from its own page 0 before, then reads 7: it hits the entry of the first. -/
theorem write_seen_by_other :
    (do
      let sys ← run (step false) (boot .zero) [.start .oneInstruction, .dispatch none,
        .start .oneInstruction, .dispatch (some 0)]
      let after ← step false sys (.write 0 4 7)
      let before ← sys.readBy 1 0 4
      let later ← after.readBy 1 0 4
      return (sys.current, (sys.spaces 0).map AddrSpace.realNumPages,
        (sys.spaces 1).map AddrSpace.realNumPages, before, later)) =
      .ok (some 0, some 9, some 9, some 0, some 7) := by
  decide +kernel

end UserSystem

end Nachos
