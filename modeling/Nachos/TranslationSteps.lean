import Nachos.TranslationView

/-!
# Steps on the translation state

Each step of the running system makes one of a few transitions on the translation
state.  The transitions keep the translation state well formed.
-/

namespace Nachos

open LittleEndianWords ByteStore TransitionRuns

namespace UserSystem

variable {sys after : UserSystem}

section Processes

/-- The two machines translate addresses alike. -/
structure SameTranslation (first second : Machine) : Prop where
  tlb : second.tlb = first.tlb
  pageTable : second.pageTable = first.pageTable
  pageTableSize : second.pageTableSize = first.pageTableSize

theorem SameTranslation.trans {first second third : Machine}
    (front : SameTranslation first second) (back : SameTranslation second third) :
    SameTranslation first third where
  tlb := back.tlb.trans front.tlb
  pageTable := back.pageTable.trans front.pageTable
  pageTableSize := back.pageTableSize.trans front.pageTableSize

variable {machine loaded : Machine}

theorem sameTranslation_zeroFirst {noffH : NoffHeader} {first : Option Int}
    (done : machine.zeroFirst noffH first = .ok loaded) :
    SameTranslation machine loaded := by
  unfold Machine.zeroFirst Machine.zeroMemory at done
  split at done
  next =>
    split at done
    next =>
      cases done
      exact ⟨rfl, rfl, rfl⟩
    next => cases done
  next =>
    cases done
    exact ⟨rfl, rfl, rfl⟩

theorem sameTranslation_loadSegment {part : Segment}
    (done : machine.loadSegment part = .ok loaded) :
    SameTranslation machine loaded := by
  unfold Machine.loadSegment at done
  split at done
  next =>
    obtain ⟨data, -, done⟩ := bind_eq_ok_iff.mp done
    split at done
    next =>
      cases done
      exact ⟨rfl, rfl, rfl⟩
    next =>
      split at done
      next =>
        cases done
        exact ⟨rfl, rfl, rfl⟩
      next => cases done
  next =>
    cases done
    exact ⟨rfl, rfl, rfl⟩

theorem sameTranslation_setCodeOffset (machine : Machine) (code : Segment) :
    SameTranslation machine (machine.setCodeOffset code) := by
  unfold Machine.setCodeOffset
  split <;> exact ⟨rfl, rfl, rfl⟩

/-- Loading a program leaves the hardware that translates addresses alone. -/
theorem sameTranslation_loadProgram {useSwap : Bool} {program : Program}
    {first : Option Int}
    (done : machine.loadProgram useSwap program first = .ok loaded) :
    SameTranslation machine loaded := by
  obtain ⟨swap, -, done⟩ := bind_eq_ok_iff.mp done
  obtain ⟨copied, -, done⟩ := bind_eq_ok_iff.mp done
  obtain ⟨zeroed, zeroing, done⟩ := bind_eq_ok_iff.mp done
  obtain ⟨read, reading, done⟩ := bind_eq_ok_iff.mp done
  have zeroedSame := sameTranslation_zeroFirst zeroing
  cases done
  have front : SameTranslation machine zeroed :=
    ⟨zeroedSame.tlb, zeroedSame.pageTable, zeroedSame.pageTableSize⟩
  have back : SameTranslation zeroed read := by
    unfold Machine.loadFromSwap at reading
    split at reading
    next =>
      obtain ⟨code, readingCode, reading⟩ := bind_eq_ok_iff.mp reading
      exact (sameTranslation_setCodeOffset zeroed _).trans
        ((sameTranslation_loadSegment readingCode).trans
          (sameTranslation_loadSegment reading))
    next =>
      cases reading
      exact ⟨rfl, rfl, rfl⟩
  have all := front.trans back
  exact ⟨all.tlb, all.pageTable, all.pageTableSize⟩

/-- What a step does to the translation state. -/
inductive Transition (sys : UserSystem) : Action → TranslationView → Prop where
  | start {program : Program} {frames : List Int} {bitmap : BitMap memorySize}
      (found : sys.bitmap.findEach program.header.numPages = (frames, bitmap)) :
      Transition sys (.start program)
        (sys.view.create frames bitmap.testBit program.header.realNumPages)
  | idle : Transition sys (.dispatch none) { sys.view with current := none }
  | activate {id : Nat} {space : AddrSpace} (isSpace : sys.spaces id = some space) :
      Transition sys (.dispatch (some id)) (sys.view.activate id space)
  | read {id size : Nat} {addr : CInt} {mapping : Mapping} {view : TranslationView}
      (running : sys.current = some id)
      (found : Lookup sys id (addr.toNat / pageSize) mapping view) :
      Transition sys (.read addr size) view
  | write {id size : Nat} {addr value : CInt} {mapping : Mapping}
      {view : TranslationView} (running : sys.current = some id)
      (found : Lookup sys id (addr.toNat / pageSize) mapping view) :
      Transition sys (.write addr size value) view
  | pageFault {id vpn frame : Nat} {table : List Mapping} {mapping : Mapping}
      {freed : Fin memorySize} (running : sys.current = some id)
      (isTable : sys.view.tables id = some table)
      (selected : sys.replacementFrame = .ok frame)
      (isMapping : table[frame]? = some mapping)
      (isFreed : mapping.physicalPage = freed.val) (small : vpn < memorySize) :
      Transition sys (.pageFault vpn) (sys.view.replace id table frame vpn freed)
  | destroy {id : Nat} {table : List Mapping} {marked : Fin memorySize → Bool}
      (isTable : sys.view.tables id = some table)
      (cleared : ∀ bit, marked bit = true ↔
        (∀ mapping ∈ table, mapping.physicalPage ≠ (Fin.val bit : Int)) ∧
          sys.view.marked bit = true) :
      Transition sys (.destroy id) (sys.view.remove id id marked)

theorem map_mapIdx_fresh (frames : List Int) :
    (frames.mapIdx TranslationEntry.fresh).map TranslationEntry.mapping =
      frames.mapIdx TranslationView.fresh := by
  apply List.ext_getElem
  · simp
  · intro index first second
    simp only [List.getElem_map, List.getElem_mapIdx]
    rfl

theorem startProcess_transition {useSwap : Bool} {program : Program}
    (done : sys.startProcess useSwap program = .ok after) :
    Transition sys (.start program) after.view := by
  obtain ⟨⟨created, constructed⟩, constructing, done⟩ := bind_eq_ok_iff.mp done
  obtain ⟨space, isSpace, done⟩ := bind_eq_ok_iff.mp done
  have isSpace := dereference_eq_ok.mp isSpace
  cases done
  unfold construct at constructing
  cases finding : sys.bitmap.findEach program.header.numPages with
  | mk frames bitmap =>
  have length : frames.length = program.header.numPages := by
    rw [← BitMap.length_findEach sys.bitmap program.header.numPages, finding]
  simp only [finding] at constructing
  split at constructing
  next => cases constructing
  obtain ⟨machine, loading, constructing⟩ := bind_eq_ok_iff.mp constructing
  have same := sameTranslation_loadProgram loading
  cases constructing
  simp only [Function.update_self, Option.some.injEq] at isSpace
  subst isSpace
  have tables : (fun address => (Function.update sys.tables sys.allocated
      (some (frames.mapIdx TranslationEntry.fresh)) address).map fun table =>
          table.map TranslationEntry.mapping) =
      Function.update sys.view.tables sys.allocated
        (some (frames.mapIdx TranslationView.fresh)) := by
    ext address
    by_cases created : address = sys.allocated
    · subst created
      rw [Function.update_self, Function.update_self, Option.map_some,
        map_mapIdx_fresh]
    · simp [view, created]
  have result := Transition.start finding
  simp only [TranslationView.create, length] at result
  simp only [view, same.tlb, tables]
  exact result

/-- Saving the state of the running address space changes nothing. -/
theorem saveCurrent_eq (formed : sys.view.WellFormed) : sys.saveCurrent = .ok sys := by
  unfold saveCurrent
  split
  next id isCurrent =>
    obtain ⟨space, isSpace, isPageTable, -⟩ := formed.running isCurrent
    have found : sys.spaces id = some space := isSpace
    have samePointer : sys.machine.pageTable = space.pageTable :=
      isPageTable.trans (formed.space isSpace).1.symm
    have sameSpaces : Function.update sys.spaces id (some space) = sys.spaces := by
      rw [← found, Function.update_eq_self]
    simp only [saveState, found, dereference, ok_bind, samePointer, pure, Except.pure]
    rw [sameSpaces]
  next => rfl

theorem dispatch_transition {next : Option Nat} (formed : sys.view.WellFormed)
    (done : sys.dispatch next = .ok after) :
    Transition sys (.dispatch next) after.view := by
  obtain ⟨saved, saving, restoring⟩ := bind_eq_ok_iff.mp done
  obtain rfl := Except.ok.inj ((saveCurrent_eq formed).symm.trans saving)
  cases next with
  | none =>
      cases restoring
      exact Transition.idle
  | some id =>
      obtain ⟨space, isSpace, restoring⟩ := bind_eq_ok_iff.mp restoring
      cases restoring
      exact Transition.activate (dereference_eq_ok.mp isSpace)

/-- The bits that are set after the frames of a page table were cleared. -/
theorem clearFrames_eq_ok {bitmap cleared : BitMap memorySize}
    {table : List TranslationEntry} (done : clearFrames bitmap table = .ok cleared)
    (bit : Fin memorySize) :
    cleared.testBit bit = true ↔
      (∀ entry ∈ table, entry.physicalPage ≠ (bit.val : Int)) ∧
        bitmap.testBit bit = true := by
  induction table generalizing bitmap with
  | nil =>
      cases done
      simp
  | cons entry table ih =>
      obtain ⟨first, clearing, done⟩ := bind_eq_ok_iff.mp done
      obtain ⟨freed, isFreed, rfl⟩ := clear_eq_ok clearing
      rw [ih done, BitMap.testBit_clearBit, List.forall_mem_cons, isFreed]
      have numbers : bit ≠ freed ↔ (freed.val : Int) ≠ bit.val := by
        rw [ne_eq, ne_eq, Fin.ext_iff]
        omega
      simp only [Bool.and_eq_true, decide_eq_true_eq, numbers]
      constructor
      · rintro ⟨others, own, set⟩
        exact ⟨⟨own, others⟩, set⟩
      · rintro ⟨⟨own, others⟩, set⟩
        exact ⟨others, own, set⟩

theorem destroy_transition {id : Nat} (formed : sys.view.WellFormed)
    (done : sys.destroy id = .ok after) : Transition sys (.destroy id) after.view := by
  obtain ⟨space, isSpace, done⟩ := bind_eq_ok_iff.mp done
  obtain ⟨⟨address, table⟩, found, done⟩ := bind_eq_ok_iff.mp done
  obtain ⟨isAddress, isTable⟩ := pageTableAt_eq_ok found
  simp only at done
  split at done
  next => cases done
  obtain ⟨bitmap, clearing, done⟩ := bind_eq_ok_iff.mp done
  obtain ⟨own, mappings, isMappings, length⟩ :=
    formed.space (dereference_eq_ok.mp isSpace)
  obtain rfl : id = address := Option.some.inj (own.symm.trans isAddress)
  obtain rfl : table.map TranslationEntry.mapping = mappings := by
    simpa [view, isTable] using isMappings
  have whole : table.take space.numPages = table := by
    rw [List.length_map] at length
    rw [← length, List.take_length]
  rw [whole] at clearing
  have tables : (fun other => (Function.update sys.tables id none other).map
      fun table => table.map TranslationEntry.mapping) =
        Function.update sys.view.tables id none := by
    ext other
    by_cases same : other = id
    · subst same
      simp
    · simp [view, same]
  cases done
  have result := @Transition.destroy sys id _ bitmap.testBit isMappings fun bit => by
    rw [clearFrames_eq_ok clearing, List.forall_mem_map]
    rfl
  simp only [view, tables]
  exact result

/-- Every completed step makes one of the transitions. -/
theorem step_transition {useSwap : Bool} {action : Action}
    (formed : sys.view.WellFormed) (done : step useSwap sys action = .ok after) :
    Transition sys action after.view := by
  cases action with
  | start program => exact startProcess_transition done
  | dispatch next => exact dispatch_transition formed done
  | destroy id => exact destroy_transition formed done
  | read addr size =>
      obtain ⟨id, isCurrent, done⟩ := bind_eq_ok_iff.mp done
      obtain ⟨⟨result, read⟩, reading, done⟩ := bind_eq_ok_iff.mp done
      obtain ⟨physicalAddress, translated, data, machine, translating, -, fetched, -,
        rfl⟩ := readMem_eq_ok reading
      have isCurrent := dereference_eq_ok.mp isCurrent
      obtain ⟨-, mapping, found, -⟩ := translate_eq_ok formed isCurrent translating
      cases done
      rw [view_of_fetch fetched]
      exact Transition.read isCurrent found
  | write addr size value =>
      obtain ⟨id, isCurrent, done⟩ := bind_eq_ok_iff.mp done
      obtain ⟨⟨result, written⟩, writing, done⟩ := bind_eq_ok_iff.mp done
      obtain ⟨physicalAddress, translated, machine, translating, -, stored, -, rfl⟩ :=
        writeMem_eq_ok writing
      have isCurrent := dereference_eq_ok.mp isCurrent
      obtain ⟨-, mapping, found, -⟩ := translate_eq_ok formed isCurrent translating
      cases done
      rw [view_of_store stored]
      exact Transition.write isCurrent found
  | pageFault vpn =>
      obtain ⟨id, space, address, table, frame, mapping, freed, isCurrent, isSpace,
        isAddress, isTable, selected, isMapping, isFreed, small, -, changed⟩ :=
        updatePageTable_eq_ok done
      obtain rfl : id = address :=
        Option.some.inj ((formed.space isSpace).1.symm.trans isAddress)
      rw [changed]
      exact Transition.pageFault isCurrent isTable
        ((@replacementFrame_congr sys
          { sys with machine := { sys.machine with vpn := vpn } } rfl rfl rfl).symm.trans
            selected) isMapping isFreed small

end Processes

end UserSystem

namespace TranslationView

variable {view : TranslationView}

theorem WellFormed.fill (formed : view.WellFormed) (slot : Fin tlbSize)
    (mapping : Mapping) : (view.fill slot mapping).WellFormed :=
  ⟨formed.space, formed.live, formed.allocated, formed.running, formed.valid⟩

/-- Replacing one mapping of a page table by a valid one keeps the tables. -/
theorem WellFormed.replace (formed : view.WellFormed) {id : Nat} {table : List Mapping}
    (isTable : view.tables id = some table) (frame vpn : Nat)
    (freed : Fin memorySize) : (view.replace id table frame vpn freed).WellFormed where
  space {other space} isSpace := by
    obtain ⟨own, otherTable, isOther, length⟩ := formed.space isSpace
    refine ⟨own, ?_⟩
    by_cases same : other = id
    · subst same
      obtain rfl := Option.some.inj (isTable.symm.trans isOther)
      exact ⟨_, Function.update_self .., by rw [List.length_set, length]⟩
    · exact ⟨otherTable, by simp [TranslationView.replace, same, isOther], length⟩
  live {other otherTable} isOther := by
    by_cases same : other = id
    · subst same
      exact formed.live isTable
    · exact formed.live (by simpa [TranslationView.replace, same] using isOther)
  allocated := formed.allocated
  running := formed.running
  valid {other otherTable} isOther mapping member := by
    by_cases same : other = id
    · subst same
      simp only [TranslationView.replace, Function.update_self,
        Option.some.injEq] at isOther
      subst isOther
      rcases List.mem_or_eq_of_mem_set member with old | new
      · exact formed.valid isTable mapping old
      · simp [new, faulted]
    · exact formed.valid (by simpa [TranslationView.replace, same] using isOther)
        mapping member

theorem WellFormed.create (formed : view.WellFormed) (frames : List Int)
    (marked : Fin memorySize → Bool) (realNumPages : Nat) :
    (view.create frames marked realNumPages).WellFormed where
  space {id space} isSpace := by
    by_cases same : id = view.allocated
    · subst same
      simp only [TranslationView.create, Function.update_self,
        Option.some.injEq] at isSpace
      subst isSpace
      exact ⟨rfl, _, Function.update_self .., by simp⟩
    · simp only [TranslationView.create, Function.update_of_ne same] at isSpace ⊢
      exact formed.space isSpace
  live {id table} isTable := by
    by_cases same : id = view.allocated
    · subst same
      exact ⟨_, Function.update_self ..⟩
    · simp only [TranslationView.create, Function.update_of_ne same] at isTable ⊢
      exact formed.live isTable
  allocated {id space} isSpace := by
    by_cases same : id = view.allocated
    · simp [same, TranslationView.create]
    · simp only [TranslationView.create, Function.update_of_ne same] at isSpace ⊢
      exact Nat.lt_succ_of_lt (formed.allocated isSpace)
  running {id} isCurrent := by
    obtain rfl : view.allocated = id := Option.some.inj isCurrent
    exact ⟨_, Function.update_self .., rfl, rfl⟩
  valid {id table} isTable mapping member := by
    by_cases same : id = view.allocated
    · subst same
      simp only [TranslationView.create, Function.update_self,
        Option.some.injEq] at isTable
      subst isTable
      obtain ⟨index, inside, rfl⟩ := List.mem_mapIdx.mp member
      exact ⟨rfl, rfl⟩
    · simp only [TranslationView.create, Function.update_of_ne same] at isTable
      exact formed.valid isTable mapping member

theorem WellFormed.activate (formed : view.WellFormed) {id : Nat} {space : AddrSpace}
    (isSpace : view.spaces id = some space) : (view.activate id space).WellFormed :=
  ⟨formed.space, formed.live, formed.allocated, fun {other} isCurrent => by
    obtain rfl : id = other := Option.some.inj isCurrent
    exact ⟨space, isSpace, (formed.space isSpace).1, rfl⟩, formed.valid⟩

theorem WellFormed.idle (formed : view.WellFormed) :
    ({ view with current := none } : TranslationView).WellFormed where
  space := formed.space
  live := formed.live
  allocated := formed.allocated
  running isCurrent := nomatch isCurrent
  valid := formed.valid

theorem WellFormed.remove (formed : view.WellFormed) (id : Nat)
    (marked : Fin memorySize → Bool) : (view.remove id id marked).WellFormed where
  space {other space} isSpace := by
    by_cases same : other = id
    · simp [TranslationView.remove, same] at isSpace
    · simp only [TranslationView.remove, Function.update_of_ne same] at isSpace ⊢
      exact formed.space isSpace
  live {other table} isTable := by
    by_cases same : other = id
    · simp [TranslationView.remove, same] at isTable
    · simp only [TranslationView.remove, Function.update_of_ne same] at isTable ⊢
      exact formed.live isTable
  allocated {other space} isSpace := by
    by_cases same : other = id
    · simp [TranslationView.remove, same] at isSpace
    · simp only [TranslationView.remove, Function.update_of_ne same] at isSpace ⊢
      exact formed.allocated isSpace
  running {other} isCurrent := by
    simp only [TranslationView.remove] at isCurrent ⊢
    split at isCurrent
    next => cases isCurrent
    next stays =>
      have different : other ≠ id := by
        rintro rfl
        exact stays isCurrent
      rw [Function.update_of_ne different]
      exact formed.running isCurrent
  valid {other table} isTable mapping member := by
    by_cases same : other = id
    · simp [TranslationView.remove, same] at isTable
    · simp only [TranslationView.remove, Function.update_of_ne same] at isTable
      exact formed.valid isTable mapping member

end TranslationView

namespace UserSystem

theorem Lookup.wellFormed {sys : UserSystem} {id vpn : Nat} {mapping : Mapping}
    {view : TranslationView} (formed : sys.view.WellFormed)
    (found : sys.Lookup id vpn mapping view) : view.WellFormed := by
  cases found with
  | hit => exact formed
  | load => exact formed.fill _ _
  | fault missed absent chosen isTable => exact (formed.replace isTable _ _ _).fill _ _

/-- An access changes neither the running address space nor the page table that the
machine points to. -/
theorem Lookup.keeps {sys : UserSystem} {id vpn : Nat} {mapping : Mapping}
    {view : TranslationView} (found : sys.Lookup id vpn mapping view) :
    view.current = sys.current ∧ view.pageTable = sys.machine.pageTable := by
  cases found <;> exact ⟨rfl, rfl⟩

theorem Transition.wellFormed {sys : UserSystem} {action : Action}
    {view : TranslationView} (formed : sys.view.WellFormed)
    (moved : sys.Transition action view) : view.WellFormed := by
  cases moved with
  | start => exact formed.create _ _ _
  | idle => exact formed.idle
  | activate isSpace => exact formed.activate isSpace
  | read running found => exact found.wellFormed formed
  | write running found => exact found.wellFormed formed
  | pageFault running isTable => exact formed.replace isTable _ _ _
  | destroy => exact formed.remove _ _

theorem wellFormed_boot (memory : BootMemory) : (boot memory).view.WellFormed where
  space isSpace := nomatch isSpace
  live isTable := nomatch isTable
  allocated isSpace := nomatch isSpace
  running isCurrent := nomatch isCurrent
  valid isTable := nomatch isTable

end UserSystem

end Nachos
