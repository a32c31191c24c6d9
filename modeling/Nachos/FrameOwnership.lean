import Nachos.ExclusiveOwnership
import Nachos.TranslationSteps

/-!
# Ownership of frames

A frame belongs to the page table that maps a page to it, and the frame bitmap is
the ledger of the frames that are taken.  Constructors and destructors keep this
ledger; a page fault never does, because `SwitchPageTable` takes the frame whose
number is that of the page without looking whether it is free.
-/

namespace Nachos

open LittleEndianWords ByteStore TransitionRuns ExclusiveOwnership

/-- The frames that the valid entries of a page table map to. -/
def frames (table : List Mapping) : List Int :=
  (table.filter Mapping.valid).map Mapping.physicalPage

/-- The bit of a frame; a number that is not on the bitmap is not marked. -/
def isMarked (marked : Fin memorySize → Bool) (frame : Int) : Bool :=
  if inside : 0 ≤ frame ∧ frame < memorySize then marked ⟨frame.toNat, by omega⟩
  else false

theorem isMarked_val (marked : Fin memorySize → Bool) (bit : Fin memorySize) :
    isMarked marked bit.val = marked bit := by
  have bound := bit.isLt
  rw [isMarked, dif_pos ⟨by omega, by omega⟩]
  rfl

/-- Only frames on the bitmap are marked. -/
theorem exists_of_isMarked {marked : Fin memorySize → Bool} {frame : Int}
    (isSet : isMarked marked frame = true) :
    ∃ bit : Fin memorySize, frame = bit.val ∧ marked bit = true := by
  unfold isMarked at isSet
  split at isSet
  next inside => exact ⟨⟨frame.toNat, by omega⟩, (Int.toNat_of_nonneg inside.1).symm, isSet⟩
  next => cases isSet

namespace TranslationView

/-- No page table maps a page twice, no frame is mapped twice, and exactly the
mapped frames are marked. -/
structure FrameOwnership (view : TranslationView) : Prop where
  pages : ∀ id, (((view.tableOf id).filter Mapping.valid).map
    Mapping.virtualPage).Nodup
  ledger : Ledger (fun id => frames (view.tableOf id)) (isMarked view.marked)

variable {view : TranslationView}

theorem frames_eq_map {table : List Mapping}
    (valid : ∀ mapping ∈ table, mapping.valid = true ∧ mapping.readOnly = false) :
    frames table = table.map Mapping.physicalPage := by
  rw [frames, List.filter_eq_self.mpr fun mapping member => (valid mapping member).1]

/-- The address space of a page table. -/
theorem WellFormed.tableOf (formed : view.WellFormed) {id : Nat} {table : List Mapping}
    (isTable : view.tables id = some table) : view.tableOf id = table := by
  obtain ⟨space, isSpace⟩ := formed.live isTable
  exact view.tableOf_eq isSpace (formed.space isSpace).1 isTable

theorem WellFormed.tableOf_of_none (formed : view.WellFormed) {id : Nat}
    (none : view.tables id = none) : view.tableOf id = [] := by
  cases isSpace : view.spaces id with
  | none => simp [TranslationView.tableOf, isSpace]
  | some space =>
      obtain ⟨own, table, isTable, -⟩ := formed.space isSpace
      rw [none] at isTable
      cases isTable

/-- The table of an address space, without its pointer. -/
theorem WellFormed.tableOf_eq_getD (formed : view.WellFormed) (id : Nat) :
    view.tableOf id = (view.tables id).getD [] := by
  cases isTable : view.tables id with
  | none => exact formed.tableOf_of_none isTable
  | some table => exact formed.tableOf isTable

section Create

theorem map_virtualPage_fresh (frames : List Int) :
    (frames.mapIdx fresh).map Mapping.virtualPage = List.range frames.length := by
  apply List.ext_getElem
  · simp
  · intro index first second
    simp [fresh]

theorem map_physicalPage_fresh (frames : List Int) :
    (frames.mapIdx fresh).map Mapping.physicalPage = frames := by
  apply List.ext_getElem
  · simp
  · intro index first second
    simp [fresh]

theorem filter_valid_fresh (frames : List Int) :
    (frames.mapIdx fresh).filter Mapping.valid = frames.mapIdx fresh := by
  apply List.filter_eq_self.mpr
  intro mapping member
  obtain ⟨index, inside, rfl⟩ := List.mem_mapIdx.mp member
  rfl

theorem tableOf_create (formed : view.WellFormed) (found : List Int)
    (marked : Fin memorySize → Bool) (realNumPages : Nat) :
    (view.create found marked realNumPages).tableOf =
      Function.update view.tableOf view.allocated (found.mapIdx fresh) := by
  ext id
  rw [(formed.create found marked realNumPages).tableOf_eq_getD]
  by_cases same : id = view.allocated
  · simp [same, create]
  · simp [same, create, formed.tableOf_eq_getD]

theorem WellFormed.tableOf_allocated (formed : view.WellFormed) :
    view.tableOf view.allocated = [] := by
  cases isSpace : view.spaces view.allocated with
  | none => simp [TranslationView.tableOf, isSpace]
  | some space => exact absurd (formed.allocated isSpace) (Nat.lt_irrefl _)

theorem nodup_numbers {found : List (Fin memorySize)} (distinct : found.Nodup) :
    (found.map fun bit => (bit.val : Int)).Nodup := by
  apply distinct.map
  intro first second equal
  exact Fin.ext (Int.ofNat.inj equal)

/-- A constructor that finds a clear bit for each page takes its frames properly. -/
theorem FrameOwnership.create (owned : view.FrameOwnership) (formed : view.WellFormed)
    {found : List (Fin memorySize)} {marked : Fin memorySize → Bool}
    (distinct : found.Nodup) (unmarked : ∀ bit ∈ found, view.marked bit = false)
    (updated : ∀ bit, marked bit = (decide (bit ∈ found) || view.marked bit))
    (realNumPages : Nat) :
    (view.create (found.map fun bit => (bit.val : Int)) marked
      realNumPages).FrameOwnership where
  pages id := by
    rw [tableOf_create formed]
    by_cases same : id = view.allocated
    · subst same
      rw [Function.update_self, filter_valid_fresh, map_virtualPage_fresh]
      exact List.nodup_range
    · rw [Function.update_of_ne same]
      exact owned.pages id
  ledger := by
    have taken := owned.ledger.allocate
      (show frames (view.tableOf view.allocated) = [] by
        rw [formed.tableOf_allocated]
        rfl)
      (nodup_numbers distinct)
      (fun frame member => by
        obtain ⟨bit, isFound, rfl⟩ := List.mem_map.mp member
        exact (isMarked_val _ bit).trans (unmarked bit isFound))
      (fun frame => show isMarked marked frame = true ↔ _ by
        constructor
        · intro isSet
          obtain ⟨bit, rfl, isBit⟩ := exists_of_isMarked isSet
          rw [updated, Bool.or_eq_true, decide_eq_true_eq] at isBit
          rcases isBit with isFound | old
          · exact Or.inl (List.mem_map_of_mem isFound)
          · exact Or.inr ((isMarked_val _ bit).trans old)
        · rintro (member | old)
          · obtain ⟨bit, isFound, rfl⟩ := List.mem_map.mp member
            rw [isMarked_val, updated, decide_eq_true isFound, Bool.true_or]
          · obtain ⟨bit, rfl, isBit⟩ := exists_of_isMarked old
            rw [isMarked_val, updated, isBit, Bool.or_true])
    have held : (fun id => frames ((view.create (found.map fun bit => (bit.val : Int))
        marked realNumPages).tableOf id)) =
          Function.update (fun id => frames (view.tableOf id)) view.allocated
            (found.map fun bit => (bit.val : Int)) := by
      ext id
      rw [tableOf_create formed]
      by_cases same : id = view.allocated
      · subst same
        rw [Function.update_self, Function.update_self, frames, filter_valid_fresh,
          map_physicalPage_fresh]
      · rw [Function.update_of_ne same, Function.update_of_ne same]
    rw [held]
    exact taken

end Create

section Remove

theorem tableOf_remove (formed : view.WellFormed) (id : Nat)
    (marked : Fin memorySize → Bool) :
    (view.remove id id marked).tableOf = Function.update view.tableOf id [] := by
  ext other
  rw [(formed.remove id marked).tableOf_eq_getD]
  by_cases same : other = id
  · simp [same, remove]
  · simp [same, remove, formed.tableOf_eq_getD]

/-- A destructor gives its frames back. -/
theorem FrameOwnership.remove (owned : view.FrameOwnership) (formed : view.WellFormed)
    {id : Nat} {table : List Mapping} {marked : Fin memorySize → Bool}
    (isTable : view.tables id = some table)
    (cleared : ∀ bit, marked bit = true ↔
      (∀ mapping ∈ table, mapping.physicalPage ≠ (Fin.val bit : Int)) ∧
        view.marked bit = true) :
    (view.remove id id marked).FrameOwnership where
  pages other := by
    rw [tableOf_remove formed]
    by_cases same : other = id
    · simp [same]
    · rw [Function.update_of_ne same]
      exact owned.pages other
  ledger := by
    have held : (fun other => frames ((view.remove id id marked).tableOf other)) =
        Function.update (fun other => frames (view.tableOf other)) id [] := by
      ext other
      rw [tableOf_remove formed]
      by_cases same : other = id
      · subst same
        rw [Function.update_self, Function.update_self]
        rfl
      · rw [Function.update_of_ne same, Function.update_of_ne same]
    have own : frames (view.tableOf id) = table.map Mapping.physicalPage := by
      rw [formed.tableOf isTable, frames_eq_map (formed.valid isTable)]
    rw [held]
    apply owned.ledger.release id
    intro frame
    simp only [own]
    constructor
    · intro isSet
      obtain ⟨bit, rfl, isBit⟩ := exists_of_isMarked isSet
      obtain ⟨others, old⟩ := (cleared bit).mp isBit
      refine ⟨fun member => ?_, (isMarked_val _ bit).trans old⟩
      obtain ⟨mapping, inTable, equal⟩ := List.mem_map.mp member
      exact others mapping inTable equal
    · rintro ⟨absent, old⟩
      obtain ⟨bit, rfl, isBit⟩ := exists_of_isMarked old
      refine (isMarked_val _ bit).trans ((cleared bit).mpr ⟨?_, isBit⟩)
      intro mapping inTable equal
      exact absent (List.mem_map.mpr ⟨mapping, inTable, equal⟩)

end Remove

section Replace

/-- A page fault breaks the ledger: the frame it takes was free, and then it is not
marked, or it belonged to another page, or it is the frame that is given back. -/
theorem not_frameOwnership_replace (owned : view.FrameOwnership)
    (formed : view.WellFormed) {id frame vpn : Nat} {table : List Mapping}
    {mapping : Mapping} {freed : Fin memorySize} (isTable : view.tables id = some table)
    (isMapping : table[frame]? = some mapping)
    (isFreed : mapping.physicalPage = freed.val) :
    ¬ (view.replace id table frame vpn freed).FrameOwnership := by
  intro replaced
  obtain ⟨inside, isEntry⟩ := List.getElem?_eq_some_iff.mp isMapping
  have newFormed := formed.replace isTable frame vpn freed
  have newTable : (view.replace id table frame vpn freed).tables id =
      some (table.set frame (faulted vpn)) := Function.update_self ..
  have newHeld : frames ((view.replace id table frame vpn freed).tableOf id) =
      (table.map Mapping.physicalPage).set frame vpn := by
    rw [newFormed.tableOf newTable, frames_eq_map (newFormed.valid newTable),
      List.map_set]
    rfl
  have holds : (vpn : Int) ∈
      frames ((view.replace id table frame vpn freed).tableOf id) := by
    rw [newHeld]
    exact List.mem_set (by simpa using inside) _
  have isSet := replaced.ledger.marked_of_held holds
  obtain ⟨bit, isBit, kept⟩ := exists_of_isMarked isSet
  simp only [replace, Bool.and_eq_true, decide_eq_true_eq] at kept
  obtain ⟨owner, held⟩ := (owned.ledger.marks bit.val).mp
    ((isMarked_val _ bit).trans kept.2)
  by_cases same : owner = id
  · subst same
    rw [formed.tableOf isTable, frames_eq_map (formed.valid isTable), ← isBit] at held
    obtain ⟨index, isIndex⟩ := List.mem_iff_getElem?.mp held
    have elsewhere : frame ≠ index := by
      rintro rfl
      rw [List.getElem?_map, isMapping] at isIndex
      apply kept.1
      apply Fin.ext
      have value := Option.some.inj isIndex
      rw [isFreed, isBit] at value
      omega
    have twice := replaced.ledger.nodup owner
    simp only [newHeld] at twice
    obtain ⟨inIndex, -⟩ := List.getElem?_eq_some_iff.mp isIndex
    have equal : ((table.map Mapping.physicalPage).set frame vpn)[frame]? =
        ((table.map Mapping.physicalPage).set frame vpn)[index]? := by
      rw [List.getElem?_set_self (by simpa using inside),
        List.getElem?_set_ne elsewhere, isIndex]
    exact elsewhere ((List.getElem?_inj (by simpa using inside) twice).mp equal)
  · have stays : (view.replace id table frame vpn freed).tableOf owner =
        view.tableOf owner := by
      rw [newFormed.tableOf_eq_getD, formed.tableOf_eq_getD]
      simp [replace, same]
    have heldStill : (vpn : Int) ∈
        frames ((view.replace id table frame vpn freed).tableOf owner) := by
      rw [stays, isBit]
      exact held
    exact same (replaced.ledger.unique heldStill holds)

end Replace

end TranslationView

namespace UserSystem

/-- The frame ledger of the running system is in order. -/
def FrameOwnership (sys : UserSystem) : Prop :=
  sys.view.FrameOwnership

/-- There is a clear bit for each page of the program. -/
def EnoughFrames (sys : UserSystem) (program : Program) : Prop :=
  program.header.numPages ≤ sys.bitmap.numClear

/-- Calling `Find` decides it faster than counting all clear bits. -/
instance (sys : UserSystem) (program : Program) : Decidable (sys.EnoughFrames program) :=
  decidable_of_iff _ BitMap.neg_one_notMem_findEach_iff

/-- The steps that keep the ledger: programs that find enough free frames, and no
page faults. -/
def FrameSafe (sys : UserSystem) : Action → Prop
  | .start program => sys.EnoughFrames program
  | .read addr _ => ¬ sys.PageFaults addr
  | .write addr _ _ => ¬ sys.PageFaults addr
  | .pageFault _ => False
  | .dispatch _ => True
  | .destroy _ => True

instance (sys : UserSystem) : ∀ action, Decidable (sys.FrameSafe action)
  | .start program => inferInstanceAs (Decidable (sys.EnoughFrames program))
  | .read addr _ => inferInstanceAs (Decidable (¬ sys.PageFaults addr))
  | .write addr _ _ => inferInstanceAs (Decidable (¬ sys.PageFaults addr))
  | .pageFault _ => inferInstanceAs (Decidable False)
  | .dispatch _ => inferInstanceAs (Decidable True)
  | .destroy _ => inferInstanceAs (Decidable True)

variable {sys : UserSystem} {action : Action} {view : TranslationView}

theorem Lookup.frameOwnership {id vpn : Nat} {mapping : Mapping}
    (owned : sys.view.FrameOwnership) (found : sys.Lookup id vpn mapping view)
    (noFault : ¬ (sys.view.findTLB vpn = none ∧ sys.view.present vpn = false)) :
    view.FrameOwnership := by
  cases found with
  | hit => exact owned
  | load => exact ⟨owned.pages, owned.ledger⟩
  | fault missed absent => exact absurd ⟨missed, absent⟩ noFault

theorem Transition.frameOwnership (formed : sys.view.WellFormed)
    (owned : sys.view.FrameOwnership) (safe : sys.FrameSafe action)
    (moved : sys.Transition action view) : view.FrameOwnership := by
  cases moved with
  | start finding =>
      obtain ⟨found, after, all, -, distinct, unmarked, marked⟩ :=
        BitMap.findEach_eq _ safe
      obtain ⟨rfl, rfl⟩ := Prod.mk.inj (all.symm.trans finding)
      exact owned.create formed distinct unmarked marked _
  | idle => exact ⟨owned.pages, owned.ledger⟩
  | activate => exact ⟨owned.pages, owned.ledger⟩
  | read running found => exact found.frameOwnership owned safe
  | write running found => exact found.frameOwnership owned safe
  | pageFault => exact absurd safe id
  | destroy isTable cleared => exact owned.remove formed isTable cleared

theorem Lookup.not_frameOwnership {id vpn : Nat} {mapping : Mapping}
    (formed : sys.view.WellFormed) (owned : sys.view.FrameOwnership)
    (found : sys.Lookup id vpn mapping view)
    (faults : sys.view.findTLB vpn = none ∧ sys.view.present vpn = false) :
    ¬ view.FrameOwnership := by
  cases found with
  | hit found => exact absurd (found.symm.trans faults.1) (by simp)
  | load missed present => exact absurd (present.symm.trans faults.2) (by simp)
  | fault missed absent chosen isTable selected isMapping isFreed small =>
      intro filled
      exact TranslationView.not_frameOwnership_replace owned formed isTable isMapping
        isFreed ⟨filled.pages, filled.ledger⟩

/-- Every other step breaks the ledger. -/
theorem Transition.not_frameOwnership (formed : sys.view.WellFormed)
    (owned : sys.view.FrameOwnership) (unsafeStep : ¬ sys.FrameSafe action)
    (moved : sys.Transition action view) : ¬ view.FrameOwnership := by
  cases moved with
  | @start program found bitmap finding =>
      intro created
      have few : sys.bitmap.numClear < program.header.numPages := Nat.not_le.mp unsafeStep
      have missing := BitMap.neg_one_mem_findEach _ few
      rw [finding] at missing
      have held : -1 ∈ frames ((sys.view.create found bitmap.testBit
          program.header.realNumPages).tableOf sys.view.allocated) := by
        rw [TranslationView.tableOf_create formed, Function.update_self, frames,
          TranslationView.filter_valid_fresh, TranslationView.map_physicalPage_fresh]
        exact missing
      have isSet := created.ledger.marked_of_held held
      simp [isMarked] at isSet
  | idle => exact absurd trivial unsafeStep
  | activate => exact absurd trivial unsafeStep
  | read running found =>
      exact found.not_frameOwnership formed owned (Decidable.not_not.mp unsafeStep)
  | write running found =>
      exact found.not_frameOwnership formed owned (Decidable.not_not.mp unsafeStep)
  | pageFault running isTable selected isMapping isFreed small =>
      exact TranslationView.not_frameOwnership_replace owned formed isTable isMapping
        isFreed
  | destroy => exact absurd trivial unsafeStep

theorem frameOwnership_boot (memory : BootMemory) : (boot memory).FrameOwnership where
  pages _ := List.nodup_nil
  ledger := {
    nodup := fun _ => List.nodup_nil
    unique := fun inFirst => nomatch inFirst
    marks := fun frame => by
      constructor
      · intro isSet
        obtain ⟨bit, rfl, isBit⟩ := exists_of_isMarked isSet
        simp only [view, boot, BitMap.testBit_new] at isBit
        cases isBit
      · rintro ⟨owner, member⟩
        cases member }

/-- The frame ledger is in order in all states of a run exactly when the run starts
programs only while there are enough free frames, and no page fault is handled. -/
theorem frameOwnership_along_run_iff (useSwap : Bool) (memory : BootMemory)
    (actions : List Action) :
    AlongRun (step useSwap) FrameOwnership (boot memory) actions ↔
      RunAllowed (step useSwap) FrameSafe (boot memory) actions := by
  have preserved : ∀ (sys : UserSystem) (action : Action) (after : UserSystem),
      sys.view.WellFormed ∧ sys.FrameOwnership → sys.FrameSafe action →
        step useSwap sys action = .ok after →
          after.view.WellFormed ∧ after.FrameOwnership := by
    rintro sys action after ⟨formed, owned⟩ safe stepped
    have moved := step_transition formed stepped
    exact ⟨moved.wellFormed formed, moved.frameOwnership formed owned safe⟩
  have breaks : ∀ (sys : UserSystem) (action : Action) (after : UserSystem),
      sys.view.WellFormed ∧ sys.FrameOwnership → ¬ sys.FrameSafe action →
        step useSwap sys action = .ok after → ¬ after.FrameOwnership := by
    rintro sys action after ⟨formed, owned⟩ unsafeStep stepped
    exact (step_transition formed stepped).not_frameOwnership formed owned unsafeStep
  exact alongRun_iff_runAllowed preserved (fun sys both => both.2) breaks
    ⟨wellFormed_boot memory, frameOwnership_boot memory⟩

set_option maxRecDepth 4000 in
/-- A fault for page 9 of a program of nine pages maps the page to frame 9, which
stays unmarked. -/
theorem frameOwnership_lost_by_fault :
    ¬ AlongRun (step false) FrameOwnership (boot .zero)
      [.start .oneInstruction, .pageFault 9] := by
  intro along
  have completed : ((run (step false) (boot .zero)
      [.start .oneInstruction, .pageFault 9]).toOption.any fun sys =>
        decide (9 ∈ frames (sys.view.tableOf 0)) &&
          !isMarked sys.view.marked 9) = true := by
    decide +kernel
  cases result : run (step false) (boot .zero) [.start .oneInstruction, .pageFault 9] with
  | error fault =>
      rw [result] at completed
      cases completed
  | ok last =>
      have owned := alongRun_last along result
      simp only [result, Except.toOption, Option.any_some, Bool.and_eq_true,
        decide_eq_true_eq, Bool.not_eq_true'] at completed
      have isSet := owned.ledger.marked_of_held completed.1
      rw [completed.2] at isSet
      cases isSet

end UserSystem

end Nachos
