import Nachos.TranslationSteps

/-!
# The translation buffer as a cache of the page table

The entries of the translation buffer come from the page table of the running
address space, but neither `RestoreState` nor `SwitchPageTable` removes an entry
when the table it comes from is exchanged or changed.  Along runs in which this
makes no difference, the translation buffer is a cache of the current page table.
-/

namespace Nachos

open LittleEndianWords ByteStore TransitionRuns

/-- The two mappings send the same page to the same frame. -/
def Mapping.Same (first second : Mapping) : Prop :=
  first.virtualPage = second.virtualPage ∧ first.physicalPage = second.physicalPage

instance (first second : Mapping) : Decidable (first.Same second) :=
  inferInstanceAs (Decidable (_ ∧ _))

namespace TranslationView

/-- Every valid entry of the translation buffer is a valid entry of the table. -/
def CachedIn (view : TranslationView) (table : List Mapping) : Prop :=
  ∀ slot, (view.tlb slot).valid = true →
    ∃ mapping ∈ table, mapping.valid = true ∧ mapping.Same (view.tlb slot)

instance (view : TranslationView) (table : List Mapping) :
    Decidable (view.CachedIn table) :=
  inferInstanceAs (Decidable (∀ _, _))

/-- The translation buffer caches the page table that the machine points to. -/
def Cached (view : TranslationView) : Prop :=
  ∀ address table, view.pageTable = some address →
    view.tables address = some table → view.CachedIn table

end TranslationView

namespace UserSystem

/-- The translation buffer is a cache of the page table of the address space now
running. -/
def TlbCoherent (sys : UserSystem) : Prop :=
  match sys.current with
  | some id => sys.view.CachedIn (sys.view.tableOf id)
  | none => True

instance (sys : UserSystem) : Decidable sys.TlbCoherent := by
  unfold TlbCoherent
  split <;> infer_instance

def TlbEmpty (sys : UserSystem) : Prop :=
  ∀ slot, (sys.machine.tlb slot).valid = false

instance (sys : UserSystem) : Decidable sys.TlbEmpty :=
  inferInstanceAs (Decidable (∀ _, _))

/-- The entry of the page table that a page fault would replace. -/
def victim (sys : UserSystem) : Option Mapping :=
  match sys.replacementFrame with
  | .ok frame =>
      (sys.view.pageTable.bind sys.view.tables).bind fun table => table[frame]?
  | .error _ => none

/-- A slot of the translation buffer caches the entry that a page fault would
replace. -/
def CachesVictim (sys : UserSystem) (slot : Fin tlbSize) : Prop :=
  (sys.view.tlb slot).valid = true ∧
    (sys.victim.any fun mapping => mapping.Same (sys.view.tlb slot)) = true

instance (sys : UserSystem) (slot : Fin tlbSize) : Decidable (sys.CachesVictim slot) :=
  inferInstanceAs (Decidable (_ ∧ _))

/-- If the access faults, the entry it replaces is cached at most in the slot
that `UpdateTLB` overwrites. -/
def FaultUncached (sys : UserSystem) (addr : CInt) : Prop :=
  sys.PageFaults addr →
    ∀ slot, sys.machine.chooseTLB.1 ≠ slot.val → ¬ sys.CachesVictim slot

instance (sys : UserSystem) (addr : CInt) : Decidable (sys.FaultUncached addr) :=
  inferInstanceAs (Decidable (_ → _))

/-- The steps that leave no stale entry behind.  Another address space runs only
with an empty translation buffer, and a page fault replaces an entry that is not
cached. -/
def CacheSafe (sys : UserSystem) : Action → Prop
  | .start _ => sys.TlbEmpty
  | .dispatch none => True
  | .dispatch (some id) => sys.TlbEmpty ∨
      (sys.spaces id).map AddrSpace.pageTable = some sys.machine.pageTable
  | .read addr _ => sys.FaultUncached addr
  | .write addr _ _ => sys.FaultUncached addr
  | .pageFault _ => ∀ slot, ¬ sys.CachesVictim slot
  | .destroy _ => True

instance (sys : UserSystem) : ∀ action, Decidable (sys.CacheSafe action)
  | .start _ => inferInstanceAs (Decidable sys.TlbEmpty)
  | .dispatch none => inferInstanceAs (Decidable True)
  | .dispatch (some id) => inferInstanceAs (Decidable (sys.TlbEmpty ∨
      (sys.spaces id).map AddrSpace.pageTable = some sys.machine.pageTable))
  | .read addr _ => inferInstanceAs (Decidable (sys.FaultUncached addr))
  | .write addr _ _ => inferInstanceAs (Decidable (sys.FaultUncached addr))
  | .pageFault _ => inferInstanceAs (Decidable (∀ slot, ¬ sys.CachesVictim slot))
  | .destroy _ => inferInstanceAs (Decidable True)

variable {sys : UserSystem}

theorem cachedIn_of_tlbEmpty (empty : sys.TlbEmpty) (table : List Mapping) :
    sys.view.CachedIn table := by
  intro slot valid
  have invalid : (sys.view.tlb slot).valid = false := empty slot
  rw [invalid] at valid
  cases valid

/-- A slot that does not cache the replaced entry still has its entry in the
table. -/
theorem cachedIn_set {view : TranslationView} {table : List Mapping} {frame : Nat}
    {replaced installed : Mapping} {slot : Fin tlbSize} (cached : view.CachedIn table)
    (uncached : ¬ replaced.Same (view.tlb slot))
    (isReplaced : table[frame]? = some replaced)
    (valid : (view.tlb slot).valid = true) :
    ∃ mapping ∈ table.set frame installed,
      mapping.valid = true ∧ mapping.Same (view.tlb slot) := by
  obtain ⟨mapping, member, isValid, same⟩ := cached slot valid
  refine ⟨mapping, ?_, isValid, same⟩
  obtain ⟨index, isMapping⟩ := List.mem_iff_getElem?.mp member
  have elsewhere : frame ≠ index := by
    rintro rfl
    obtain rfl := Option.some.inj (isReplaced.symm.trans isMapping)
    exact uncached same
  exact List.mem_of_getElem? ((List.getElem?_set_ne elsewhere).trans isMapping)

/-- The search of an access keeps the translation buffer a cache of the page table
that the search looks at. -/
theorem Lookup.cached {id : Nat} {addr : CInt} {mapping : Mapping}
    {view : TranslationView} (formed : sys.view.WellFormed)
    (running : sys.current = some id) (cached : sys.view.Cached)
    (safe : sys.FaultUncached addr)
    (found : sys.Lookup id (addr.toNat / pageSize) mapping view) : view.Cached := by
  obtain ⟨space, isSpace, isPageTable, -⟩ := formed.running running
  cases found with
  | hit => exact cached
  | @load chosenSlot table mapping missed present chosen isTable isMapping =>
      intro address other isAddress isOther slot valid
      obtain rfl : id = address := Option.some.inj (isPageTable.symm.trans isAddress)
      obtain rfl : table = other := Option.some.inj (isTable.symm.trans isOther)
      have member := List.mem_of_getElem? isMapping
      by_cases same : slot = chosenSlot
      · subst same
        refine ⟨mapping, member, (formed.valid isTable mapping member).1, ?_⟩
        simp [TranslationView.fill, Mapping.Same]
      · simp only [TranslationView.fill, Function.update_of_ne same] at valid ⊢
        exact cached id table isPageTable isTable slot valid
  | @fault chosenSlot table frame mapping freed missed absent chosen isTable selected
      isMapping isFreed small =>
      intro address other isAddress isOther slot valid
      obtain rfl : id = address := Option.some.inj (isPageTable.symm.trans isAddress)
      have replaced : other = table.set frame
          (TranslationView.faulted (addr.toNat / pageSize)) := by
        have both := Function.update_self id
          (some (table.set frame (TranslationView.faulted (addr.toNat / pageSize))))
          sys.view.tables
        exact Option.some.inj (isOther.symm.trans both)
      subst replaced
      obtain ⟨inside, isEntry⟩ := List.getElem?_eq_some_iff.mp isMapping
      by_cases same : slot = chosenSlot
      · subst same
        refine ⟨_, List.mem_set inside _, rfl, ?_⟩
        simp [TranslationView.fill, Mapping.Same]
      · simp only [TranslationView.fill, Function.update_of_ne same] at valid ⊢
        exact cachedIn_set (cached id table isPageTable isTable) (fun replacedSame => by
          have isVictim : sys.victim = some mapping := by
            simp [victim, selected, isPageTable, isTable, isMapping]
          refine safe ⟨missed, absent⟩ slot ?_ ⟨valid, ?_⟩
          · rw [chosen]
            exact fun equal => same (Fin.ext equal.symm)
          · simp only [isVictim, Option.any_some, decide_eq_true_eq]
            exact replacedSame) isMapping valid

/-- A step of the careful kind keeps the translation buffer a cache of the page
table in the machine. -/
theorem Transition.cached {action : Action} {view : TranslationView}
    (formed : sys.view.WellFormed) (cached : sys.view.Cached)
    (safe : sys.CacheSafe action) (moved : sys.Transition action view) :
    view.Cached := by
  cases moved with
  | start =>
      intro address table isAddress isTable slot valid
      exact cachedIn_of_tlbEmpty safe table slot valid
  | idle => exact cached
  | @activate id space isSpace =>
      rcases safe with empty | already
      · intro address table isAddress isTable slot valid
        exact cachedIn_of_tlbEmpty empty table slot valid
      · intro address table isAddress isTable
        have pointer : space.pageTable = sys.machine.pageTable := by
          simpa [isSpace] using already
        exact cached address table (pointer.symm.trans isAddress) isTable
  | read running found => exact found.cached formed running cached safe
  | write running found => exact found.cached formed running cached safe
  | @pageFault id vpn frame table mapping freed running isTable selected isMapping
      isFreed small =>
      obtain ⟨space, isSpace, isPageTable, -⟩ := formed.running running
      intro address other isAddress isOther slot valid
      obtain rfl : id = address := Option.some.inj (isPageTable.symm.trans isAddress)
      simp only [TranslationView.replace, Function.update_self,
        Option.some.injEq] at isOther
      subst isOther
      refine cachedIn_set (cached id table isPageTable isTable) ?_ isMapping valid
      intro replacedSame
      have isVictim : sys.victim = some mapping := by
        simp [victim, selected, isPageTable, isTable, isMapping]
      refine safe slot ⟨valid, ?_⟩
      simp only [isVictim, Option.any_some, decide_eq_true_eq]
      exact replacedSame
  | @destroy id table marked isTable cleared =>
      intro address other isAddress isOther
      by_cases same : address = id
      · simp [TranslationView.remove, same] at isOther
      · simp only [TranslationView.remove, Function.update_of_ne same] at isOther
        exact cached address other isAddress isOther

theorem tlbCoherent_of_cached (formed : sys.view.WellFormed)
    (cached : sys.view.Cached) : sys.TlbCoherent := by
  unfold TlbCoherent
  split
  next id running =>
    obtain ⟨space, isSpace, isPageTable, -⟩ := formed.running running
    obtain ⟨own, table, isTable, -⟩ := formed.space isSpace
    rw [sys.view.tableOf_eq isSpace own isTable]
    exact cached id table isPageTable isTable
  next => trivial

theorem cached_boot (memory : BootMemory) : (boot memory).view.Cached :=
  fun _ _ isAddress => nomatch isAddress

/-- In every run whose steps leave no stale entry behind, the translation buffer is
always a cache of the page table of the running address space. -/
theorem tlbCoherent_along_run (useSwap : Bool) (memory : BootMemory)
    (actions : List Action)
    (safe : RunAllowed (step useSwap) CacheSafe (boot memory) actions) :
    AlongRun (step useSwap) TlbCoherent (boot memory) actions := by
  have preserved : ∀ (sys : UserSystem) (action : Action) (after : UserSystem),
      sys.view.WellFormed ∧ sys.view.Cached → sys.CacheSafe action →
        step useSwap sys action = .ok after →
          after.view.WellFormed ∧ after.view.Cached := by
    rintro sys action after ⟨formed, cached⟩ now stepped
    have moved := step_transition formed stepped
    exact ⟨moved.wellFormed formed, moved.cached formed cached now⟩
  have initial := And.intro (wellFormed_boot memory) (cached_boot memory)
  apply (alongRun_of_invariant preserved initial safe).mono
  rintro sys ⟨formed, cached⟩
  exact tlbCoherent_of_cached formed cached

set_option maxRecDepth 4000 in
theorem tlbCoherent_along_run_example :
    AlongRun (step false) TlbCoherent (boot .zero)
      [.start .oneInstruction, .read 0 4, .write 128 4 7, .dispatch none,
        .dispatch (some 0)] :=
  tlbCoherent_along_run false _ _ (by decide +kernel)

set_option maxRecDepth 4000 in
/-- After a read by the first program, the translation buffer still sends page 0 to
frame 0 when the second one runs, whose page 0 is in another frame. -/
theorem tlb_not_coherent_after_switch :
    ¬ AlongRun (step false) TlbCoherent (boot .zero)
      [.start .oneInstruction, .read 0 4, .dispatch none, .start .oneInstruction] := by
  decide +kernel

end UserSystem

end Nachos
