import Nachos.TranslationSteps

/-!
# One slot for each page

`UpdateTLB` runs only when the search of `Translate` found no valid slot for the
page, and it fills a slot with an entry of that very page: that at the index of the
page, or the one where the page fault has put it.  So the valid slots of the
translation buffer hold different pages.
-/

namespace Nachos

open TransitionRuns

namespace TranslationView

/-- A valid slot holds the page. -/
def Holds (view : TranslationView) (vpn : Nat) (slot : Fin tlbSize) : Prop :=
  (view.tlb slot).valid = true ∧ (view.tlb slot).virtualPage = vpn

/-- No two valid slots hold the same page. -/
def HoldsOnce (view : TranslationView) : Prop :=
  ∀ first second vpn, view.Holds vpn first → view.Holds vpn second → first = second

variable {view : TranslationView} {vpn : Nat} {slot : Fin tlbSize}

theorem holds_of_findTLB (found : view.findTLB vpn = some slot) : view.Holds vpn slot := by
  simpa [Holds] using List.find?_some found

theorem findTLB_eq_none_iff :
    view.findTLB vpn = none ↔ ∀ slot, ¬ view.Holds vpn slot := by
  simp [findTLB, Holds]

/-- With one slot for each page, the search finds that slot. -/
theorem HoldsOnce.findTLB (once : view.HoldsOnce) (holds : view.Holds vpn slot) :
    view.findTLB vpn = some slot := by
  cases found : view.findTLB vpn with
  | none => exact absurd holds (findTLB_eq_none_iff.mp found slot)
  | some other => rw [once other slot vpn (holds_of_findTLB found) holds]

/-- After a miss, any slot may be filled with the page. -/
theorem HoldsOnce.fill (once : view.HoldsOnce) {mapping : Mapping}
    (missed : view.findTLB mapping.virtualPage = none) (slot : Fin tlbSize) :
    (view.fill slot mapping).HoldsOnce := by
  have absent := findTLB_eq_none_iff.mp missed
  intro first second vpn holdsFirst holdsSecond
  simp only [Holds, TranslationView.fill] at holdsFirst holdsSecond
  by_cases isFirst : first = slot
  · by_cases isSecond : second = slot
    · exact isFirst.trans isSecond.symm
    · rw [isFirst, Function.update_self] at holdsFirst
      rw [Function.update_of_ne isSecond, ← holdsFirst.2] at holdsSecond
      exact absurd holdsSecond (absent second)
  · rw [Function.update_of_ne isFirst] at holdsFirst
    by_cases isSecond : second = slot
    · rw [isSecond, Function.update_self] at holdsSecond
      rw [← holdsSecond.2] at holdsFirst
      exact absurd holdsFirst (absent first)
    · rw [Function.update_of_ne isSecond] at holdsSecond
      exact once first second vpn holdsFirst holdsSecond

end TranslationView

namespace UserSystem

variable {sys : UserSystem} {id vpn : Nat} {mapping : Mapping} {view : TranslationView}

/-- The entry at the index of a page that is present maps this page. -/
theorem mapping_of_present {table : List Mapping} (formed : sys.view.WellFormed)
    (running : sys.current = some id) (present : sys.view.present vpn = true)
    (isTable : sys.view.tables id = some table) (isMapping : table[vpn]? = some mapping) :
    mapping.virtualPage = vpn ∧ mapping.valid = true := by
  obtain ⟨space, -, isPageTable, -⟩ := formed.running running
  simpa [TranslationView.present, isPageTable, isTable, isMapping] using
    (Bool.and_eq_true_iff.mp present).2

/-- However the search ends, a slot holds the page with the mapping that is used. -/
theorem Lookup.holds (formed : sys.view.WellFormed) (running : sys.current = some id)
    (found : sys.Lookup id vpn mapping view) :
    ∃ slot, view.tlb slot = mapping ∧ view.Holds vpn slot := by
  cases found with
  | @hit slot isSlot => exact ⟨slot, rfl, TranslationView.holds_of_findTLB isSlot⟩
  | @load slot table mapping missed present chosen isTable isMapping =>
      obtain ⟨page, valid⟩ := mapping_of_present formed running present isTable isMapping
      refine ⟨slot, by simp [TranslationView.fill], ?_⟩
      simp [TranslationView.Holds, TranslationView.fill, page, valid]
  | @fault slot =>
      refine ⟨slot, by simp [TranslationView.fill], ?_⟩
      simp [TranslationView.Holds, TranslationView.fill, TranslationView.faulted]

theorem Lookup.holdsOnce (formed : sys.view.WellFormed) (running : sys.current = some id)
    (once : sys.view.HoldsOnce) (found : sys.Lookup id vpn mapping view) :
    view.HoldsOnce := by
  cases found with
  | hit => exact once
  | load missed present chosen isTable isMapping =>
      apply once.fill
      rw [(mapping_of_present formed running present isTable isMapping).1]
      exact missed
  | @fault slot table frame replaced freed missed =>
      -- The replacement is in the page table, and the slots are as they were.
      have kept : (sys.view.replace id table frame vpn freed).HoldsOnce := once
      have still : (sys.view.replace id table frame vpn freed).findTLB
          (TranslationView.faulted vpn).virtualPage = none := missed
      exact kept.fill still slot

theorem Transition.holdsOnce {action : Action} (formed : sys.view.WellFormed)
    (once : sys.view.HoldsOnce) (moved : sys.Transition action view) : view.HoldsOnce := by
  cases moved with
  | start => exact once
  | idle => exact once
  | activate => exact once
  | read running found => exact found.holdsOnce formed running once
  | write running found => exact found.holdsOnce formed running once
  | pageFault => exact once
  | destroy => exact once

theorem holdsOnce_boot (memory : BootMemory) : (boot memory).view.HoldsOnce := by
  intro first second vpn holds
  cases holds.1

/-- No page is in two valid slots, and after an access of the running program was
translated exactly one slot holds its page, with the frame of the access. -/
def CachedOnce (sys : UserSystem) : Prop :=
  (∀ first second, (sys.machine.tlb first).valid = true →
    (sys.machine.tlb second).valid = true →
    (sys.machine.tlb first).virtualPage = (sys.machine.tlb second).virtualPage →
      first = second) ∧
  ∀ (id : Nat) (addr : CInt) (size : Nat) (writing : Bool) (physicalAddress : Int)
    (after : UserSystem), sys.current = some id →
    sys.translate addr size writing = .ok (.ok physicalAddress, after) →
    ∃ slot,
      (∀ other, (after.machine.tlb other).valid = true ∧
        (after.machine.tlb other).virtualPage = addr.toNat / pageSize ↔ other = slot) ∧
      physicalAddress = wrapInt ((after.machine.tlb slot).physicalPage * pageSize +
        (addr.toNat % pageSize : Nat))

theorem cachedOnce_of_holdsOnce (formed : sys.view.WellFormed)
    (once : sys.view.HoldsOnce) : sys.CachedOnce := by
  constructor
  · intro first second validFirst validSecond same
    exact once first second _ ⟨validFirst, same⟩ ⟨validSecond, rfl⟩
  · intro id addr size writing physicalAddress after running translated
    obtain ⟨-, mapping, found, -, isAddress⟩ := translate_eq_ok formed running translated
    obtain ⟨slot, isMapping, holds⟩ := found.holds formed running
    have onceAfter := found.holdsOnce formed running once
    refine ⟨slot, ?_, ?_⟩
    · intro other
      constructor
      · intro also
        exact onceAfter other slot _ also holds
      · rintro rfl
        exact holds
    · rw [isAddress, ← isMapping]
      rfl

theorem holdsOnce_along_run (useSwap : Bool) (memory : BootMemory)
    (actions : List Action) :
    AlongRun (step useSwap) (fun sys => sys.view.WellFormed ∧ sys.view.HoldsOnce)
      (boot memory) actions := by
  have preserved : ∀ (sys : UserSystem) (action : Action) (after : UserSystem),
      sys.view.WellFormed ∧ sys.view.HoldsOnce → step useSwap sys action = .ok after →
        after.view.WellFormed ∧ after.view.HoldsOnce := by
    rintro sys action after ⟨formed, once⟩ stepped
    have moved := step_transition formed stepped
    exact ⟨moved.wellFormed formed, moved.holdsOnce formed once⟩
  exact alongRun_of_preserved preserved ⟨wellFormed_boot memory, holdsOnce_boot memory⟩

/-- In every run from a machine whose translation buffer is empty, no page is ever
cached twice. -/
theorem cachedOnce_along_run (useSwap : Bool) (memory : BootMemory)
    (actions : List Action) :
    AlongRun (step useSwap) CachedOnce (boot memory) actions := by
  apply (holdsOnce_along_run useSwap memory actions).mono
  rintro sys ⟨formed, once⟩
  exact cachedOnce_of_holdsOnce formed once

end UserSystem

end Nachos
