import Nachos.TranslationSteps

/-!
# Addresses outside the program

With a translation buffer, `Translate` compares no page number with the size of the
program.  The exception handlers take an address beyond it for a page fault: they
replace an entry of the page table, or stop in an `ASSERT` of the frame bitmap.
-/

namespace Nachos

open TransitionRuns

namespace UserSystem

variable {sys after : UserSystem} {addr : CInt} {size : Nat} {writing : Bool}

/-- The access ends in an address error, which installs no mapping and frees no
frame. -/
def Rejects (sys : UserSystem) (addr : CInt) (size : Nat) (writing : Bool) : Prop :=
  ∃ after, sys.translate addr size writing = .ok (.error .addressError, after) ∧
    after.view = sys.view

/-- The address error is that of a misaligned access. -/
theorem misaligned_of_addressError
    (done : sys.translate addr size writing = .ok (.error .addressError, after)) :
    misaligned addr size = true := by
  unfold translate at done
  split at done
  next misalign => exact misalign
  next =>
    obtain ⟨⟨tlbMiss, found⟩, -, done⟩ := bind_eq_ok_iff.mp done
    obtain ⟨entry, -, done⟩ := bind_eq_ok_iff.mp done
    split at done
    next => cases done
    next =>
      obtain ⟨touched, -, done⟩ := bind_eq_ok_iff.mp done
      obtain ⟨updated, -, done⟩ := bind_eq_ok_iff.mp done
      cases done

/-- An access outside the program that misses the translation buffer and is translated
maps its page to the frame of the same number. -/
theorem translate_outside {id : Nat} {space : AddrSpace} {physicalAddress : Int}
    (formed : sys.view.WellFormed) (running : sys.current = some id)
    (isSpace : sys.spaces id = some space)
    (outside : space.numPages ≤ addr.toNat / pageSize)
    (missed : sys.view.findTLB (addr.toNat / pageSize) = none)
    (done : sys.translate addr size writing = .ok (.ok physicalAddress, after)) :
    physicalAddress = wrapInt addr.toNat ∧
      ∃ table frame freed slot, sys.view.tables id = some table ∧
        after.view = (sys.view.replace id table frame (addr.toNat / pageSize) freed).fill slot
          (TranslationView.faulted (addr.toNat / pageSize)) := by
  obtain ⟨-, mapping, found, -, isAddress⟩ := translate_eq_ok formed running done
  obtain ⟨own, isOwn, -, pages⟩ := formed.running running
  obtain rfl : space = own := Option.some.inj (isSpace.symm.trans isOwn)
  generalize later : after.view = view at found ⊢
  cases found with
  | hit isSlot => exact absurd (isSlot.symm.trans missed) (by simp)
  | load missed present =>
      have inside : addr.toNat / pageSize < sys.view.pageTableSize := by
        simpa using (Bool.and_eq_true_iff.mp present).1
      omega
  | @fault slot table frame replaced freed missed absent chosen isTable selected
      isMapping isFreed small =>
      refine ⟨?_, table, frame, freed, slot, isTable, rfl⟩
      rw [isAddress]
      have division := Nat.div_add_mod' addr.toNat pageSize
      congr 1
      simp only [TranslationView.faulted]
      omega

theorem rejects_of_misaligned (misalign : misaligned addr size = true) :
    sys.Rejects addr size writing :=
  ⟨sys, by rw [translate, misalign]; rfl, rfl⟩

theorem not_rejects_of_aligned (aligned : misaligned addr size = false) :
    ¬ sys.Rejects addr size writing := by
  rintro ⟨after, done, -⟩
  rw [misaligned_of_addressError done] at aligned
  cases aligned

/-- The page table of an address space has no more entries than the program has
pages. -/
def PagesLimited (view : TranslationView) : Prop :=
  ∀ id space, view.spaces id = some space → space.numPages ≤ space.realNumPages

theorem numPages_le_realNumPages (noffH : NoffHeader) :
    noffH.numPages ≤ noffH.realNumPages := by
  unfold NoffHeader.numPages
  split <;> omega

theorem Lookup.pagesLimited {id vpn : Nat} {mapping : Mapping} {view : TranslationView}
    (limited : PagesLimited sys.view) (found : sys.Lookup id vpn mapping view) :
    PagesLimited view := by
  cases found <;> exact limited

theorem Transition.pagesLimited {action : Action} {view : TranslationView}
    (limited : PagesLimited sys.view) (moved : sys.Transition action view) :
    PagesLimited view := by
  cases moved with
  | @start program frames bitmap found =>
      intro id space isSpace
      by_cases created : id = sys.view.allocated
      · have length : frames.length = program.header.numPages := by
          rw [← BitMap.length_findEach sys.bitmap program.header.numPages, found]
        simp only [TranslationView.create, created, Function.update_self,
          Option.some.injEq] at isSpace
        rw [← isSpace]
        exact le_of_eq_of_le length (numPages_le_realNumPages program.header)
      · simp only [TranslationView.create, Function.update_of_ne created] at isSpace
        exact limited id space isSpace
  | idle => exact limited
  | activate => exact limited
  | read running found => exact found.pagesLimited limited
  | write running found => exact found.pagesLimited limited
  | pageFault => exact limited
  | @destroy id =>
      intro other space isSpace
      by_cases deleted : other = id
      · simp [TranslationView.remove, deleted] at isSpace
      · simp only [TranslationView.remove, Function.update_of_ne deleted] at isSpace
        exact limited other space isSpace

/-- What becomes of an access outside the running program.  It is rejected if it is
misaligned and not otherwise: one that misses the translation buffer and is
translated takes an entry of the page table for its page, and frees the frame of the
old entry. -/
def RejectsMisalignedOnly (sys : UserSystem) : Prop :=
  ∀ (id : Nat) (space : AddrSpace) (addr : CInt) (size : Nat) (writing : Bool),
    sys.current = some id → sys.spaces id = some space →
    space.realNumPages ≤ addr.toNat / pageSize →
    (sys.Rejects addr size writing ↔ misaligned addr size = true) ∧
    ∀ (physicalAddress : Int) (after : UserSystem),
      sys.view.findTLB (addr.toNat / pageSize) = none →
      sys.translate addr size writing = .ok (.ok physicalAddress, after) →
      physicalAddress = wrapInt addr.toNat ∧
        ∃ table frame freed slot, sys.view.tables id = some table ∧
          after.view = (sys.view.replace id table frame (addr.toNat / pageSize) freed).fill
            slot (TranslationView.faulted (addr.toNat / pageSize))

theorem rejectsMisalignedOnly_along_run (useSwap : Bool) (memory : BootMemory)
    (actions : List Action) :
    AlongRun (step useSwap) RejectsMisalignedOnly (boot memory) actions := by
  have preserved : ∀ (sys : UserSystem) (action : Action) (after : UserSystem),
      sys.view.WellFormed ∧ PagesLimited sys.view → step useSwap sys action = .ok after →
        after.view.WellFormed ∧ PagesLimited after.view := by
    rintro sys action after ⟨formed, limited⟩ stepped
    have moved := step_transition formed stepped
    exact ⟨moved.wellFormed formed, moved.pagesLimited limited⟩
  have none : PagesLimited (boot memory).view := fun _ _ isSpace => nomatch isSpace
  have initial := And.intro (wellFormed_boot memory) none
  apply (alongRun_of_preserved preserved initial).mono
  rintro sys ⟨formed, limited⟩ id space addr size writing running isSpace outside
  constructor
  · constructor
    · rintro ⟨after, done, -⟩
      exact misaligned_of_addressError done
    · exact rejects_of_misaligned
  · intro physicalAddress after missed done
    exact translate_outside formed running isSpace
      ((limited id space isSpace).trans outside) missed done

set_option maxRecDepth 4000 in
/-- The program has nine pages.  An access to page 9 is translated, and one to page
5000 stops the kernel. -/
theorem not_rejects_outside :
    ∃ sys, run (step false) (boot .zero) [.start .oneInstruction] = .ok sys ∧
      sys.current = some 0 ∧ (sys.spaces 0).map AddrSpace.realNumPages = some 9 ∧
      (sys.translate 1152 4 false).map Prod.fst = .ok (.ok 1152) ∧
      (sys.translate 640000 4 false).map Prod.fst = .error .assertion ∧
      ¬ sys.Rejects 1152 4 false ∧ ¬ sys.Rejects 640000 4 false := by
  have started : (run (step false) (boot .zero) [.start .oneInstruction]).map
      (fun sys => (sys.current, (sys.spaces 0).map AddrSpace.realNumPages)) =
        .ok (some 0, some 9) := by
    decide +kernel
  have inside : (run (step false) (boot .zero) [.start .oneInstruction]).map
      (fun sys => (sys.translate 1152 4 false).map Prod.fst) = .ok (.ok (.ok 1152)) := by
    decide +kernel
  have beyond : (run (step false) (boot .zero) [.start .oneInstruction]).map
      (fun sys => (sys.translate 640000 4 false).map Prod.fst) = .ok (.error .assertion) := by
    decide +kernel
  cases done : run (step false) (boot .zero) [.start .oneInstruction] with
  | error fault =>
      rw [done] at started
      cases started
  | ok sys =>
      rw [done] at started inside beyond
      simp only [Except.map, Except.ok.injEq, Prod.mk.injEq] at started
      exact ⟨sys, rfl, started.1, started.2, Except.ok.inj inside, Except.ok.inj beyond,
        not_rejects_of_aligned (by decide), not_rejects_of_aligned (by decide)⟩

end UserSystem

end Nachos
