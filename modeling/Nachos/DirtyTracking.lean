import Nachos.DirtyBits
import Nachos.TlbUniqueness

/-!
# Dirty bits that are lost

A write that hits the translation buffer is recorded there only.  `UpdateTLB` copies
an entry over such a slot without writing its dirty bit back to the page table, and
then nothing says any more that the page was written.  The history of an address space
tells which pages that would matter for.
-/

namespace Nachos

open TransitionRuns

/-- The history of the pages of an address space. -/
structure DirtyHistory where
  /-- The index in the page table where the current mapping of a page was installed. -/
  installed : Nat → Option Nat
  /-- The pages written since then. -/
  written : List Nat

namespace DirtyHistory

/-- The history of a new address space. -/
def fresh (numPages : Nat) : DirtyHistory where
  installed vpn := if vpn < numPages then some vpn else none
  written := []

/-- A mapping of page `vpn` is installed at an index, in the place of another one. -/
def install (history : DirtyHistory) (vpn index : Nat) : DirtyHistory where
  installed page :=
    if page = vpn then some index
    else if history.installed page = some index then none
    else history.installed page
  written := history.written.filter fun page =>
    page ≠ vpn ∧ history.installed page ≠ some index

/-- An access to a page, which matters only while the page has a mapping. -/
def access (history : DirtyHistory) (vpn : Nat) (writing : Bool) : DirtyHistory :=
  if writing && (history.installed vpn).isSome then
    { history with written := vpn :: history.written }
  else history

@[simp]
theorem installed_access (history : DirtyHistory) (vpn : Nat) (writing : Bool) :
    (history.access vpn writing).installed = history.installed := by
  unfold access
  split <;> rfl

theorem mem_written_access (history : DirtyHistory) (vpn : Nat) (writing : Bool)
    (page : Nat) :
    page ∈ (history.access vpn writing).written ↔
      page ∈ history.written ∨
        (page = vpn ∧ writing = true ∧ (history.installed vpn).isSome = true) := by
  unfold access
  split
  next both =>
    simp only [Bool.and_eq_true] at both
    simp only [List.mem_cons, both, and_true]
    exact Or.comm
  next neither =>
    simp only [Bool.and_eq_true] at neither
    simp [neither]

theorem installed_install_self (history : DirtyHistory) (vpn index : Nat) :
    (history.install vpn index).installed vpn = some index :=
  if_pos rfl

theorem installed_install_of_ne (history : DirtyHistory) {vpn page : Nat}
    (different : page ≠ vpn) (index other : Nat) :
    (history.install vpn index).installed page = some other ↔
      history.installed page = some other ∧ other ≠ index := by
  simp only [install, if_neg different]
  split
  next replaced =>
    rw [replaced]
    simp only [reduceCtorEq, Option.some.injEq, false_iff, not_and, not_not]
    exact Eq.symm
  next kept =>
    constructor
    · intro isOther
      refine ⟨isOther, ?_⟩
      rintro rfl
      exact kept isOther
    · exact And.left

theorem mem_written_install (history : DirtyHistory) (vpn index page : Nat) :
    page ∈ (history.install vpn index).written ↔
      page ∈ history.written ∧ page ≠ vpn ∧ history.installed page ≠ some index := by
  simp [install]

end DirtyHistory

/-- The translation buffer and the page table of the running address space, with its
history. -/
structure DirtyState where
  tlb : Fin tlbSize → PageState
  table : List PageState
  history : DirtyHistory

namespace DirtyState

/-- The page-table entry of a page. -/
def entry (state : DirtyState) (vpn : Nat) : Option PageState :=
  (state.history.installed vpn).bind fun index => state.table[index]?

/-- The dirty bit of a page is set in its page-table entry or in a valid slot. -/
def MarkedDirty (state : DirtyState) (vpn : Nat) : Prop :=
  (state.entry vpn).any PageState.dirty = true ∨
    ∃ slot, (state.tlb slot).valid = true ∧ (state.tlb slot).virtualPage = vpn ∧
      (state.tlb slot).dirty = true

instance (state : DirtyState) (vpn : Nat) : Decidable (state.MarkedDirty vpn) :=
  inferInstanceAs (Decidable (_ ∨ ∃ _, _))

/-- Every page that was written since its mapping was installed is marked. -/
def Recorded (state : DirtyState) : Prop :=
  ∀ vpn ∈ state.history.written, state.MarkedDirty vpn

instance (state : DirtyState) : Decidable state.Recorded :=
  inferInstanceAs (Decidable (∀ _ ∈ _, _))

/-- A slot may be overwritten: if it says that a page was written, then so does the
page-table entry of this page, or this entry is being replaced too. -/
def MayOverwrite (state : DirtyState) (slot : Fin tlbSize) (replaced : Option Nat) :
    Prop :=
  (state.tlb slot).valid = true → (state.tlb slot).dirty = true →
    ∀ index ∈ state.history.installed (state.tlb slot).virtualPage,
      (state.table[index]?).any PageState.dirty = true ∨ replaced = some index

instance (state : DirtyState) (slot : Fin tlbSize) (replaced : Option Nat) :
    Decidable (state.MayOverwrite slot replaced) :=
  inferInstanceAs (Decidable (_ → _ → ∀ _ ∈ _, _))

/-- The history agrees with the page table, and a slot is dirty only for pages that
were written or have a dirty entry. -/
structure Consistent (state : DirtyState) : Prop where
  entry : ∀ {vpn index}, state.history.installed vpn = some index →
    ∃ page, state.table[index]? = some page ∧ page.virtualPage = vpn
  own : ∀ {vpn page}, state.table[vpn]? = some page → page.virtualPage = vpn →
    state.history.installed vpn = some vpn
  written : ∀ {vpn}, vpn ∈ state.history.written →
    ∃ index, state.history.installed vpn = some index
  dirty : ∀ {slot index}, (state.tlb slot).valid = true → (state.tlb slot).dirty = true →
    state.history.installed (state.tlb slot).virtualPage = some index →
      (state.table[index]?).any PageState.dirty = true ∨
        (state.tlb slot).virtualPage ∈ state.history.written

variable {before after : DirtyState} {vpn : Nat} {slot : Fin tlbSize} {writing : Bool}

theorem entry_eq {index : Nat} (isInstalled : before.history.installed vpn = some index) :
    before.entry vpn = before.table[index]? := by
  rw [entry, isInstalled, Option.bind_some]

section Hit

/-- An access that hits a slot. -/
structure Hit (before after : DirtyState) (vpn : Nat) (slot : Fin tlbSize)
    (writing : Bool) : Prop where
  valid : (before.tlb slot).valid = true
  page : (before.tlb slot).virtualPage = vpn
  tlb : after.tlb = Function.update before.tlb slot ((before.tlb slot).mark writing)
  table : after.table = before.table
  history : after.history = before.history.access vpn writing

/-- No slot gets another page, and none loses its dirty bit. -/
theorem Hit.slots (hit : Hit before after vpn slot writing) (other : Fin tlbSize) :
    (after.tlb other).valid = (before.tlb other).valid ∧
      (after.tlb other).virtualPage = (before.tlb other).virtualPage ∧
      ((after.tlb other).dirty = true ↔ (before.tlb other).dirty = true ∨
        (other = slot ∧ writing = true)) := by
  rw [hit.tlb]
  by_cases same : other = slot
  · subst same
    simp [PageState.mark]
  · simp [same]

theorem Hit.consistent (hit : Hit before after vpn slot writing)
    (consistent : before.Consistent) : after.Consistent where
  entry isInstalled := by
    rw [hit.history, DirtyHistory.installed_access] at isInstalled
    rw [hit.table]
    exact consistent.entry isInstalled
  own isPage isVpn := by
    rw [hit.table] at isPage
    rw [hit.history, DirtyHistory.installed_access]
    exact consistent.own isPage isVpn
  written member := by
    rw [hit.history, DirtyHistory.installed_access]
    rw [hit.history, DirtyHistory.mem_written_access] at member
    rcases member with old | ⟨rfl, -, isSome⟩
    · exact consistent.written old
    · exact Option.isSome_iff_exists.mp isSome
  dirty {other index} valid dirty isInstalled := by
    obtain ⟨sameValid, samePage, sameDirty⟩ := hit.slots other
    rw [hit.history, DirtyHistory.installed_access, samePage] at isInstalled
    rw [hit.table, samePage, hit.history, DirtyHistory.mem_written_access]
    rcases sameDirty.mp dirty with old | ⟨rfl, isWriting⟩
    · exact (consistent.dirty (sameValid ▸ valid) old isInstalled).imp_right Or.inl
    · right
      right
      rw [hit.page] at isInstalled ⊢
      exact ⟨rfl, isWriting, by rw [isInstalled]; rfl⟩

theorem Hit.recorded (hit : Hit before after vpn slot writing)
    (recorded : before.Recorded) : after.Recorded := by
  intro page member
  rw [hit.history, DirtyHistory.mem_written_access] at member
  rcases member with old | ⟨rfl, isWriting, -⟩
  · rcases recorded page old with inTable | ⟨other, valid, isPage, dirty⟩
    · left
      rw [entry, hit.history, DirtyHistory.installed_access, hit.table]
      exact inTable
    · obtain ⟨sameValid, samePage, sameDirty⟩ := hit.slots other
      exact Or.inr ⟨other, sameValid.trans valid, samePage.trans isPage,
        sameDirty.mpr (Or.inl dirty)⟩
  · obtain ⟨sameValid, samePage, sameDirty⟩ := hit.slots slot
    exact Or.inr ⟨slot, sameValid.trans hit.valid, samePage.trans hit.page,
      sameDirty.mpr (Or.inr ⟨rfl, isWriting⟩)⟩

end Hit

section Refill

/-- An access that misses: an entry for page `vpn` is marked in the page table, where it
may have replaced another one, and is copied to a slot. -/
structure Refill (before after : DirtyState) (vpn : Nat) (slot : Fin tlbSize) (index : Nat)
    (page : PageState) (replaced : Option Nat) : Prop where
  missed : ∀ other, (before.tlb other).valid = true → (before.tlb other).virtualPage ≠ vpn
  isVpn : page.virtualPage = vpn
  inside : index < before.table.length
  tlb : after.tlb = Function.update before.tlb slot page
  table : after.table = before.table.set index page
  absent : index ≠ vpn → ∀ old, before.table[vpn]? = some old → old.virtualPage ≠ vpn
  isReplaced : ∀ position ∈ replaced, position = index
  present : replaced = none → ∃ old, before.table[index]? = some old ∧ old.virtualPage = vpn
  installed : after.history.installed vpn = some index
  others : ∀ other ≠ vpn, ∀ position, after.history.installed other = some position ↔
    before.history.installed other = some position ∧ position ≠ index
  writtenOthers : ∀ other ≠ vpn, other ∈ after.history.written ↔
    other ∈ before.history.written ∧ before.history.installed other ≠ some index
  written : vpn ∈ after.history.written → page.dirty = true

variable {index : Nat} {page : PageState} {replaced : Option Nat}

theorem Refill.getElem?_self (refill : Refill before after vpn slot index page replaced) :
    after.table[index]? = some page := by
  rw [refill.table, List.getElem?_set_self refill.inside]

theorem Refill.getElem?_of_ne (refill : Refill before after vpn slot index page replaced)
    {position : Nat} (different : position ≠ index) :
    after.table[position]? = before.table[position]? := by
  rw [refill.table, List.getElem?_set_ne different.symm]

theorem Refill.consistent (refill : Refill before after vpn slot index page replaced)
    (consistent : before.Consistent) : after.Consistent where
  entry {other position} isInstalled := by
    by_cases same : other = vpn
    · subst same
      obtain rfl : index = position :=
        Option.some.inj (refill.installed.symm.trans isInstalled)
      exact ⟨page, refill.getElem?_self, refill.isVpn⟩
    · obtain ⟨wasInstalled, different⟩ := (refill.others other same position).mp isInstalled
      rw [refill.getElem?_of_ne different]
      exact consistent.entry wasInstalled
  own {other found} isFound isOther := by
    by_cases replaced : other = index
    · subst replaced
      obtain rfl : page = found := Option.some.inj (refill.getElem?_self.symm.trans isFound)
      obtain rfl : vpn = other := refill.isVpn.symm.trans isOther
      exact refill.installed
    · rw [refill.getElem?_of_ne replaced] at isFound
      by_cases same : other = vpn
      · subst same
        exact absurd isOther (refill.absent (Ne.symm replaced) found isFound)
      · exact (refill.others other same other).mpr ⟨consistent.own isFound isOther, replaced⟩
  written {other} member := by
    by_cases same : other = vpn
    · subst same
      exact ⟨index, refill.installed⟩
    · obtain ⟨wasWritten, kept⟩ := (refill.writtenOthers other same).mp member
      obtain ⟨position, wasInstalled⟩ := consistent.written wasWritten
      refine ⟨position, (refill.others other same position).mpr ⟨wasInstalled, ?_⟩⟩
      rintro rfl
      exact kept wasInstalled
  dirty {other position} valid dirty isInstalled := by
    by_cases filled : other = slot
    · subst filled
      rw [refill.tlb, Function.update_self] at dirty isInstalled
      rw [refill.isVpn, refill.installed] at isInstalled
      obtain rfl := Option.some.inj isInstalled
      left
      rw [refill.getElem?_self]
      exact dirty
    · rw [refill.tlb, Function.update_of_ne filled] at valid dirty isInstalled ⊢
      have different := refill.missed other valid
      obtain ⟨wasInstalled, kept⟩ := (refill.others _ different position).mp isInstalled
      rw [refill.getElem?_of_ne kept, refill.writtenOthers _ different]
      refine (consistent.dirty valid dirty wasInstalled).imp_right fun wasWritten => ?_
      refine ⟨wasWritten, fun isIndex => kept ?_⟩
      exact Option.some.inj (wasInstalled.symm.trans isIndex)

/-- A page other than the new one stays marked, unless its only mark was in the slot. -/
theorem Refill.markedDirty (refill : Refill before after vpn slot index page replaced)
    {other : Nat} (different : other ≠ vpn)
    (kept : before.history.installed other ≠ some index)
    (wasMarked : (before.entry other).any PageState.dirty = true ∨
      ∃ position, position ≠ slot ∧ (before.tlb position).valid = true ∧
        (before.tlb position).virtualPage = other ∧ (before.tlb position).dirty = true) :
    after.MarkedDirty other := by
  rcases wasMarked with inTable | ⟨position, elsewhere, valid, isPage, dirty⟩
  · left
    rw [entry] at inTable
    cases isInstalled : before.history.installed other with
    | none => simp [isInstalled] at inTable
    | some position =>
        have apart : position ≠ index := by
          rintro rfl
          exact kept isInstalled
        rw [entry_eq ((refill.others other different position).mpr ⟨isInstalled, apart⟩),
          refill.getElem?_of_ne apart]
        simpa [isInstalled] using inTable
  · right
    refine ⟨position, ?_⟩
    rw [refill.tlb, Function.update_of_ne elsewhere]
    exact ⟨valid, isPage, dirty⟩

theorem Refill.recorded (refill : Refill before after vpn slot index page replaced)
    (consistent : before.Consistent) (recorded : before.Recorded)
    (safe : before.MayOverwrite slot replaced) : after.Recorded := by
  intro other member
  by_cases same : other = vpn
  · subst same
    left
    rw [entry_eq refill.installed, refill.getElem?_self]
    exact refill.written member
  · obtain ⟨wasWritten, kept⟩ := (refill.writtenOthers other same).mp member
    apply refill.markedDirty same kept
    rcases recorded other wasWritten with inTable | ⟨position, valid, isPage, dirty⟩
    · exact Or.inl inTable
    · by_cases overwritten : position = slot
      · subst overwritten
        obtain ⟨position, isInstalled⟩ := consistent.written wasWritten
        have excused := safe valid dirty
        rw [isPage] at excused
        left
        rw [entry_eq isInstalled]
        rcases excused position isInstalled with inTable | gone
        · exact inTable
        · rw [refill.isReplaced position gone] at isInstalled
          exact absurd isInstalled kept
      · exact Or.inr ⟨position, overwritten, valid, isPage, dirty⟩

/-- Overwriting a slot that alone says that its page was written loses this. -/
theorem Refill.not_recorded (refill : Refill before after vpn slot index page replaced)
    (consistent : before.Consistent)
    (once : ∀ first second, (before.tlb first).valid = true →
      (before.tlb second).valid = true →
      (before.tlb first).virtualPage = (before.tlb second).virtualPage → first = second)
    (loses : ¬ before.MayOverwrite slot replaced) : ¬ after.Recorded := by
  simp only [MayOverwrite, not_forall, not_or, Option.mem_def] at loses
  obtain ⟨valid, dirty, position, isInstalled, clean, notReplaced⟩ := loses
  generalize isLost : (before.tlb slot).virtualPage = lost at isInstalled
  have different : lost ≠ vpn := isLost ▸ refill.missed slot valid
  have apart : position ≠ index := by
    rintro rfl
    cases isReplaced : replaced with
    | some found =>
        have same := refill.isReplaced found isReplaced
        exact notReplaced (by rw [isReplaced, same])
    | none =>
        obtain ⟨old, isOld, isVpn⟩ := refill.present isReplaced
        obtain ⟨found, isFound, isLostPage⟩ := consistent.entry isInstalled
        obtain rfl : old = found := Option.some.inj (isOld.symm.trans isFound)
        exact different (isLostPage.symm.trans isVpn)
  have wasWritten : lost ∈ before.history.written := by
    rw [← isLost] at isInstalled ⊢
    exact (consistent.dirty valid dirty isInstalled).resolve_left clean
  have isWritten : lost ∈ after.history.written := by
    refine (refill.writtenOthers lost different).mpr ⟨wasWritten, fun isIndex => apart ?_⟩
    exact Option.some.inj (isInstalled.symm.trans isIndex)
  intro recorded
  rcases recorded lost isWritten with inTable | ⟨other, otherValid, isPage, -⟩
  · rw [entry_eq ((refill.others lost different position).mpr ⟨isInstalled, apart⟩),
      refill.getElem?_of_ne apart] at inTable
    exact clean inTable
  · rw [refill.tlb] at otherValid isPage
    by_cases filled : other = slot
    · rw [filled, Function.update_self, refill.isVpn] at isPage
      exact different isPage.symm
    · rw [Function.update_of_ne filled] at otherValid isPage
      exact filled (once other slot otherValid valid (isPage.trans isLost.symm))

/-- The access loads the entry of the page, which is at the index of the page. -/
theorem Refill.of_load (consistent : before.Consistent) (recorded : before.Recorded)
    (missed : ∀ other, (before.tlb other).valid = true →
      (before.tlb other).virtualPage ≠ vpn)
    (isPage : before.table[vpn]? = some page) (isVpn : page.virtualPage = vpn) :
    Refill before ⟨Function.update before.tlb slot (page.mark writing),
      before.table.set vpn (page.mark writing), before.history.access vpn writing⟩
        vpn slot vpn (page.mark writing) none := by
  have isInstalled : before.history.installed vpn = some vpn := consistent.own isPage isVpn
  -- Only this page is installed at its index.
  have apart : ∀ other ≠ vpn, before.history.installed other ≠ some vpn := by
    intro other different isIndex
    obtain ⟨found, isFound, isOther⟩ := consistent.entry isIndex
    obtain rfl : page = found := Option.some.inj (isPage.symm.trans isFound)
    exact different (isOther.symm.trans isVpn)
  obtain ⟨inside, -⟩ := List.getElem?_eq_some_iff.mp isPage
  constructor
  · exact missed
  · exact isVpn
  · exact inside
  · rfl
  · rfl
  · exact fun different => absurd rfl different
  · exact fun position isPosition => nomatch isPosition
  · exact fun _ => ⟨page, isPage, isVpn⟩
  · rw [DirtyHistory.installed_access, isInstalled]
  · intro other different position
    rw [DirtyHistory.installed_access, iff_self_and]
    rintro isPosition rfl
    exact apart other different isPosition
  · intro other different
    rw [DirtyHistory.mem_written_access]
    simp [different, apart other different]
  · intro member
    rw [DirtyHistory.mem_written_access] at member
    rcases member with old | ⟨-, isWriting, -⟩
    · rcases recorded vpn old with inTable | ⟨other, valid, isOther, -⟩
      · rw [entry_eq isInstalled] at inTable
        simp only [isPage, Option.any_some] at inTable
        simp [PageState.mark, inTable]
      · exact absurd isOther (missed other valid)
    · simp [PageState.mark, isWriting]

/-- The access puts an entry of the page in the place of another one. -/
theorem Refill.of_fault
    (missed : ∀ other, (before.tlb other).valid = true →
      (before.tlb other).virtualPage ≠ vpn)
    (absent : ∀ old, before.table[vpn]? = some old → old.virtualPage ≠ vpn)
    (inside : index < before.table.length) :
    Refill before ⟨Function.update before.tlb slot ((PageState.faulted vpn).mark writing),
      before.table.set index ((PageState.faulted vpn).mark writing),
      (before.history.install vpn index).access vpn writing⟩
        vpn slot index ((PageState.faulted vpn).mark writing) (some index) := by
  constructor
  · exact missed
  · rfl
  · exact inside
  · rfl
  · rfl
  · exact fun _ => absent
  · exact fun position isPosition => (Option.some.inj isPosition).symm
  · exact fun nothing => nomatch nothing
  · rw [DirtyHistory.installed_access, DirtyHistory.installed_install_self]
  · intro other different position
    rw [DirtyHistory.installed_access]
    exact DirtyHistory.installed_install_of_ne _ different index position
  · intro other different
    rw [DirtyHistory.mem_written_access, DirtyHistory.mem_written_install]
    simp [different]
  · intro member
    rw [DirtyHistory.mem_written_access, DirtyHistory.mem_written_install] at member
    rcases member with ⟨-, different, -⟩ | ⟨-, isWriting, -⟩
    · exact absurd rfl different
    · simp [PageState.mark, isWriting]

end Refill

end DirtyState

/-- A memory access of a program. -/
inductive Access where
  | read (addr : CInt) (size : Nat)
  | write (addr : CInt) (size : Nat) (value : CInt)

namespace Access

def vpn : Access → Nat
  | read addr _ => addr.toNat / pageSize
  | write addr _ _ => addr.toNat / pageSize

def writing : Access → Bool
  | read _ _ => false
  | write _ _ _ => true

def action : Access → UserSystem.Action
  | read addr size => .read addr size
  | write addr size value => .write addr size value

end Access

/-- The index of the page-table entry that an access replaces. -/
def UserSystem.replaced (sys : UserSystem) (vpn : Nat) : Option Nat :=
  if sys.view.findTLB vpn = none ∧ sys.view.present vpn = false then
    sys.replacementFrame.toOption
  else none

/-- A system in which one address space runs, with the history of its pages. -/
structure Tracked where
  sys : UserSystem
  history : DirtyHistory

namespace Tracked

def state (tracked : Tracked) : DirtyState where
  tlb := tracked.sys.tlbStates
  table := tracked.sys.machine.pageTable.elim [] tracked.sys.tableStates
  history := tracked.history

/-- The history after an access. -/
def record (tracked : Tracked) (access : Access) : DirtyHistory :=
  (match tracked.sys.replaced access.vpn with
    | some index => tracked.history.install access.vpn index
    | none => tracked.history).access access.vpn access.writing

/-- A program is started, and nothing else runs. -/
def start (useSwap : Bool) (memory : BootMemory) (program : Program) :
    Except Fault Tracked := do
  let sys ← UserSystem.step useSwap (.boot memory) (.start program)
  return ⟨sys, .fresh sys.machine.pageTableSize⟩

def step (useSwap : Bool) (tracked : Tracked) (access : Access) : Except Fault Tracked := do
  let sys ← UserSystem.step useSwap tracked.sys access.action
  return ⟨sys, tracked.record access⟩

/-- The dirty bit of every page written since its mapping was installed is set. -/
def DirtyRecorded (tracked : Tracked) : Prop :=
  tracked.state.Recorded

instance (tracked : Tracked) : Decidable tracked.DirtyRecorded :=
  inferInstanceAs (Decidable tracked.state.Recorded)

/-- The access hits the translation buffer, or the slot that `UpdateTLB` fills may be
overwritten. -/
def KeepsDirty (tracked : Tracked) (access : Access) : Prop :=
  tracked.sys.view.findTLB access.vpn = none →
    ∀ slot : Fin tlbSize, tracked.sys.machine.chooseTLB.1 = slot.val →
      tracked.state.MayOverwrite slot (tracked.sys.replaced access.vpn)

instance (tracked : Tracked) (access : Access) : Decidable (tracked.KeepsDirty access) :=
  inferInstanceAs (Decidable (_ → ∀ _, _))

/-- What the runs keep. -/
structure Sound (tracked : Tracked) : Prop where
  formed : tracked.sys.view.WellFormed
  once : tracked.sys.view.HoldsOnce
  running : ∃ id, tracked.sys.current = some id
  consistent : tracked.state.Consistent
  recorded : tracked.state.Recorded

variable {useSwap : Bool} {tracked after : Tracked} {access : Access}

/-- A completed access translates its address, and its memory access changes neither
the translation buffer nor the page tables. -/
theorem access_eq_ok {sys after : UserSystem}
    (done : UserSystem.step useSwap sys access.action = .ok after) :
    ∃ addr size physicalAddress translated,
      access.vpn = addr.toNat / pageSize ∧
      sys.translate addr size access.writing = .ok (.ok physicalAddress, translated) ∧
      after.view = translated.view ∧ after.tlbStates = translated.tlbStates ∧
      after.tableStates = translated.tableStates := by
  cases access with
  | read addr size =>
      obtain ⟨id, -, done⟩ := bind_eq_ok_iff.mp done
      obtain ⟨⟨result, read⟩, reading, done⟩ := bind_eq_ok_iff.mp done
      obtain ⟨physicalAddress, translated, data, machine, translating, -, fetched, -,
        rfl⟩ := UserSystem.readMem_eq_ok reading
      obtain ⟨disk, rfl⟩ := Machine.fetch_eq_ok fetched
      cases done
      exact ⟨addr, size, physicalAddress, translated, rfl, translating, rfl, rfl, rfl⟩
  | write addr size value =>
      obtain ⟨id, -, done⟩ := bind_eq_ok_iff.mp done
      obtain ⟨⟨result, written⟩, writing, done⟩ := bind_eq_ok_iff.mp done
      obtain ⟨physicalAddress, translated, machine, translating, -, stored, -, rfl⟩ :=
        UserSystem.writeMem_eq_ok writing
      obtain ⟨mainMemory, disk, swap, rfl⟩ := Machine.store_eq_machine stored
      cases done
      exact ⟨addr, size, physicalAddress, translated, rfl, translating, rfl, rfl, rfl⟩

theorem Sound.state_eq (sound : tracked.Sound) {id : Nat}
    (running : tracked.sys.current = some id) :
    tracked.state = ⟨tracked.sys.tlbStates, tracked.sys.tableStates id, tracked.history⟩ := by
  obtain ⟨space, -, isPageTable, -⟩ := sound.formed.running running
  have pointer : tracked.sys.machine.pageTable = some id := isPageTable
  rw [state, pointer, Option.elim_some]

/-- A slot that the search did not find does not hold the page. -/
theorem ne_of_missed {vpn : Nat} (missed : tracked.sys.view.findTLB vpn = none)
    (slot : Fin tlbSize) (valid : (tracked.sys.tlbStates slot).valid = true) :
    (tracked.sys.tlbStates slot).virtualPage ≠ vpn := by
  intro same
  exact TranslationView.findTLB_eq_none_iff.mp missed slot ⟨valid, same⟩

/-- The entry at the index of a page is one of this page exactly when the page is
present. -/
theorem present_iff {sys : UserSystem} {id vpn : Nat} {page : PageState}
    (formed : sys.view.WellFormed) (running : sys.current = some id)
    (isPage : (sys.tableStates id)[vpn]? = some page) :
    sys.view.present vpn = true ↔ page.virtualPage = vpn := by
  obtain ⟨space, isSpace, isPageTable, isSize⟩ := formed.running running
  obtain ⟨-, table, isTable, length⟩ := formed.space isSpace
  have same := @UserSystem.getElem?_tableStates sys id table vpn isTable
  rw [isPage] at same
  cases isMapping : table[vpn]? with
  | none => simp [isMapping] at same
  | some mapping =>
      obtain ⟨inside, -⟩ := List.getElem?_eq_some_iff.mp isMapping
      obtain ⟨isValid, -⟩ := formed.valid isTable mapping (List.mem_of_getElem? isMapping)
      simp only [isMapping, Option.map_some, Option.some.injEq, Prod.mk.injEq] at same
      have bound : vpn < sys.view.pageTableSize := by omega
      simp [TranslationView.present, isPageTable, isTable, isMapping, isValid, same.1, bound]

/-- An access hits a slot or refills one. -/
theorem Sound.step_cases (sound : tracked.Sound)
    (done : tracked.step useSwap access = .ok after) :
    (∃ slot, tracked.sys.view.findTLB access.vpn = some slot ∧
      tracked.state.Hit after.state access.vpn slot access.writing) ∨
    ∃ slot index page, tracked.sys.view.findTLB access.vpn = none ∧
      tracked.sys.machine.chooseTLB.1 = Fin.val slot ∧
      tracked.state.Refill after.state access.vpn slot index page
        (tracked.sys.replaced access.vpn) := by
  obtain ⟨sys, stepped, done⟩ := bind_eq_ok_iff.mp done
  cases done
  obtain ⟨id, running⟩ := sound.running
  obtain ⟨addr, size, physicalAddress, translated, isVpn, translating, view, tlb, tables⟩ :=
    access_eq_ok stepped
  obtain ⟨-, mapping, found, -⟩ := UserSystem.translate_eq_ok sound.formed running translating
  obtain ⟨space, -, isPageTable, -⟩ := sound.formed.running running
  have pointer : sys.machine.pageTable = some id := by
    have kept := found.keeps.2
    rw [← view] at kept
    exact kept.trans isPageTable
  have before := sound.state_eq running
  have later : (⟨sys, tracked.record access⟩ : Tracked).state =
      ⟨translated.tlbStates, translated.tableStates id, tracked.record access⟩ := by
    simp only [state, pointer, Option.elim_some, tlb, tables]
  have marking := UserSystem.translate_marking sound.formed running translating
  rw [before, later]
  rw [← isVpn] at marking
  generalize translated.tlbStates = slots at marking
  generalize translated.tableStates id = table at marking
  have consistent := sound.consistent
  have recorded := sound.recorded
  rw [before] at consistent recorded
  cases marking with
  | @hit slot isSlot =>
      left
      have holds := TranslationView.holds_of_findTLB isSlot
      refine ⟨slot, isSlot, holds.1, holds.2, rfl, rfl, ?_⟩
      simp [record, UserSystem.replaced, isSlot]
  | @load slot page missed present chosen isPage =>
      right
      have isVpnPage := (present_iff sound.formed running isPage).mp present
      have notReplaced : tracked.sys.replaced access.vpn = none := by
        simp [UserSystem.replaced, present]
      rw [record, notReplaced]
      exact ⟨slot, access.vpn, page.mark access.writing, missed, chosen,
        .of_load consistent recorded (ne_of_missed missed) isPage isVpnPage⟩
  | @fault slot index missed absent chosen selected inside =>
      right
      have isReplaced : tracked.sys.replaced access.vpn = some index := by
        simp [UserSystem.replaced, missed, absent, selected, Except.toOption]
      have isAbsent : ∀ old, (tracked.sys.tableStates id)[access.vpn]? = some old →
          old.virtualPage ≠ access.vpn := by
        intro old isOld isVpnPage
        have present := (present_iff sound.formed running isOld).mpr isVpnPage
        rw [absent] at present
        cases present
      rw [record, isReplaced]
      exact ⟨slot, index, (PageState.faulted access.vpn).mark access.writing, missed, chosen,
        .of_fault (ne_of_missed missed) isAbsent inside⟩

theorem Sound.sys_step (sound : tracked.Sound)
    (done : tracked.step useSwap access = .ok after) :
    after.sys.view.WellFormed ∧ after.sys.view.HoldsOnce ∧
      ∃ id, after.sys.current = some id := by
  obtain ⟨sys, stepped, done⟩ := bind_eq_ok_iff.mp done
  cases done
  have moved := UserSystem.step_transition sound.formed stepped
  refine ⟨moved.wellFormed sound.formed, moved.holdsOnce sound.formed sound.once, ?_⟩
  obtain ⟨id, running⟩ := sound.running
  obtain ⟨addr, size, physicalAddress, translated, -, translating, view, -⟩ :=
    access_eq_ok stepped
  obtain ⟨-, mapping, found, -⟩ := UserSystem.translate_eq_ok sound.formed running translating
  have kept := found.keeps.1
  rw [← view] at kept
  exact ⟨id, kept.trans running⟩

theorem Sound.step (sound : tracked.Sound) (keeps : tracked.KeepsDirty access)
    (done : tracked.step useSwap access = .ok after) : after.Sound := by
  obtain ⟨formed, once, running⟩ := sound.sys_step done
  rcases sound.step_cases done with ⟨slot, -, hit⟩ | ⟨slot, index, page, missed, chosen, refill⟩
  · exact ⟨formed, once, running, hit.consistent sound.consistent, hit.recorded sound.recorded⟩
  · exact ⟨formed, once, running, refill.consistent sound.consistent,
      refill.recorded sound.consistent sound.recorded (keeps missed slot chosen)⟩

/-- An access that overwrites the only mark of a page loses it. -/
theorem Sound.not_recorded (sound : tracked.Sound) (loses : ¬ tracked.KeepsDirty access)
    (done : tracked.step useSwap access = .ok after) : ¬ after.DirtyRecorded := by
  simp only [KeepsDirty, not_forall] at loses
  obtain ⟨missed, slot, chosen, loses⟩ := loses
  rcases sound.step_cases done with ⟨other, isSlot, -⟩ |
    ⟨other, index, page, -, alsoChosen, refill⟩
  · cases missed.symm.trans isSlot
  · obtain rfl : slot = other := Fin.ext (chosen.symm.trans alsoChosen)
    apply refill.not_recorded sound.consistent _ loses
    intro first second validFirst validSecond same
    exact sound.once first second _ ⟨validFirst, same⟩ ⟨validSecond, rfl⟩

/-- When a program starts, every page has the entry at its own index. -/
theorem consistent_fresh {tlb : Fin tlbSize → PageState} {table : List PageState}
    (empty : ∀ slot, (tlb slot).valid = false)
    (pages : ∀ (vpn : Nat) (page : PageState), table[vpn]? = some page →
      page.virtualPage = vpn) :
    (⟨tlb, table, .fresh table.length⟩ : DirtyState).Consistent where
  entry {vpn index} isInstalled := by
    simp only [DirtyHistory.fresh] at isInstalled
    split at isInstalled
    next inside =>
      obtain rfl := Option.some.inj isInstalled
      exact ⟨table[vpn], List.getElem?_eq_getElem inside,
        pages vpn _ (List.getElem?_eq_getElem inside)⟩
    next => cases isInstalled
  own {vpn page} isPage _ := by
    obtain ⟨inside, -⟩ := List.getElem?_eq_some_iff.mp isPage
    exact if_pos inside
  written member := nomatch member
  dirty {slot} _ valid := by
    rw [empty slot] at valid
    cases valid

theorem sound_of_start {memory : BootMemory} {program : Program}
    (started : start useSwap memory program = .ok tracked) : tracked.Sound := by
  obtain ⟨sys, stepped, done⟩ := bind_eq_ok_iff.mp started
  cases done
  have moved := UserSystem.step_transition (UserSystem.wellFormed_boot memory) stepped
  have formed := moved.wellFormed (UserSystem.wellFormed_boot memory)
  have once := moved.holdsOnce (UserSystem.wellFormed_boot memory)
    (UserSystem.holdsOnce_boot memory)
  generalize isView : sys.view = view at moved
  cases moved with
  | @start program frames bitmap found =>
      have running : sys.current = some 0 := congrArg TranslationView.current isView
      have pointer : sys.machine.pageTable = some 0 :=
        congrArg TranslationView.pageTable isView
      have size : sys.machine.pageTableSize = frames.length :=
        congrArg TranslationView.pageTableSize isView
      have isTable : sys.view.tables 0 = some (frames.mapIdx TranslationView.fresh) := by
        rw [isView]
        exact Function.update_self (0 : Nat) (some _) fun _ => none
      have empty : ∀ slot, (sys.tlbStates slot).valid = false := by
        intro slot
        exact congrArg (fun view : TranslationView => (view.tlb slot).valid) isView
      have entries : ∀ index : Nat, ((sys.tableStates 0)[index]?).map
          (fun page => (page.virtualPage, page.valid)) =
            frames[index]?.map fun _ => (index, true) := by
        intro index
        rw [UserSystem.getElem?_tableStates isTable, List.getElem?_mapIdx, Option.map_map]
        rfl
      have pages : ∀ (vpn : Nat) (page : PageState), (sys.tableStates 0)[vpn]? = some page →
          page.virtualPage = vpn := by
        intro vpn page isPage
        have same := entries vpn
        rw [isPage, Option.map_some] at same
        obtain ⟨frame, -, isPair⟩ := Option.map_eq_some_iff.mp same.symm
        exact (congrArg Prod.fst isPair).symm
      have length : (sys.tableStates 0).length = frames.length := by
        simpa using congrArg List.length (UserSystem.map_tableStates isTable)
      have state : (⟨sys, .fresh sys.machine.pageTableSize⟩ : Tracked).state =
          ⟨sys.tlbStates, sys.tableStates 0, .fresh (sys.tableStates 0).length⟩ := by
        simp only [Tracked.state, pointer, Option.elim_some, size, length]
      refine ⟨formed, once, ⟨0, running⟩, ?_, ?_⟩
      · rw [state]
        exact consistent_fresh empty pages
      · intro vpn member
        cases member

/-- Along a run of a program, dirty information is kept exactly when no access overwrites
a valid dirty slot of a page whose entry in the page table is clean. -/
theorem dirtyRecorded_iff {memory : BootMemory} {program : Program}
    (started : start useSwap memory program = .ok tracked) (accesses : List Access) :
    AlongRun (Tracked.step useSwap) DirtyRecorded tracked accesses ↔
      RunAllowed (Tracked.step useSwap) KeepsDirty tracked accesses :=
  alongRun_iff_runAllowed (fun _ _ _ sound keeps done => sound.step keeps done)
    (fun _ sound => sound.recorded)
    (fun _ _ _ sound loses done => sound.not_recorded loses done) (sound_of_start started)

set_option maxRecDepth 4000 in
/-- A write that misses marks both entries. -/
theorem dirtyRecorded_example :
    ∃ tracked, start false .zero .oneInstruction = .ok tracked ∧
      AlongRun (Tracked.step false) DirtyRecorded tracked
        [.write 0 4 1, .read 128 4, .read 256 4, .read 384 4, .read 512 4] := by
  have allowed : (start false .zero .oneInstruction).map (fun tracked =>
      decide (RunAllowed (Tracked.step false) KeepsDirty tracked
        [.write 0 4 1, .read 128 4, .read 256 4, .read 384 4, .read 512 4])) = .ok true := by
    decide +kernel
  cases started : start false .zero .oneInstruction with
  | error fault =>
      rw [started] at allowed
      cases allowed
  | ok tracked =>
      rw [started] at allowed
      exact ⟨tracked, rfl, (dirtyRecorded_iff started _).mpr
        (of_decide_eq_true (Except.ok.inj allowed))⟩

set_option maxRecDepth 4000 in
/-- Four pages are read and then written, so that their slots are dirty and their
entries in the page table are not.  Reading a fifth page overwrites the first slot. -/
theorem dirty_lost :
    ∃ tracked, start false .zero .oneInstruction = .ok tracked ∧
      ¬ AlongRun (Tracked.step false) DirtyRecorded tracked
        [.read 0 4, .write 0 4 1, .read 128 4, .write 128 4 1, .read 256 4, .write 256 4 1,
          .read 384 4, .write 384 4 1, .read 512 4] := by
  have lost : (start false .zero .oneInstruction).map (fun tracked =>
      decide (AlongRun (Tracked.step false) DirtyRecorded tracked
        [.read 0 4, .write 0 4 1, .read 128 4, .write 128 4 1, .read 256 4, .write 256 4 1,
          .read 384 4, .write 384 4 1, .read 512 4])) = .ok false := by
    decide +kernel
  cases started : start false .zero .oneInstruction with
  | error fault =>
      rw [started] at lost
      cases lost
  | ok tracked =>
      rw [started] at lost
      exact ⟨tracked, rfl, of_decide_eq_false (Except.ok.inj lost)⟩

end Tracked

end Nachos
