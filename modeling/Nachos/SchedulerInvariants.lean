import Nachos.YieldOrder

/-!
# Invariants of the scheduler

The kernel changes the lists of the scheduler only through `ReadyToRun`, `FindNextToRun`,
`Suspend` and `Resume`.  What these four maintain holds in all runs, whatever the threads
and their synchronisation objects do.
-/

namespace Nachos

open TransitionRuns CInt

namespace Scheduler

variable {Thread : Type} [DecidableEq Thread]

/-- The operations of the scheduler maintain a property. -/
structure Maintains (property : Scheduler Thread → Prop) : Prop where
  readyToRun : ∀ {s after : Scheduler Thread} {thread info}, property s →
    s.readyToRun thread info = .ok after → property after
  findNextToRun : ∀ {s : Scheduler Thread}, property s → property s.findNextToRun.2
  suspend : ∀ {s : Scheduler Thread} thread t, property s → property (s.suspend thread t)
  resume : ∀ {s : Scheduler Thread} thread t, property s → property (s.resume thread t)

/-- The keys on the ready list are at most the largest `int`. -/
def KeysFit (s : Scheduler Thread) : Prop :=
  ∀ element ∈ s.readyList.elements, element.key < 2 ^ 31

omit [DecidableEq Thread] in
/-- `ReadyToRun` adds one element to the ready list, or to another list. -/
theorem readyList_readyToRun {s after : Scheduler Thread} {thread : Thread}
    {info : ThreadInfo} (done : s.readyToRun thread info = .ok after) :
    after.readyList = s.readyList ∨ ∃ sortKey, Fits sortKey ∧
      after.readyList.elements.Perm (⟨thread, sortKey⟩ :: s.readyList.elements) := by
  have appended : Fits 0 ∧ (s.readyList.append thread).elements.Perm
      (⟨thread, 0⟩ :: s.readyList.elements) := ⟨by decide, List.perm_append_singleton _ _⟩
  unfold Scheduler.readyToRun at done
  split at done
  case h_1 | h_2 | h_3 =>
    dsimp only at done
    split at done
    case isFalse => cases done
    case isTrue fits =>
      cases done
      exact Or.inr ⟨_, fits, LinkedList.perm_insertElement _ _⟩
  case h_4 | h_5 =>
    repeat' split at done
    all_goals cases done
    · exact Or.inr ⟨0, appended⟩
    all_goals exact Or.inl rfl
  all_goals
    cases done
    exact Or.inr ⟨0, appended⟩

omit [DecidableEq Thread] in
theorem mem_items_readyToRun {s after : Scheduler Thread} {thread : Thread}
    {info : ThreadInfo} (done : s.readyToRun thread info = .ok after) :
    ∀ other ∈ s.readyList.items, other ∈ after.readyList.items := by
  intro other member
  rcases readyList_readyToRun done with same | ⟨sortKey, -, added⟩
  · rwa [same]
  · exact (added.map ListElement.item).mem_iff.mpr (List.mem_cons_of_mem _ member)

omit [DecidableEq Thread] in
theorem KeysFit.readyToRun {s after : Scheduler Thread} (fit : s.KeysFit) {thread : Thread}
    {info : ThreadInfo} (done : s.readyToRun thread info = .ok after) : after.KeysFit := by
  intro element member
  rcases readyList_readyToRun done with same | ⟨sortKey, fits, added⟩
  · rw [same] at member
    exact fit element member
  · rcases List.mem_cons.mp (added.mem_iff.mp member) with rfl | old
    · exact fits.2
    · exact fit element old

omit [DecidableEq Thread] in
theorem KeysFit.findNextToRun {s : Scheduler Thread} (fit : s.KeysFit) :
    s.findNextToRun.2.KeysFit := by
  rcases s.findNextToRun_cases with ⟨-, -, -, equal⟩ | ⟨first, rest, elements, equal⟩ |
    ⟨-, first, rest, -, equal⟩ | ⟨-, -, first, rest, -, equal⟩
  all_goals rw [equal]
  case inr.inl =>
    intro element member
    apply fit element
    rw [elements]
    exact List.mem_cons_of_mem _ member
  all_goals exact fit

theorem KeysFit.suspend {s : Scheduler Thread} (fit : s.KeysFit) (thread : Thread)
    (t : Option Thread) : (s.suspend thread t).KeysFit := by
  have rekeyed : ∀ (elements : List (ListElement Thread)),
      ∀ element ∈ elements.map LinkedList.rekey, element.key < 2 ^ 31 := by
    intro elements element member
    obtain ⟨old, -, rfl⟩ := List.mem_map.mp member
    exact (by decide : (0 : Int) < 2 ^ 31)
  intro element member
  rcases s.readyList.takeOut_cases thread t with
    ⟨front, key, back, elements, -, equal⟩ | ⟨-, found, equal, -⟩
  all_goals simp only [Scheduler.suspend, equal] at member
  · rcases List.mem_append.mp member with inFront | inBack
    · exact rekeyed front element inFront
    · apply fit element
      rw [elements]
      exact List.mem_append_right _ (List.mem_cons_of_mem _ inBack)
  · exact rekeyed _ element member

theorem KeysFit.resume {s : Scheduler Thread} (fit : s.KeysFit) (thread : Thread)
    (t : Option Thread) : (s.resume thread t).KeysFit := by
  simp only [Scheduler.resume]
  split
  · intro element member
    rcases List.mem_append.mp member with old | new
    · exact fit element old
    · rw [List.mem_singleton.mp new]
      exact (by decide : (0 : Int) < 2 ^ 31)
  · exact fit

theorem maintains_keysFit : Maintains (KeysFit : Scheduler Thread → Prop) where
  readyToRun fit done := fit.readyToRun done
  findNextToRun fit := fit.findNextToRun
  suspend thread t fit := fit.suspend thread t
  resume thread t fit := fit.resume thread t

end Scheduler

namespace Kernel

variable {Thread Sem Lock Cond : Type} [DecidableEq Thread]
  {s next : Kernel Thread Sem Lock Cond} {property : Scheduler Thread → Prop}

section Maintained

variable (maintains : Scheduler.Maintains property) (holds : property s.scheduler)

include maintains holds

theorem maintained_readyToRun {thread : Thread} (done : s.readyToRun thread = .ok next) :
    property next.scheduler := by
  obtain ⟨scheduler, inserted, done⟩ := bind_eq_ok_iff.mp done
  cases done
  exact maintains.readyToRun holds inserted

theorem maintained_findNextToRun {found : Option Thread}
    (done : s.findNextToRun = (found, next)) : property next.scheduler := by
  have taken := maintains.findNextToRun holds
  rwa [scheduler_findNextToRun done] at taken

theorem maintained_yield (done : s.yield = .ok next) : property next.scheduler := by
  obtain ⟨prio, lowered, isLowered, outcome⟩ := yield_cases done
  have holds : property lowered.scheduler := by
    rw [isLowered]
    exact holds
  rcases outcome with ⟨after, found, rfl⟩ | ⟨nextThread, after, ready, found, -, inserted, rfl⟩ |
    ⟨nextThread, after, found, -, inserted⟩
  · exact maintained_findNextToRun maintains holds found
  · have kept : property ready.scheduler :=
      maintained_readyToRun maintains (maintained_findNextToRun maintains holds found) inserted
    exact kept
  · exact maintained_readyToRun maintains (maintained_findNextToRun maintains holds found) inserted

theorem maintained_fork {thread : Thread} (done : s.fork thread = .ok next) :
    property next.scheduler := by
  obtain ⟨-, rfl | ⟨-, ready, inserted, outcome⟩⟩ := fork_cases done
  · exact holds
  have holds := maintained_readyToRun maintains holds inserted
  split at outcome
  · exact maintained_yield maintains holds outcome
  · rw [outcome]
    exact holds

variable [DecidableEq Sem] [DecidableEq Lock] [DecidableEq Cond]

omit [DecidableEq Cond] in
theorem maintained_v {sem : SemRef Sem Lock} (done : s.v sem = .ok next) :
    property next.scheduler := by
  rcases v_cases done with ⟨-, rfl⟩ | ⟨thread, rest, -, inserted⟩
  · exact holds
  · refine maintained_readyToRun maintains ?_ inserted
    exact holds

omit [DecidableEq Cond] in
theorem maintained_vAll {sems : List Sem} (done : s.vAll sems = .ok next) :
    property next.scheduler := by
  induction sems generalizing s with
  | nil =>
      cases done
      exact holds
  | cons sem sems ih =>
      obtain ⟨middle, first, later⟩ := bind_eq_ok_iff.mp done
      exact ih (maintained_v maintains holds first) later

omit [DecidableEq Sem] in
theorem maintained_signal {cond : Cond} {lock : Lock} (done : s.signal cond lock = .ok next) :
    property next.scheduler := by
  rcases signal_cases done with ⟨-, rfl⟩ | ⟨thread, rest, -, inserted⟩
  · exact holds
  · refine maintained_readyToRun maintains ?_ inserted
    exact holds

omit [DecidableEq Sem] in
theorem maintained_signalAll {cond : Cond} {lock : Lock} {rounds : Nat}
    (done : s.signalAll cond lock rounds = .ok next) : property next.scheduler := by
  induction rounds generalizing s with
  | zero =>
      cases done
      exact holds
  | succ rounds ih =>
      unfold Kernel.signalAll at done
      split at done
      · cases done
        exact holds
      · obtain ⟨middle, first, later⟩ := bind_eq_ok_iff.mp done
        exact ih (maintained_signal maintains holds first) later

omit [DecidableEq Cond] in
theorem maintained_release {lock : Lock} (done : s.release lock = .ok next) :
    property next.scheduler := by
  refine maintained_v maintains ?_ (release_eq_ok done)
  exact holds

theorem maintained_wait {cond : Cond} {lock : Lock} (done : s.wait cond lock = .ok next) :
    property next.scheduler := by
  obtain ⟨condLock, released, unlocked, rfl⟩ := wait_eq_ok done
  have kept : property released.scheduler := by
    refine maintained_release maintains ?_ unlocked
    exact holds
  exact kept

omit [DecidableEq Cond] maintains in
theorem maintained_proceed (done : s.proceed = .ok next) : property next.scheduler := by
  unfold Kernel.proceed at done
  split at done
  all_goals cases done
  · exact holds
  all_goals
    simp only [Kernel.acquire, Kernel.p]
    split <;> exact holds

theorem maintained_step {action : Action Thread Sem Lock Cond}
    (done : s.step action = .ok next) : property next.scheduler := by
  cases action with
  | call call =>
      simp only [Kernel.step] at done
      split at done
      · cases call with
        | fork thread => exact maintained_fork maintains holds done
        | yield => exact maintained_yield maintains holds done
        | p sem =>
            cases done
            simp only [Kernel.p]
            split <;> exact holds
        | v sem => exact maintained_v maintains holds done
        | acquire lock =>
            cases done
            simp only [Kernel.acquire, Kernel.p]
            split <;> exact holds
        | release lock => exact maintained_release maintains holds done
        | wait cond lock => exact maintained_wait maintains holds done
        | signal cond lock => exact maintained_signal maintains holds done
        | broadcast cond lock =>
            exact maintained_signalAll maintains holds (broadcast_eq_ok done)
        | finish =>
            cases done
            exact holds
      · cases done
  | proceed =>
      simp only [Kernel.step] at done
      split at done
      · exact maintained_proceed holds done
      · cases done
  | dispatch =>
      simp only [Kernel.step] at done
      split at done
      · split at done
        · cases done
        · next nextThread after found =>
          cases done
          have kept : property after.scheduler := maintained_findNextToRun maintains holds found
          exact kept
      · cases done
  | interrupt sems =>
      simp only [Kernel.step] at done
      split at done
      · exact maintained_vAll maintains holds done
      · cases done

/-- What the operations of the scheduler maintain holds whatever the threads do. -/
theorem maintained_schedulingStep {action : SchedulingAction Thread Sem Lock Cond}
    (done : s.schedulingStep action = .ok next) : property next.scheduler := by
  cases action with
  | thread action => exact maintained_step maintains holds done
  | suspend thread t =>
      simp only [Kernel.schedulingStep] at done
      split at done
      · cases done
        exact maintains.suspend thread t holds
      · cases done
  | resume thread t =>
      simp only [Kernel.schedulingStep, Kernel.resume] at done
      split at done
      · split at done
        · cases done
        · cases done
          exact maintains.resume thread t holds
      · cases done
  | setPriority thread prio =>
      simp only [Kernel.schedulingStep] at done
      split at done
      · cases done
        exact holds
      · cases done

end Maintained

end Kernel

end Nachos
