import Mathlib.Tactic.Linarith
import Mathlib.Tactic.Ring
import Nachos.SchedulerInvariants

/-!
# How long a thread can be passed over

Each `Yield` under `SCHED_PRIO_P` changes the priority of the current thread by its ID
minus 20, and returns as long as the current thread is above the first ready one.  A
thread with an ID below 20 goes down by at least one each time.  The priority of one with
a larger ID grows.
-/

namespace Nachos

open TransitionRuns CInt

namespace Kernel

variable {Thread Sem Lock Cond : Type} [DecidableEq Thread]
  {s next : Kernel Thread Sem Lock Cond}

section Yield

omit [DecidableEq Thread] in
theorem threadID_findNextToRun {found : Option Thread}
    (done : s.findNextToRun = (found, next)) : next.threadID = s.threadID := by
  unfold findNextToRun at done
  split at done <;> cases done <;> rfl

theorem threadID_readyToRun {thread : Thread} (done : s.readyToRun thread = .ok next) :
    next.threadID = s.threadID := by
  obtain ⟨scheduler, -, done⟩ := bind_eq_ok_iff.mp done
  cases done
  rfl

/-- The priority that the current thread gets in `Yield`. -/
theorem priority_yield (done : s.yield = .ok next) :
    Fits (s.priority s.currentThread - Scheduler.maxPriority) ∧
      Fits (s.priority s.currentThread - Scheduler.maxPriority + s.threadID s.currentThread) ∧
      next.priority = Function.update s.priority s.currentThread
        (s.priority s.currentThread - Scheduler.maxPriority + s.threadID s.currentThread) ∧
      next.threadID = s.threadID := by
  unfold yield at done
  dsimp only at done
  split at done
  · next fits =>
    refine ⟨fits.1, fits.2, ?_⟩
    split at done
    · next after found =>
      cases done
      have threadID := threadID_findNextToRun found
      exact ⟨(findNextToRun_fields found).1, threadID⟩
    · next nextThread after found =>
      have priority := (findNextToRun_fields found).1
      have threadID := threadID_findNextToRun found
      split at done
      · obtain ⟨ready, inserted, done⟩ := bind_eq_ok_iff.mp done
        cases done
        exact ⟨(readyToRun_fields inserted).1.trans priority,
          (threadID_readyToRun inserted).trans threadID⟩
      · exact ⟨(readyToRun_fields done).1.trans priority,
          (threadID_readyToRun done).trans threadID⟩
  · cases done

/-- The current thread goes on only if it is above all ready threads. -/
theorem yield_stays (ordered : s.Ordered)
    (unqueued : s.currentThread ∉ s.scheduler.readyList.items)
    (done : s.yield = .ok next) (stays : next.mode = .user) :
    next.currentThread = s.currentThread ∧
      (∀ thread, thread ∈ next.scheduler.readyList.items ↔
        thread ∈ s.scheduler.readyList.items) ∧
      ∀ thread ∈ s.scheduler.readyList.items,
        next.priority thread < next.priority s.currentThread := by
  obtain ⟨prio, lowered, isLowered, outcome⟩ := yield_cases done
  have lowered_ordered : lowered.Ordered := by
    rw [isLowered]
    exact ordered.update_priority unqueued prio
  have items : lowered.scheduler.readyList.items = s.scheduler.readyList.items := by
    rw [isLowered]
  have current : lowered.currentThread = s.currentThread := by rw [isLowered]
  rw [← items, ← current]
  rcases outcome with ⟨after, found, rfl⟩ | ⟨nextThread, after, ready, -, -, -, rfl⟩ |
    ⟨nextThread, after, found, lower, inserted⟩
  · rcases findNextToRun_cases lowered_ordered with ⟨empty, equal⟩ | ⟨first, rest, -, equal⟩
    all_goals
      rw [found] at equal
      obtain ⟨isNone, same⟩ := Prod.mk.inj equal
    · subst same
      refine ⟨rfl, fun thread => Iff.rfl, ?_⟩
      intro thread member
      rw [LinkedList.items, empty] at member
      cases member
    · cases isNone
  · cases stays
  · rcases findNextToRun_cases lowered_ordered with ⟨-, equal⟩ | ⟨first, rest, elements, equal⟩
    all_goals
      rw [found] at equal
      obtain ⟨isFirst, same⟩ := Prod.mk.inj equal
    · cases isFirst
    · cases isFirst
      subst same
      have placed := lowered_ordered.placed
      rw [elements] at placed
      have split : lowered.scheduler.readyList.items =
          first.item :: rest.map ListElement.item := by
        rw [LinkedList.items, elements, List.map_cons]
      have isNext := readyToRun_eq (by exact lowered_ordered.policy) inserted
      rw [isNext]
      refine ⟨rfl, ?_, ?_⟩
      · intro thread
        rw [split]
        exact ((LinkedList.perm_insertElement _ rest).map ListElement.item).mem_iff
      · intro thread member
        rw [split] at member
        rcases List.mem_cons.mp member with rfl | behind
        · rw [current]
          exact lower
        · rw [current]
          exact (placed.first_best thread behind).trans_lt lower

end Yield

section Bypass

variable [DecidableEq Sem] [DecidableEq Lock] [DecidableEq Cond]

/-- Devices interrupt, and then the current thread calls `Yield`. -/
def yieldStep (s : Kernel Thread Sem Lock Cond) (sems : List Sem) :
    Except Stop (Kernel Thread Sem Lock Cond) := do
  let s ← s.step (.interrupt sems)
  s.step (.call .yield)

/-- The current thread is not on the ready list when it calls `Yield`. -/
def YieldsUnqueued (s : Kernel Thread Sem Lock Cond) (sems : List Sem) : Prop :=
  ∀ interrupted, s.step (.interrupt sems) = .ok interrupted →
    s.currentThread ∉ interrupted.scheduler.readyList.items

/-- While the current thread does nothing but call `Yield`, so many of its calls return
without dispatching another thread as its priority is above that of the given one. -/
def BypassBounded (s : Kernel Thread Sem Lock Cond) (thread : Thread) : Prop :=
  ∀ (handlers : List (List Sem)) next, RunAllowed yieldStep YieldsUnqueued s handlers →
    TransitionRuns.run yieldStep s handlers = .ok next → next.mode = .user →
    (handlers.length : Int) ≤ max 0 (s.priority s.currentThread - s.priority thread)

/-- The priority of the current thread after a number of calls of `Yield`. -/
def agedPriority (s : Kernel Thread Sem Lock Cond) (count : Nat) : Int :=
  s.priority s.currentThread +
    count * (s.threadID s.currentThread - Scheduler.maxPriority)

/-- The current thread has an ID below 20, or some ready thread is not below it after one
call of `Yield`, or its priority is no longer an `int` after one call more than are
allowed. -/
def AgesInTime (s : Kernel Thread Sem Lock Cond) (thread : Thread) : Prop :=
  s.threadID s.currentThread < Scheduler.maxPriority ∨
  (∃ other ∈ s.scheduler.readyList.items, s.agedPriority 1 ≤ s.priority other) ∨
  ¬ Fits (s.priority s.currentThread - Scheduler.maxPriority) ∨
  ¬ Fits (s.agedPriority ((s.priority s.currentThread - s.priority thread).toNat + 1))

/-- A further call of `Yield` has returned without dispatching another thread. -/
structure Overtakes (s : Kernel Thread Sem Lock Cond) (count : Nat) : Prop where
  fits : Fits (s.agedPriority count - Scheduler.maxPriority)
  fits_next : Fits (s.agedPriority (count + 1))
  above : ∀ thread ∈ s.scheduler.readyList.items,
    s.priority thread < s.agedPriority (count + 1)

/-- The current thread has called `Yield` a number of times and still runs. -/
structure Bypasses (s : Kernel Thread Sem Lock Cond) (count : Nat)
    (now : Kernel Thread Sem Lock Cond) : Prop where
  ordered : now.Ordered
  mode : now.mode = .user
  currentThread : now.currentThread = s.currentThread
  threadID : now.threadID = s.threadID
  priority : now.priority =
    Function.update s.priority s.currentThread (s.agedPriority count)
  ready : ∀ thread ∈ s.scheduler.readyList.items, thread ∈ now.scheduler.readyList.items

omit [DecidableEq Cond] in
theorem v_fields {sem : SemRef Sem Lock} (done : s.v sem = .ok next) :
    next.priority = s.priority ∧ next.currentThread = s.currentThread ∧ next.mode = s.mode ∧
      next.threadID = s.threadID ∧
      ∀ thread ∈ s.scheduler.readyList.items, thread ∈ next.scheduler.readyList.items := by
  rcases v_cases done with ⟨-, rfl⟩ | ⟨thread, rest, -, inserted⟩
  · exact ⟨rfl, rfl, rfl, rfl, fun _ member => member⟩
  · obtain ⟨priority, current, mode⟩ := readyToRun_fields inserted
    have threadID := threadID_readyToRun inserted
    obtain ⟨scheduler, listed, isNext⟩ := bind_eq_ok_iff.mp inserted
    cases isNext
    exact ⟨priority, current, mode, threadID, Scheduler.mem_items_readyToRun listed⟩

omit [DecidableEq Cond] in
theorem vAll_fields {sems : List Sem} (done : s.vAll sems = .ok next) :
    next.priority = s.priority ∧ next.currentThread = s.currentThread ∧ next.mode = s.mode ∧
      next.threadID = s.threadID ∧
      ∀ thread ∈ s.scheduler.readyList.items, thread ∈ next.scheduler.readyList.items := by
  induction sems generalizing s with
  | nil =>
      cases done
      exact ⟨rfl, rfl, rfl, rfl, fun _ member => member⟩
  | cons sem sems ih =>
      obtain ⟨middle, first, later⟩ := bind_eq_ok_iff.mp done
      obtain ⟨priority, current, mode, threadID, ready⟩ := v_fields first
      obtain ⟨priority', current', mode', threadID', ready'⟩ := ih later
      exact ⟨priority'.trans priority, current'.trans current, mode'.trans mode,
        threadID'.trans threadID, fun thread member => ready' thread (ready thread member)⟩

omit [DecidableEq Thread] [DecidableEq Sem] [DecidableEq Lock] [DecidableEq Cond] in
theorem agedPriority_zero (s : Kernel Thread Sem Lock Cond) :
    s.agedPriority 0 = s.priority s.currentThread := by
  rw [agedPriority, Nat.cast_zero, zero_mul, add_zero]

omit [DecidableEq Thread] [DecidableEq Sem] [DecidableEq Lock] [DecidableEq Cond] in
theorem agedPriority_succ (s : Kernel Thread Sem Lock Cond) (count : Nat) :
    s.agedPriority count - Scheduler.maxPriority + s.threadID s.currentThread =
      s.agedPriority (count + 1) := by
  unfold agedPriority
  push_cast
  ring

omit [DecidableEq Thread] [DecidableEq Sem] [DecidableEq Lock] [DecidableEq Cond] in
/-- The priority of a thread with an ID of 20 or more does not go down. -/
theorem agedPriority_mono (grows : Scheduler.maxPriority ≤ s.threadID s.currentThread)
    {first second : Nat} (le : first ≤ second) :
    s.agedPriority first ≤ s.agedPriority second := by
  unfold agedPriority
  have step := mul_le_mul_of_nonneg_right (Int.ofNat_le.mpr le) (sub_nonneg.mpr grows)
  exact add_le_add_right step _

theorem Bypasses.interrupt {now : Kernel Thread Sem Lock Cond} {count : Nat}
    (bypasses : Bypasses s count now) {sems : List Sem}
    (done : now.step (.interrupt sems) = .ok next) : Bypasses s count next := by
  simp only [Kernel.step] at done
  split at done
  case isFalse => cases done
  obtain ⟨priority, current, mode, threadID, ready⟩ := vAll_fields done
  exact {
    ordered := bypasses.ordered.vAll done
    mode := mode.trans bypasses.mode
    currentThread := current.trans bypasses.currentThread
    threadID := threadID.trans bypasses.threadID
    priority := priority.trans bypasses.priority
    ready := fun thread member => ready thread (bypasses.ready thread member) }

omit [DecidableEq Sem] [DecidableEq Lock] [DecidableEq Cond] in
/-- One more call of `Yield` after which the current thread still runs. -/
theorem Bypasses.yield {now : Kernel Thread Sem Lock Cond} {count : Nat}
    (bypasses : Bypasses s count now)
    (unqueued : s.currentThread ∉ now.scheduler.readyList.items)
    (done : now.yield = .ok next) (stays : next.mode = .user) :
    Bypasses s (count + 1) next ∧ Overtakes s count := by
  have current := bypasses.currentThread
  have now_priority : now.priority s.currentThread = s.agedPriority count := by
    rw [bypasses.priority, Function.update_self]
  obtain ⟨fits, fits_next, priority, threadID⟩ := priority_yield done
  rw [current, now_priority] at fits fits_next priority
  rw [bypasses.threadID, agedPriority_succ] at fits_next priority
  rw [bypasses.priority, Function.update_idem] at priority
  obtain ⟨goesOn, ready, below⟩ := yield_stays bypasses.ordered (by rwa [current]) done stays
  constructor
  · exact {
      ordered := bypasses.ordered.yield (by rwa [current]) done
      mode := stays
      currentThread := goesOn.trans current
      threadID := threadID.trans bypasses.threadID
      priority := priority
      ready := fun thread member => (ready thread).mpr (bypasses.ready thread member) }
  · refine ⟨fits, fits_next, ?_⟩
    intro thread member
    have isReady := bypasses.ready thread member
    have other : thread ≠ s.currentThread := by
      rintro rfl
      exact unqueued isReady
    have lower := below thread isReady
    rwa [current, priority, Function.update_self, Function.update_of_ne other] at lower

theorem Bypasses.step {now : Kernel Thread Sem Lock Cond} {count : Nat}
    (bypasses : Bypasses s count now) {sems : List Sem} (unqueued : now.YieldsUnqueued sems)
    (done : now.yieldStep sems = .ok next) (stays : next.mode = .user) :
    Bypasses s (count + 1) next ∧ Overtakes s count := by
  obtain ⟨interrupted, first, yields⟩ := bind_eq_ok_iff.mp done
  have bypasses' := bypasses.interrupt first
  have notReady := unqueued interrupted first
  rw [bypasses.currentThread] at notReady
  simp only [Kernel.step, if_pos bypasses'.mode] at yields
  exact bypasses'.yield notReady yields stays

/-- Only a thread that still runs calls `Yield`. -/
theorem mode_of_yieldStep {sems : List Sem} (done : s.yieldStep sems = .ok next) :
    s.mode = .user := by
  obtain ⟨interrupted, first, yields⟩ := bind_eq_ok_iff.mp done
  simp only [Kernel.step] at first yields
  split at first
  case isFalse => cases first
  split at yields
  case isFalse => cases yields
  case isTrue running =>
    obtain ⟨-, -, mode, -⟩ := vAll_fields first
    exact mode.symm.trans running

/-- All the calls of `Yield` in a run after which the current thread still runs. -/
theorem Bypasses.run {now last : Kernel Thread Sem Lock Cond} {count : Nat}
    (bypasses : Bypasses s count now) {handlers : List (List Sem)}
    (unqueued : RunAllowed yieldStep YieldsUnqueued now handlers)
    (done : TransitionRuns.run yieldStep now handlers = .ok last) (stays : last.mode = .user) :
    ∀ later < handlers.length, Overtakes s (count + later) := by
  induction handlers generalizing now count with
  | nil => exact fun later inside => absurd inside (Nat.not_lt_zero later)
  | cons sems handlers ih =>
      obtain ⟨next, first, rest⟩ := run_cons_eq_ok_iff.mp done
      obtain ⟨notReady, later_unqueued⟩ := unqueued next first
      have next_stays : next.mode = .user := by
        cases handlers with
        | nil =>
            cases rest
            exact stays
        | cons sems' handlers =>
            obtain ⟨next', second, -⟩ := run_cons_eq_ok_iff.mp rest
            exact mode_of_yieldStep second
      obtain ⟨bypasses', overtakes⟩ := bypasses.step notReady first next_stays
      intro later inside
      cases later with
      | zero => exact overtakes
      | succ later =>
          have rest_overtakes := ih bypasses' later_unqueued rest later
            (Nat.lt_of_succ_lt_succ inside)
          rwa [Nat.add_assoc, Nat.add_comm 1 later] at rest_overtakes

omit [DecidableEq Sem] [DecidableEq Lock] [DecidableEq Cond] in
theorem bypasses_none (ordered : s.Ordered) (running : s.mode = .user) : Bypasses s 0 s where
  ordered := ordered
  mode := running
  currentThread := rfl
  threadID := rfl
  priority := by
    rw [agedPriority_zero, Function.update_eq_self]
  ready _ member := member

theorem bypassBounded_of_agesInTime (ordered : s.Ordered) (running : s.mode = .user)
    {thread : Thread} (member : thread ∈ s.scheduler.readyList.items)
    (inTime : s.AgesInTime thread) : s.BypassBounded thread := by
  intro handlers last unqueued done stays
  by_contra tooMany
  have overtakes : ∀ count < handlers.length, Overtakes s count := by
    intro count inside
    have called := (bypasses_none ordered running).run unqueued done stays count inside
    rwa [Nat.zero_add] at called
  have some_call : 0 < handlers.length := by omega
  rcases inTime with below | ⟨other, isReady, notBelow⟩ | overflow | overflow
  · -- The last call has left the current thread above the given one.
    obtain ⟨count, length⟩ := Nat.exists_eq_succ_of_ne_zero some_call.ne'
    have above := (overtakes count (by omega)).above thread member
    have lowered : s.agedPriority (count + 1) ≤ s.priority s.currentThread - (count + 1) := by
      unfold agedPriority
      push_cast
      nlinarith
    omega
  · exact absurd ((overtakes 0 some_call).above other isReady) (not_lt.mpr notBelow)
  · apply overflow
    have fits := (overtakes 0 some_call).fits
    rwa [agedPriority_zero] at fits
  · exact overflow (overtakes _ (by omega)).fits_next

/-- With interrupts disabled the same threads stay ready. -/
structure BypassesAlone (s : Kernel Thread Sem Lock Cond) (count : Nat)
    (now : Kernel Thread Sem Lock Cond) : Prop extends Bypasses s count now where
  only : ∀ thread ∈ now.scheduler.readyList.items, thread ∈ s.scheduler.readyList.items
  keys : now.scheduler.KeysFit

omit [DecidableEq Sem] [DecidableEq Lock] [DecidableEq Cond] in
theorem readyToRun_returns (policy : s.scheduler.policy = .prioP) {thread : Thread}
    (fits : Fits (Scheduler.maxPriority - s.priority thread)) :
    ∃ next, s.readyToRun thread = .ok next ∧ next.mode = s.mode := by
  have inserted : ∃ scheduler, s.scheduler.readyToRun thread (s.info thread) = .ok scheduler := by
    rw [Scheduler.readyToRun_of_prioP policy]
    exact ⟨_, if_pos fits⟩
  obtain ⟨scheduler, inserted⟩ := inserted
  exact ⟨_, bind_eq_ok_iff.mpr ⟨scheduler, inserted, rfl⟩, rfl⟩

omit [DecidableEq Sem] [DecidableEq Lock] [DecidableEq Cond] in
/-- `Yield` returns to the current thread if it stays above all ready threads. -/
theorem yield_returns (ordered : s.Ordered) (keys : s.scheduler.KeysFit)
    (unqueued : s.currentThread ∉ s.scheduler.readyList.items) {lowered : Int}
    (isLowered : s.priority s.currentThread - Scheduler.maxPriority +
      s.threadID s.currentThread = lowered)
    (fits : Fits (s.priority s.currentThread - Scheduler.maxPriority))
    (fits_lowered : Fits lowered)
    (above : ∀ thread ∈ s.scheduler.readyList.items, s.priority thread < lowered) :
    ∃ next, s.yield = .ok next ∧ next.mode = s.mode := by
  have ordered' := ordered.update_priority unqueued lowered
  unfold Kernel.yield
  simp only [isLowered, if_pos (And.intro fits fits_lowered)]
  rcases findNextToRun_cases ordered' with ⟨-, equal⟩ | ⟨first, rest, elements, equal⟩
  · rw [equal]
    exact ⟨_, rfl, rfl⟩
  · have elements : s.scheduler.readyList.elements = first :: rest := elements
    have isFirst : first ∈ s.scheduler.readyList.elements := by
      rw [elements]
      exact List.mem_cons_self
    have isReady : first.item ∈ s.scheduler.readyList.items := List.mem_map_of_mem isFirst
    have other : first.item ≠ s.currentThread := by
      intro same
      rw [same] at isReady
      exact unqueued isReady
    have lower := above first.item isReady
    have keyFits : Fits (Scheduler.maxPriority - s.priority first.item) := by
      have key := keys first isFirst
      have keyed := (ordered.placed.keyed first isFirst).1
      have bound := fits_lowered.2
      unfold Scheduler.maxPriority at keyed ⊢
      constructor <;> omega
    rw [equal]
    simp only [Function.update_self, Function.update_of_ne other, if_neg (not_le.mpr lower)]
    apply readyToRun_returns
    · exact ordered.policy
    · simpa only [Function.update_of_ne other] using keyFits

theorem BypassesAlone.step {now : Kernel Thread Sem Lock Cond} {count : Nat}
    (bypasses : BypassesAlone s count now)
    (unqueued : s.currentThread ∉ s.scheduler.readyList.items) (overtakes : Overtakes s count) :
    now.YieldsUnqueued [] ∧
      ∃ next, now.yieldStep [] = .ok next ∧ BypassesAlone s (count + 1) next := by
  have current := bypasses.currentThread
  have notReady : now.currentThread ∉ now.scheduler.readyList.items := by
    rw [current]
    exact fun member => unqueued (bypasses.only _ member)
  have interrupted : now.step (.interrupt []) = .ok now := by
    simp only [Kernel.step, if_pos (Or.inl bypasses.mode), vAll]
  have now_priority : now.priority now.currentThread = s.agedPriority count := by
    rw [current, bypasses.priority, Function.update_self]
  have lowered : now.priority now.currentThread - Scheduler.maxPriority +
      now.threadID now.currentThread = s.agedPriority (count + 1) := by
    rw [now_priority, current, bypasses.threadID, agedPriority_succ]
  obtain ⟨next, yields, mode⟩ := yield_returns bypasses.ordered bypasses.keys notReady lowered
    (by rw [now_priority]; exact overtakes.fits) overtakes.fits_next (by
      intro thread member
      have isReady := bypasses.only thread member
      have other : thread ≠ s.currentThread := by
        rintro rfl
        exact unqueued isReady
      rw [bypasses.priority, Function.update_of_ne other]
      exact overtakes.above thread isReady)
  have stays : next.mode = .user := mode.trans bypasses.mode
  constructor
  · intro after done
    rw [interrupted] at done
    cases done
    exact notReady
  · refine ⟨next, ?_, ?_⟩
    · rw [yieldStep, interrupted, ok_bind]
      simp only [Kernel.step, if_pos bypasses.mode, perform, yields]
    · exact {
        toBypasses := (bypasses.yield (by rwa [current] at notReady) yields stays).1
        only := fun thread member => bypasses.only thread
          (((yield_stays bypasses.ordered notReady yields stays).2.1 thread).mp member)
        keys := maintained_yield Scheduler.maintains_keysFit bypasses.keys yields }

theorem BypassesAlone.run {now : Kernel Thread Sem Lock Cond} {count : Nat}
    (bypasses : BypassesAlone s count now)
    (unqueued : s.currentThread ∉ s.scheduler.readyList.items) (calls : Nat)
    (overtakes : ∀ later < calls, Overtakes s (count + later)) :
    RunAllowed yieldStep YieldsUnqueued now (List.replicate calls []) ∧
      ∃ last, TransitionRuns.run yieldStep now (List.replicate calls []) = .ok last ∧
        last.mode = .user := by
  induction calls generalizing now count with
  | zero => exact ⟨trivial, now, rfl, bypasses.mode⟩
  | succ calls ih =>
      obtain ⟨notReady, next, first, bypasses'⟩ :=
        bypasses.step unqueued (overtakes 0 (Nat.succ_pos calls))
      obtain ⟨permitted, last, rest, stays⟩ := ih bypasses' (by
        intro later inside
        have after := overtakes (later + 1) (Nat.succ_lt_succ inside)
        rwa [← Nat.add_assoc, Nat.add_right_comm] at after)
      constructor
      · exact (runAllowed_cons_of_ok first).mpr ⟨notReady, permitted⟩
      · exact ⟨last, run_cons_eq_ok_iff.mpr ⟨next, first, rest⟩, stays⟩

/-- A ready thread is passed over too often exactly by a thread whose priority grows and
is above all ready ones. -/
theorem bypassBounded_iff (ordered : s.Ordered) (keys : s.scheduler.KeysFit)
    (running : s.mode = .user) (unqueued : s.currentThread ∉ s.scheduler.readyList.items)
    {thread : Thread} (member : thread ∈ s.scheduler.readyList.items) :
    s.BypassBounded thread ↔ s.AgesInTime thread := by
  constructor
  · intro bounded
    by_contra late
    simp only [AgesInTime, not_or, not_lt, not_exists, not_and, not_le, not_not] at late
    obtain ⟨grows, above, fits, fits_last⟩ := late
    generalize isCalls :
      (s.priority s.currentThread - s.priority thread).toNat + 1 = calls at fits_last
    have overtakes : ∀ count < calls, Overtakes s count := by
      intro count inside
      have first : s.agedPriority 0 ≤ s.agedPriority count :=
        agedPriority_mono grows (Nat.zero_le count)
      have next : s.agedPriority count ≤ s.agedPriority (count + 1) :=
        agedPriority_mono grows (Nat.le_succ count)
      have second : s.agedPriority 1 ≤ s.agedPriority (count + 1) :=
        agedPriority_mono grows (Nat.le_add_left 1 count)
      have last : s.agedPriority (count + 1) ≤ s.agedPriority calls :=
        agedPriority_mono grows inside
      rw [agedPriority_zero] at first
      have lower := fits.1
      have upper := fits_last.2
      unfold Scheduler.maxPriority at lower
      refine ⟨⟨?_, ?_⟩, ⟨?_, ?_⟩, ?_⟩
      · unfold Scheduler.maxPriority
        omega
      · unfold Scheduler.maxPriority
        omega
      · omega
      · omega
      · intro other isReady
        exact (above other isReady).trans_le second
    have alone : BypassesAlone s 0 s :=
      { toBypasses := bypasses_none ordered running, only := fun _ member => member, keys := keys }
    obtain ⟨permitted, last, done, stays⟩ := alone.run unqueued calls (by
      intro later inside
      rw [Nat.zero_add]
      exact overtakes later inside)
    have count := bounded _ last permitted done stays
    rw [List.length_replicate] at count
    omega
  · exact bypassBounded_of_agesInTime ordered running member

/-- In the runs in which every ready thread lies where its priority belongs, a running
thread passes over a ready one more often than its priority is above it exactly if it does
not age in time. -/
theorem bypassBounded_along_run (main : Thread) (threadID priority : Thread → Int)
    (value : Sem → Int) (actions : List (SchedulingAction Thread Sem Lock Cond))
    (outside : RunAllowed schedulingStep SetsPriorityOutside
      (boot main threadID priority value) actions)
    (keeps : RunAllowed schedulingStep KeepsKeys (boot main threadID priority value) actions) :
    AlongRun schedulingStep
      (fun s => s.mode = .user → s.currentThread ∉ s.scheduler.readyList.items →
        ∀ thread ∈ s.scheduler.readyList.items, s.BypassBounded thread ↔ s.AgesInTime thread)
      (boot main threadID priority value) actions := by
  have preserved : ∀ (s : Kernel Thread Sem Lock Cond) action next,
      s.Ordered ∧ s.scheduler.KeysFit → s.SetsPriorityOutside action ∧ s.KeepsKeys action →
      s.schedulingStep action = .ok next → next.Ordered ∧ next.scheduler.KeysFit :=
    fun s action next kept permitted done =>
      ⟨kept.1.schedulingStep permitted.1 permitted.2 done,
        maintained_schedulingStep Scheduler.maintains_keysFit kept.2 done⟩
  have initial : (boot main threadID priority value :
      Kernel Thread Sem Lock Cond).scheduler.KeysFit :=
    fun element member => absurd member List.not_mem_nil
  have kept := alongRun_of_invariant preserved
    ⟨ordered_boot main threadID priority value, initial⟩ (outside.and keeps)
  refine kept.mono ?_
  intro s kept running unqueued thread member
  exact bypassBounded_iff kept.1 kept.2 running unqueued member

instance (s : Kernel Thread Sem Lock Cond) (sems : List Sem) :
    Decidable (s.YieldsUnqueued sems) :=
  match done : s.step (.interrupt sems) with
  | .ok interrupted =>
      decidable_of_iff (s.currentThread ∉ interrupted.scheduler.readyList.items)
        ⟨fun notReady _ same => by
          cases done.symm.trans same
          exact notReady, fun unqueued => unqueued interrupted done⟩
  | .error _ => .isTrue fun _ same => by cases done.symm.trans same

/-- All threads have the priority 10 but thread 1, which has the priority 5. -/
def exampleReady : Kernel ℕ Empty Empty Empty :=
  boot 0 (fun thread => thread) (fun thread => if thread = 1 then 5 else 10) nofun

theorem bypassBounded_by_main : ∃ s,
    TransitionRuns.run schedulingStep exampleReady [.thread (.call (.fork 1))] = .ok s ∧
      s.BypassBounded 1 := by
  refine ⟨_, rfl, ?_⟩
  have outside : RunAllowed schedulingStep SetsPriorityOutside exampleReady
      [.thread (.call (.fork 1))] := by decide
  have keeps : RunAllowed schedulingStep KeepsKeys exampleReady
      [.thread (.call (.fork 1))] := by decide
  have along := bypassBounded_along_run 0 _ _ _ _ outside keeps
  exact (alongRun_last along rfl rfl (by decide) 1 (by decide)).mpr (Or.inl (by decide))

/-- A thread with the ID 21 and the priority 10 calls `Yield` six times and still runs,
while a thread of priority 5 is ready. -/
theorem not_bypassBounded : ∃ s,
    TransitionRuns.run schedulingStep exampleReady
      [.thread (.call (.fork 21)), .thread (.call (.fork 1)), .thread (.call .finish),
        .thread .dispatch, .thread .proceed] = .ok s ∧
      s.mode = .user ∧ s.currentThread = 21 ∧ s.scheduler.readyList.items = [1] ∧
      ¬ s.BypassBounded 1 := by
  refine ⟨_, rfl, rfl, rfl, rfl, ?_⟩
  intro bounded
  have count := bounded (List.replicate 6 []) _ (by decide) rfl rfl
  revert count
  decide

end Bypass

end Kernel

end Nachos
