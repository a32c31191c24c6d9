import Nachos.ExclusiveOwnership
import Nachos.PriorityDispatch

/-!
# Preemption

`Fork` asks `ShouldISwitch` whether the new thread preempts the running one, and every
thread that is dispatched has a highest priority among the ready ones.  `V`, `Release`,
`Signal` and `Broadcast` make threads ready without asking, and so do the handlers of
interrupts: a thread of higher priority then waits although interrupts are enabled.
-/

namespace Nachos

open TransitionRuns ExclusiveOwnership

/-- The places where a thread waits. -/
inductive Queue (Sem Lock Cond : Type) where
  | ready
  | sem (sem : SemRef Sem Lock)
  | cond (cond : Cond)
  deriving DecidableEq

namespace Kernel

variable {Thread Sem Lock Cond : Type} {s next : Kernel Thread Sem Lock Cond}

/-- The threads that wait in a place. -/
def queue (s : Kernel Thread Sem Lock Cond) : Queue Sem Lock Cond → List Thread
  | .ready => s.scheduler.readyList.items
  | .sem sem => (s.sems sem).queue
  | .cond cond => (s.conds cond).waitCondQueue

/-- The ready list is in order, no thread is queued twice, and threads are queued only
after they have been forked. -/
structure Kept (s : Kernel Thread Sem Lock Cond) : Prop where
  ordered : s.Ordered
  exclusive : Exclusive s.queue
  forked : ∀ {place thread}, thread ∈ s.queue place → s.status thread ≠ .justCreated

/-- The current thread, which has been forked, is not queued. -/
structure Running (s : Kernel Thread Sem Lock Cond) : Prop extends Kept s where
  unqueued : ∀ place, s.currentThread ∉ s.queue place
  current_forked : s.status s.currentThread ≠ .justCreated

/-- No ready thread has a higher priority than the current one. -/
def Preemptive (s : Kernel Thread Sem Lock Cond) : Prop :=
  ∀ thread ∈ s.scheduler.readyList.items, s.priority thread ≤ s.priority s.currentThread

/-- The threads have been moved from other queues to the ready list, and the current thread
goes on. -/
structure Woken (s : Kernel Thread Sem Lock Cond) (threads : List Thread)
    (next : Kernel Thread Sem Lock Cond) : Prop where
  kept : next.Kept
  priority : next.priority = s.priority
  currentThread : next.currentThread = s.currentThread
  mode : next.mode = s.mode
  ready : ∀ thread, thread ∈ next.scheduler.readyList.items ↔
    thread ∈ threads ∨ thread ∈ s.scheduler.readyList.items
  queued : ∀ {place thread}, thread ∈ next.queue place → ∃ before, thread ∈ s.queue before
  forked : ∀ {thread}, s.status thread ≠ .justCreated → next.status thread ≠ .justCreated

theorem Woken.running {threads : List Thread} (woken : Woken s threads next)
    (running : s.Running) : next.Running where
  toKept := woken.kept
  unqueued place member := by
    rw [woken.currentThread] at member
    obtain ⟨before, queued⟩ := woken.queued member
    exact running.unqueued before queued
  current_forked := by
    rw [woken.currentThread]
    exact woken.forked running.current_forked

/-- The current thread should have been preempted unless all threads that were woken have
its priority or a lower one. -/
theorem Woken.preemptive_iff {threads : List Thread} (woken : Woken s threads next)
    (preemptive : s.Preemptive) :
    next.Preemptive ↔ ∀ thread ∈ threads, s.priority thread ≤ s.priority s.currentThread := by
  unfold Preemptive
  rw [woken.priority, woken.currentThread]
  constructor
  · intro after thread member
    exact after thread ((woken.ready thread).mpr (Or.inl member))
  · intro lower thread member
    rcases (woken.ready thread).mp member with isWoken | wasReady
    · exact lower thread isWoken
    · exact preemptive thread wasReady

theorem Woken.trans {middle : Kernel Thread Sem Lock Cond} {first second : List Thread}
    (woken : Woken s first middle) (wokenLater : Woken middle second next) :
    Woken s (first ++ second) next where
  kept := wokenLater.kept
  priority := wokenLater.priority.trans woken.priority
  currentThread := wokenLater.currentThread.trans woken.currentThread
  mode := wokenLater.mode.trans woken.mode
  ready thread := by
    rw [wokenLater.ready, woken.ready, List.mem_append, or_left_comm, or_assoc]
  queued member := by
    obtain ⟨between, inMiddle⟩ := wokenLater.queued member
    exact woken.queued inMiddle
  forked old := wokenLater.forked (woken.forked old)

/-- Changes of other parts of the state wake nobody. -/
theorem Kept.woken_nobody (kept : s.Kept) (sems : SemRef Sem Lock → Semaphore Thread)
    (holder : Lock → Option Thread) (conds : Cond → Condition Thread Lock)
    (same : queue { s with sems := sems, holder := holder, conds := conds } = s.queue) :
    Woken s [] { s with sems := sems, holder := holder, conds := conds } where
  kept := {
    ordered := kept.ordered
    exclusive := by
      rw [same]
      exact kept.exclusive
    forked := by
      rw [same]
      exact kept.forked }
  priority := rfl
  currentThread := rfl
  mode := rfl
  ready _ := by simp
  queued {place _} member := by
    rw [same] at member
    exact ⟨place, member⟩
  forked old := old

theorem Kept.sleep [DecidableEq Thread] (kept : s.Kept) (resumption : Resumption Sem Lock) :
    (s.sleep resumption).Kept where
  ordered := kept.ordered
  exclusive := kept.exclusive
  forked {place thread} member := by
    have old : s.status thread ≠ .justCreated := kept.forked member
    change Function.update s.status s.currentThread .blocked thread ≠ .justCreated
    by_cases same : thread = s.currentThread
    · rw [same, Function.update_self]
      exact ThreadStatus.noConfusion
    · rwa [Function.update_of_ne same]

section Queues

variable [DecidableEq Sem] [DecidableEq Lock] [DecidableEq Cond]

theorem queue_update_sem (s : Kernel Thread Sem Lock Cond) (sem : SemRef Sem Lock) (value : Int)
    (threads : List Thread) :
    queue { s with sems := Function.update s.sems sem ⟨value, threads⟩ } =
      Function.update s.queue (.sem sem) threads := by
  funext place
  cases place with
  | ready => rfl
  | sem other =>
      change (Function.update s.sems sem ⟨value, threads⟩ other).queue = _
      by_cases same : other = sem
      · rw [same, Function.update_self, Function.update_self]
      · rw [Function.update_of_ne same, Function.update_of_ne (by simpa using same)]
        rfl
  | cond cond => rfl

theorem queue_update_cond (s : Kernel Thread Sem Lock Cond) (cond : Cond) (lock : Option Lock)
    (threads : List Thread) :
    queue { s with conds := Function.update s.conds cond ⟨threads, lock⟩ } =
      Function.update s.queue (.cond cond) threads := by
  funext place
  cases place with
  | ready => rfl
  | sem sem => rfl
  | cond other =>
      change (Function.update s.conds cond ⟨threads, lock⟩ other).waitCondQueue = _
      by_cases same : other = cond
      · rw [same, Function.update_self, Function.update_self]
      · rw [Function.update_of_ne same, Function.update_of_ne (by simpa using same)]
        rfl

/-- The current thread is queued. -/
theorem Running.enqueue (running : s.Running) (sems : SemRef Sem Lock → Semaphore Thread)
    (conds : Cond → Condition Thread Lock) {place : Queue Sem Lock Cond}
    (queued : queue { s with sems := sems, conds := conds } =
      Function.update s.queue place (s.queue place ++ [s.currentThread])) :
    Kept { s with sems := sems, conds := conds } where
  ordered := running.ordered
  exclusive := by
    refine running.exclusive.take place running.unqueued ?_ ?_
    · rw [queued, Function.update_self]
      exact List.perm_append_comm
    · intro other different
      rw [queued, Function.update_of_ne different]
  forked {other thread} member := by
    change s.status thread ≠ .justCreated
    rw [queued] at member
    by_cases same : other = place
    · rw [same, Function.update_self, List.mem_append, List.mem_singleton] at member
      rcases member with old | rfl
      · exact running.forked old
      · exact running.current_forked
    · rw [Function.update_of_ne same] at member
      exact running.forked member

variable [DecidableEq Thread]

omit [DecidableEq Sem] [DecidableEq Lock] [DecidableEq Cond] in
theorem queue_readyToRun (policy : s.scheduler.policy = .prioP) {thread : Thread}
    (done : s.readyToRun thread = .ok next) :
    (next.queue .ready).Perm (thread :: s.queue .ready) ∧
      ∀ place, place ≠ .ready → next.queue place = s.queue place := by
  rw [readyToRun_eq policy done]
  constructor
  · exact (LinkedList.perm_insertElement _ _).map ListElement.item
  · rintro (_ | sem | cond) different
    · exact absurd rfl different
    · rfl
    · rfl

omit [DecidableEq Sem] [DecidableEq Lock] [DecidableEq Cond] in
theorem mem_queue_readyToRun (policy : s.scheduler.policy = .prioP) {thread other : Thread}
    {place : Queue Sem Lock Cond} (done : s.readyToRun thread = .ok next)
    (member : other ∈ next.queue place) : other = thread ∨ other ∈ s.queue place := by
  obtain ⟨added, others⟩ := queue_readyToRun policy done
  by_cases atReady : place = .ready
  · rw [atReady, added.mem_iff, List.mem_cons, ← atReady] at member
    exact member
  · rw [others place atReady] at member
    exact Or.inr member

omit [DecidableEq Sem] [DecidableEq Lock] [DecidableEq Cond] in
theorem status_readyToRun (policy : s.scheduler.policy = .prioP) {thread other : Thread}
    (done : s.readyToRun thread = .ok next) (old : s.status other ≠ .justCreated) :
    next.status other ≠ .justCreated := by
  rw [readyToRun_eq policy done]
  change Function.update s.status thread .ready other ≠ .justCreated
  by_cases same : other = thread
  · rw [same, Function.update_self]
    exact ThreadStatus.noConfusion
  · rwa [Function.update_of_ne same]

omit [DecidableEq Sem] [DecidableEq Lock] [DecidableEq Cond] in
/-- A thread that is not queued is made ready. -/
theorem Kept.readyToRun (kept : s.Kept) {thread : Thread} (free : ∀ place, thread ∉ s.queue place)
    (done : s.readyToRun thread = .ok next) : next.Kept where
  ordered := kept.ordered.readyToRun done
  exclusive := by
    obtain ⟨added, others⟩ := queue_readyToRun kept.ordered.policy done
    exact kept.exclusive.take .ready free added others
  forked {place other} member := by
    rcases mem_queue_readyToRun kept.ordered.policy done member with rfl | old
    · rw [readyToRun_eq kept.ordered.policy done]
      change Function.update s.status other .ready other ≠ .justCreated
      rw [Function.update_self]
      exact ThreadStatus.noConfusion
    · exact status_readyToRun kept.ordered.policy done (kept.forked old)

omit [DecidableEq Thread] in
/-- A thread is taken out of a queue. -/
theorem Kept.dequeue (kept : s.Kept) {sems : SemRef Sem Lock → Semaphore Thread}
    {conds : Cond → Condition Thread Lock} {place : Queue Sem Lock Cond} {thread : Thread}
    {rest : List Thread} (waiting : s.queue place = thread :: rest)
    (dequeued : queue { s with sems := sems, conds := conds } =
      Function.update s.queue place rest) :
    Kept { s with sems := sems, conds := conds } ∧
      ∀ other, thread ∉ queue { s with sems := sems, conds := conds } other := by
  have sub : ∀ other, (queue { s with sems := sems, conds := conds } other).Sublist
      (s.queue other) := by
    intro other
    rw [dequeued]
    by_cases same : other = place
    · rw [same, Function.update_self, waiting]
      exact List.sublist_cons_self _ _
    · rw [Function.update_of_ne same]
  refine ⟨⟨kept.ordered, kept.exclusive.sublist sub, ?_⟩, ?_⟩
  · intro other waiter member
    exact kept.forked ((sub other).subset member)
  · intro other member
    have here : thread ∈ s.queue place := by
      rw [waiting]
      exact List.mem_cons_self
    have same := kept.exclusive.unique ((sub other).subset member) here
    rw [dequeued, same, Function.update_self] at member
    have nodup := kept.exclusive.nodup place
    rw [waiting, List.nodup_cons] at nodup
    exact nodup.1 member

/-- The first thread of a queue is made ready. -/
theorem Kept.wake (kept : s.Kept) {sems : SemRef Sem Lock → Semaphore Thread}
    {conds : Cond → Condition Thread Lock} {place : Queue Sem Lock Cond} {thread : Thread}
    {rest : List Thread} (waiting : s.queue place = thread :: rest)
    (dequeued : queue { s with sems := sems, conds := conds } =
      Function.update s.queue place rest)
    (done : { s with sems := sems, conds := conds }.readyToRun thread = .ok next) :
    Woken s [thread] next := by
  obtain ⟨others_kept, free⟩ := kept.dequeue waiting dequeued
  have policy := others_kept.ordered.policy
  have added := (queue_readyToRun policy done).1
  have here : thread ∈ s.queue place := by
    rw [waiting]
    exact List.mem_cons_self
  obtain ⟨priority, currentThread, mode⟩ := readyToRun_fields done
  refine
    { kept := others_kept.readyToRun free done
      priority := priority
      currentThread := currentThread
      mode := mode
      ready := ?_
      queued := ?_
      forked := fun old => status_readyToRun policy done old }
  · intro other
    have member := added.mem_iff (a := other)
    rw [List.mem_cons] at member
    exact member.trans (or_congr_left (by rw [List.mem_singleton]))
  · intro other waiter member
    rcases mem_queue_readyToRun policy done member with rfl | old
    · exact ⟨place, here⟩
    · rw [dequeued] at old
      by_cases atPlace : other = place
      · rw [atPlace, Function.update_self] at old
        refine ⟨place, ?_⟩
        rw [waiting]
        exact List.mem_cons_of_mem _ old
      · rw [Function.update_of_ne atPlace] at old
        exact ⟨other, old⟩

theorem Kept.v (kept : s.Kept) {sem : SemRef Sem Lock} (done : s.v sem = .ok next) :
    Woken s (s.queue (.sem sem)).head?.toList next := by
  rcases v_cases done with ⟨empty, rfl⟩ | ⟨thread, rest, waiting, inserted⟩
  · have none : s.queue (.sem sem) = [] := empty
    rw [none]
    apply kept.woken_nobody _ s.holder s.conds
    rw [queue_update_sem, ← none, Function.update_eq_self]
  · have waiting : s.queue (.sem sem) = thread :: rest := waiting
    rw [waiting]
    exact kept.wake waiting (queue_update_sem s sem _ rest) inserted

theorem Kept.release (kept : s.Kept) {lock : Lock} (done : s.release lock = .ok next) :
    Woken s (s.queue (.sem (.locked lock))).head?.toList next := by
  have unheld := kept.woken_nobody s.sems (Function.update s.holder lock none) s.conds rfl
  exact unheld.trans (unheld.kept.v (release_eq_ok done))

theorem Kept.signal (kept : s.Kept) {cond : Cond} {lock : Lock}
    (done : s.signal cond lock = .ok next) :
    Woken s (s.queue (.cond cond)).head?.toList next ∧
      next.queue (.cond cond) = (s.queue (.cond cond)).tail := by
  rcases signal_cases done with ⟨empty, rfl⟩ | ⟨thread, rest, waiting, inserted⟩
  · have none : next.queue (.cond cond) = [] := empty
    rw [none]
    exact ⟨kept.woken_nobody _ _ _ rfl, rfl⟩
  · have waiting : s.queue (.cond cond) = thread :: rest := waiting
    have dequeued := queue_update_cond s cond (s.conds cond).lock rest
    rw [waiting]
    refine ⟨kept.wake waiting dequeued inserted, ?_⟩
    have policy := (kept.dequeue waiting dequeued).1.ordered.policy
    have others := (queue_readyToRun policy inserted).2
    rw [others (.cond cond) nofun, dequeued, Function.update_self, List.tail_cons]

theorem Kept.signalAll (kept : s.Kept) {cond : Cond} {lock : Lock} {rounds : Nat}
    (done : s.signalAll cond lock rounds = .ok next) :
    Woken s ((s.queue (.cond cond)).take rounds) next := by
  induction rounds generalizing s with
  | zero =>
      cases done
      rw [List.take_zero]
      exact kept.woken_nobody _ _ _ rfl
  | succ rounds ih =>
      unfold Kernel.signalAll at done
      split at done
      · next empty =>
        have none : s.queue (.cond cond) = [] := empty
        cases done
        rw [none]
        exact kept.woken_nobody _ _ _ rfl
      · next filled =>
        obtain ⟨middle, first, later⟩ := bind_eq_ok_iff.mp done
        obtain ⟨woken, tail⟩ := kept.signal first
        have wokenLater := ih woken.kept later
        rw [tail] at wokenLater
        have both := woken.trans wokenLater
        cases waiting : s.queue (.cond cond) with
        | nil => exact absurd waiting filled
        | cons thread rest =>
            rw [waiting] at both
            exact both

theorem Kept.broadcast (kept : s.Kept) {cond : Cond} {lock : Lock}
    (done : s.broadcast cond lock = .ok next) : Woken s (s.queue (.cond cond)) next := by
  have woken := kept.signalAll (broadcast_eq_ok done)
  have all : (s.queue (.cond cond)).take (s.conds cond).waitCondQueue.length =
      s.queue (.cond cond) := List.take_length
  rwa [all] at woken

/-- The threads that successive calls of `V` wake. -/
def wokenByAll (queue : Sem → List Thread) : List Sem → List Thread
  | [] => []
  | sem :: sems =>
      (queue sem).head?.toList ++
        wokenByAll (Function.update queue sem (queue sem).tail) sems

theorem Kept.queue_v (kept : s.Kept) {sem : Sem} (done : s.v (.named sem) = .ok next) :
    (fun other => next.queue (.sem (.named other))) =
      Function.update (fun other => s.queue (.sem (.named other))) sem
        (s.queue (.sem (.named sem))).tail := by
  have dequeued : ∀ other, next.queue (.sem (.named other)) =
      Function.update s.queue (.sem (.named sem)) (s.queue (.sem (.named sem))).tail
        (.sem (.named other)) := by
    intro other
    rcases v_cases done with ⟨empty, rfl⟩ | ⟨thread, rest, waiting, inserted⟩
    · have none : s.queue (.sem (.named sem)) = [] := empty
      rw [queue_update_sem, none, List.tail_nil]
    · have waiting : s.queue (.sem (.named sem)) = thread :: rest := waiting
      have others := (queue_readyToRun (by exact kept.ordered.policy) inserted).2
      rw [others (.sem (.named other)) nofun, queue_update_sem, waiting, List.tail_cons]
  ext other
  rw [dequeued]
  by_cases same : other = sem
  · rw [same, Function.update_self, Function.update_self]
  · rw [Function.update_of_ne same, Function.update_of_ne (by simpa using same)]

theorem Kept.vAll (kept : s.Kept) {sems : List Sem} (done : s.vAll sems = .ok next) :
    Woken s (wokenByAll (fun sem => s.queue (.sem (.named sem))) sems) next := by
  induction sems generalizing s with
  | nil =>
      cases done
      exact kept.woken_nobody _ _ _ rfl
  | cons sem sems ih =>
      obtain ⟨middle, first, later⟩ := bind_eq_ok_iff.mp done
      have woken := kept.v first
      have wokenLater := ih woken.kept later
      rw [kept.queue_v first] at wokenLater
      exact woken.trans wokenLater

end Queues

/-- What holds in every state of a run in which no thread of higher priority is woken. -/
structure Governed (s : Kernel Thread Sem Lock Cond) : Prop where
  kept : s.Kept
  running : s.mode ≠ .asleep → s.Running
  preemptive : s.mode ≠ .asleep → s.Preemptive

theorem Running.governed (running : s.Running) (preemptive : s.Preemptive) : s.Governed :=
  ⟨running.toKept, fun _ => running, fun _ => preemptive⟩

theorem Kept.governed (kept : s.Kept) (asleep : s.mode = .asleep) : s.Governed :=
  ⟨kept, fun awake => absurd asleep awake, fun awake => absurd asleep awake⟩

variable [DecidableEq Thread]

omit [DecidableEq Thread] in
/-- `FindNextToRun` returns a thread that is then not queued any more. -/
theorem Kept.findNextToRun (kept : s.Kept) {nextThread : Thread}
    (found : s.findNextToRun = (some nextThread, next)) :
    next.Kept ∧ (∀ place, nextThread ∉ next.queue place) ∧
      (∀ place thread, thread ∈ next.queue place → thread ∈ s.queue place) ∧
      nextThread ∈ s.queue .ready ∧
      (∀ thread ∈ next.queue .ready, s.priority thread ≤ s.priority nextThread) := by
  rcases findNextToRun_cases kept.ordered with ⟨-, equal⟩ | ⟨first, rest, elements, equal⟩
  · rw [equal] at found
    cases found
  · have next_ordered := kept.ordered.findNextToRun
    rw [found] at next_ordered
    rw [equal] at found
    cases found
    have items : s.queue .ready = first.item :: rest.map ListElement.item := by
      simp [queue, LinkedList.items, elements]
    have sub : ∀ place, (queue { s with
        scheduler := { s.scheduler with readyList := ⟨rest⟩ }
        picks := ⟨first.item, rest.map ListElement.item, s.priority⟩ :: s.picks } place).Sublist
          (s.queue place) := by
      rintro (_ | sem | cond)
      · rw [items]
        exact List.sublist_cons_self _ _
      · exact List.Sublist.refl _
      · exact List.Sublist.refl _
    have placed := kept.ordered.placed
    rw [elements] at placed
    have here : first.item ∈ s.queue .ready := by
      rw [items]
      exact List.mem_cons_self
    refine ⟨⟨next_ordered, kept.exclusive.sublist sub, ?_⟩, ?_, ?_, here, placed.first_best⟩
    · intro place thread member
      exact kept.forked ((sub place).subset member)
    · intro place member
      have same := kept.exclusive.unique ((sub place).subset member) here
      subst same
      have nodup := kept.exclusive.nodup .ready
      rw [items, List.nodup_cons] at nodup
      exact nodup.1 member
    · intro place thread member
      exact (sub place).subset member

/-- The processor is given to a thread that is not queued. -/
theorem Kept.run (kept : s.Kept) {thread : Thread} (free : ∀ place, thread ∉ s.queue place)
    (best : ∀ other ∈ s.queue .ready, s.priority other ≤ s.priority thread) :
    (s.run thread).Governed := by
  refine Running.governed ?_ best
  exact
    { ordered := kept.ordered
      exclusive := kept.exclusive
      forked := fun {place other} member => by
        have different : other ≠ thread := by
          rintro rfl
          exact free place member
        change Function.update s.status thread .running other ≠ .justCreated
        rw [Function.update_of_ne different]
        exact kept.forked member
      unqueued := free
      current_forked := by
        change Function.update s.status thread .running thread ≠ .justCreated
        rw [Function.update_self]
        exact ThreadStatus.noConfusion }

theorem Running.update_priority (running : s.Running) (prio : Int) :
    Running { s with priority := Function.update s.priority s.currentThread prio } where
  ordered := running.ordered.update_priority (running.unqueued .ready) prio
  exclusive := running.exclusive
  forked := running.forked
  unqueued := running.unqueued
  current_forked := running.current_forked

/-- Another thread is made ready while the current one keeps the processor. -/
theorem Running.readyToRun (running : s.Running) {thread : Thread}
    (free : ∀ place, thread ∉ s.queue place) (other : s.currentThread ≠ thread)
    (done : s.readyToRun thread = .ok next) : next.Running where
  toKept := running.toKept.readyToRun free done
  unqueued place member := by
    rw [(readyToRun_fields done).2.1] at member
    rcases mem_queue_readyToRun running.ordered.policy done member with same | old
    · exact other same
    · exact running.unqueued place old
  current_forked := by
    rw [(readyToRun_fields done).2.1]
    exact status_readyToRun running.ordered.policy done running.current_forked

/-- After `Yield` no ready thread has a higher priority than the current one, which may be
another thread. -/
theorem Running.yield (running : s.Running) (done : s.yield = .ok next) : next.Governed := by
  obtain ⟨prio, lowered, isLowered, outcome⟩ := yield_cases done
  have lowered_running : lowered.Running := by
    rw [isLowered]
    exact running.update_priority prio
  have current : lowered.currentThread = s.currentThread := by rw [isLowered]
  rw [← current] at outcome
  rcases outcome with ⟨after, found, rfl⟩ | ⟨nextThread, after, ready, found, notLower, inserted,
    rfl⟩ | ⟨nextThread, after, found, lower, inserted⟩
  · rcases findNextToRun_cases lowered_running.ordered with
      ⟨empty, equal⟩ | ⟨first, rest, -, equal⟩
    · rw [equal] at found
      cases found
      apply lowered_running.governed
      intro thread member
      simp [LinkedList.items, empty] at member
    · rw [equal] at found
      cases found
  · obtain ⟨after_kept, free, sub, wasReady, best⟩ := lowered_running.toKept.findNextToRun found
    have policy := after_kept.ordered.policy
    have different : nextThread ≠ lowered.currentThread := by
      rintro rfl
      exact lowered_running.unqueued .ready wasReady
    have ready_kept := after_kept.readyToRun
      (fun place member => lowered_running.unqueued place (sub place _ member)) inserted
    have samePriority : ready.priority = lowered.priority := by
      rw [(readyToRun_fields inserted).1, (findNextToRun_fields found).1]
    have resumable : Kept { ready with
        resumption := Function.update ready.resumption lowered.currentThread .user } :=
      ⟨ready_kept.ordered, ready_kept.exclusive, ready_kept.forked⟩
    refine resumable.run ?_ ?_
    · intro place member
      rcases mem_queue_readyToRun policy inserted member with same | old
      · exact different same
      · exact free place old
    · intro other member
      have member : other ∈ ready.queue .ready := member
      change ready.priority other ≤ ready.priority nextThread
      rw [samePriority]
      rcases mem_queue_readyToRun policy inserted member with rfl | old
      · exact notLower
      · exact best other old
  · obtain ⟨after_kept, free, sub, wasReady, best⟩ := lowered_running.toKept.findNextToRun found
    obtain ⟨samePriority, sameCurrent, -, sameStatus⟩ := findNextToRun_fields found
    have after_running : after.Running :=
      { after_kept with
        unqueued := by
          rw [sameCurrent]
          exact fun place member => lowered_running.unqueued place (sub place _ member)
        current_forked := by
          rw [sameCurrent, sameStatus]
          exact lowered_running.current_forked }
    have other : after.currentThread ≠ nextThread := by
      rw [sameCurrent]
      rintro rfl
      exact lowered_running.unqueued .ready wasReady
    apply (after_running.readyToRun free other inserted).governed
    intro thread member
    rw [(readyToRun_fields inserted).1, (readyToRun_fields inserted).2.1, samePriority, sameCurrent]
    have member : thread ∈ next.queue .ready := member
    rcases mem_queue_readyToRun after_kept.ordered.policy inserted member with rfl | old
    · exact lower.le
    · exact (best thread old).trans lower.le

/-- A forked thread preempts the current one if it has a higher priority. -/
theorem Running.fork (running : s.Running) (preemptive : s.Preemptive) {thread : Thread}
    (done : s.fork thread = .ok next) : next.Governed := by
  obtain ⟨new, rfl | ⟨-, ready, inserted, outcome⟩⟩ := fork_cases done
  · exact running.governed preemptive
  have free : ∀ place, thread ∉ s.queue place :=
    fun place member => running.forked member new
  have other : s.currentThread ≠ thread := by
    rintro rfl
    exact running.current_forked new
  have ready_running := running.readyToRun free other inserted
  split at outcome
  · exact ready_running.yield outcome
  · next stays =>
    obtain ⟨samePriority, sameCurrent, -⟩ := readyToRun_fields inserted
    rw [Scheduler.shouldISwitch_of_prioP ready_running.ordered.policy, not_lt] at stays
    rw [outcome]
    apply ready_running.governed
    intro waiter member
    have member : waiter ∈ ready.queue .ready := member
    rcases mem_queue_readyToRun running.ordered.policy inserted member with rfl | old
    · exact stays
    · rw [samePriority, sameCurrent]
      exact preemptive waiter old

variable [DecidableEq Sem] [DecidableEq Lock] [DecidableEq Cond]

theorem Running.sleepP (running : s.Running) (sem : SemRef Sem Lock) :
    Governed ({ s with
      sems := Function.update s.sems sem
        { s.sems sem with queue := (s.sems sem).queue ++ [s.currentThread] } }.sleep (.p sem)) := by
  have queued := running.enqueue _ s.conds (queue_update_sem s sem (s.sems sem).value
    ((s.sems sem).queue ++ [s.currentThread]))
  exact (queued.sleep _).governed rfl

omit [DecidableEq Thread] in
/-- The current thread goes on outside of the kernel. -/
theorem Running.in_user_mode (running : s.Running) (preemptive : s.Preemptive)
    (sem : SemRef Sem Lock) (value : Int) (holder : Lock → Option Thread) :
    Governed { s with
      sems := Function.update s.sems sem { s.sems sem with value := value }
      holder := holder
      mode := .user } := by
  have woken := running.toKept.woken_nobody
    (Function.update s.sems sem { s.sems sem with value := value }) holder s.conds
    ((queue_update_sem s sem value _).trans (Function.update_eq_self _ _))
  have still := woken.running running
  have still_preemptive := (woken.preemptive_iff preemptive).mpr (by simp)
  exact Running.governed ⟨⟨still.ordered, still.exclusive, still.forked⟩, still.unqueued,
    still.current_forked⟩ still_preemptive

theorem Running.p (running : s.Running) (preemptive : s.Preemptive) (sem : SemRef Sem Lock) :
    (s.p sem id).Governed := by
  unfold Kernel.p
  split
  · exact running.sleepP sem
  · exact running.in_user_mode preemptive sem _ s.holder

theorem Running.acquire (running : s.Running) (preemptive : s.Preemptive) (lock : Lock) :
    (s.acquire lock).Governed := by
  unfold Kernel.acquire Kernel.p
  split
  · exact running.sleepP (.locked lock)
  · exact running.in_user_mode preemptive (.locked lock) _ _

theorem Running.wait (running : s.Running) {cond : Cond} {lock : Lock}
    (done : s.wait cond lock = .ok next) : next.Governed := by
  obtain ⟨condLock, released, unlocked, rfl⟩ := wait_eq_ok done
  have queued := running.enqueue s.sems _ (queue_update_cond s cond condLock
    ((s.conds cond).waitCondQueue ++ [s.currentThread]))
  exact ((queued.release unlocked).kept.sleep _).governed rfl

theorem Running.proceed (running : s.Running) (preemptive : s.Preemptive)
    (done : s.proceed = .ok next) : next.Governed := by
  unfold Kernel.proceed at done
  split at done
  all_goals cases done
  · exact Running.governed ⟨⟨running.ordered, running.exclusive, running.forked⟩,
      running.unqueued, running.current_forked⟩ preemptive
  · exact running.p preemptive _
  · exact running.acquire preemptive _
  · exact running.acquire preemptive _

/-- The threads that a step makes ready without asking whether they preempt the current one.
`Wait` releases a lock too, but then gives up the processor. -/
def wokenBy (s : Kernel Thread Sem Lock Cond) : Action Thread Sem Lock Cond → List Thread
  | .call (.v sem) => (s.queue (.sem (.named sem))).head?.toList
  | .call (.release lock) => (s.queue (.sem (.locked lock))).head?.toList
  | .call (.signal cond _) => (s.queue (.cond cond)).head?.toList
  | .call (.broadcast cond _) => s.queue (.cond cond)
  | .interrupt sems => wokenByAll (fun sem => s.queue (.sem (.named sem))) sems
  | _ => []

/-- Unless the processor is idle, only threads whose priority is not higher than that of the
current thread are woken. -/
def WakesNoHigher (s : Kernel Thread Sem Lock Cond) (action : Action Thread Sem Lock Cond) :
    Prop :=
  s.mode ≠ .asleep → ∀ thread ∈ s.wokenBy action, s.priority thread ≤ s.priority s.currentThread

/-- While interrupts are enabled, no ready thread has a higher priority than the running
one. -/
def PreemptiveInUserMode (s : Kernel Thread Sem Lock Cond) : Prop :=
  s.mode = .user → s.Preemptive

instance (s : Kernel Thread Sem Lock Cond) : Decidable s.PreemptiveInUserMode :=
  inferInstanceAs (Decidable (_ → ∀ thread ∈ s.scheduler.readyList.items, _))

/-- A step wakes threads, or takes the decision to preempt. -/
theorem Governed.step_cases (governed : s.Governed) {action : Action Thread Sem Lock Cond}
    (done : s.step action = .ok next) :
    (s.mode = .user ∨ s.mode = .asleep) ∧ Woken s (s.wokenBy action) next ∨
      s.wokenBy action = [] ∧ next.Governed := by
  cases action with
  | call call =>
      simp only [step] at done
      split at done
      case isFalse => cases done
      case isTrue inUserMode =>
        have awake : s.mode ≠ .asleep := by
          rw [inUserMode]
          exact Mode.noConfusion
        have running := governed.running awake
        have preemptive := governed.preemptive awake
        cases call with
        | fork thread => exact Or.inr ⟨rfl, running.fork preemptive done⟩
        | yield => exact Or.inr ⟨rfl, running.yield done⟩
        | p sem =>
            cases done
            exact Or.inr ⟨rfl, running.p preemptive _⟩
        | v sem => exact Or.inl ⟨Or.inl inUserMode, governed.kept.v done⟩
        | acquire lock =>
            cases done
            exact Or.inr ⟨rfl, running.acquire preemptive _⟩
        | release lock => exact Or.inl ⟨Or.inl inUserMode, governed.kept.release done⟩
        | wait cond lock => exact Or.inr ⟨rfl, running.wait done⟩
        | signal cond lock => exact Or.inl ⟨Or.inl inUserMode, (governed.kept.signal done).1⟩
        | broadcast cond lock => exact Or.inl ⟨Or.inl inUserMode, governed.kept.broadcast done⟩
        | finish =>
            cases done
            exact Or.inr ⟨rfl, (governed.kept.sleep _).governed rfl⟩
  | proceed =>
      simp only [step] at done
      split at done
      case isFalse => cases done
      case isTrue resumed =>
        have awake : s.mode ≠ .asleep := by
          rw [resumed]
          exact Mode.noConfusion
        exact Or.inr ⟨rfl, (governed.running awake).proceed (governed.preemptive awake) done⟩
  | dispatch =>
      simp only [step] at done
      split at done
      case isFalse => cases done
      case isTrue =>
        split at done
        · cases done
        · next nextThread after found =>
          cases done
          obtain ⟨after_kept, free, -, -, best⟩ := governed.kept.findNextToRun found
          rw [← (findNextToRun_fields found).1] at best
          exact Or.inr ⟨rfl, after_kept.run free best⟩
  | interrupt sems =>
      simp only [step] at done
      split at done
      case isFalse => cases done
      case isTrue allowed =>
        exact Or.inl ⟨allowed.imp_right And.left, governed.kept.vAll done⟩

theorem Governed.step (governed : s.Governed) {action : Action Thread Sem Lock Cond}
    (timid : s.WakesNoHigher action) (done : s.step action = .ok next) : next.Governed := by
  rcases governed.step_cases done with ⟨-, woken⟩ | ⟨-, after⟩
  · refine ⟨woken.kept, ?_, ?_⟩
    · rw [woken.mode]
      exact fun awake => woken.running (governed.running awake)
    · rw [woken.mode]
      exact fun awake => (woken.preemptive_iff (governed.preemptive awake)).mpr (timid awake)
  · exact after

theorem Governed.broken (governed : s.Governed) {action : Action Thread Sem Lock Cond}
    (rash : ¬ s.WakesNoHigher action) (done : s.step action = .ok next) :
    ¬ next.PreemptiveInUserMode := by
  intro after
  apply rash
  intro awake
  rcases governed.step_cases done with ⟨modes, woken⟩ | ⟨nobody, -⟩
  · have inUserMode := woken.mode.trans (modes.resolve_right awake)
    exact (woken.preemptive_iff (governed.preemptive awake)).mp (after inUserMode)
  · rw [nobody]
    exact fun thread member => absurd member List.not_mem_nil

omit [DecidableEq Sem] [DecidableEq Lock] [DecidableEq Cond] in
theorem governed_boot (main : Thread) (threadID priority : Thread → Int) (value : Sem → Int) :
    (boot main threadID priority value : Kernel Thread Sem Lock Cond).Governed := by
  have empty : ∀ place,
      (boot main threadID priority value : Kernel Thread Sem Lock Cond).queue place = [] := by
    rintro (_ | (sem | lock) | cond) <;> rfl
  refine Running.governed ?_ ?_
  · exact
      { ordered := ordered_boot main threadID priority value
        exclusive := ⟨fun place => by simp [empty], fun inFirst => by simp [empty] at inFirst⟩
        forked := fun member => by simp [empty] at member
        unqueued := fun place member => by simp [empty] at member
        current_forked := by
          change Function.update (fun _ => ThreadStatus.justCreated) main .running main ≠ _
          rw [Function.update_self]
          exact ThreadStatus.noConfusion }
  · exact fun thread member => absurd member List.not_mem_nil

/-- No ready thread ever has a higher priority than the running one while interrupts are
enabled, in exactly those runs in which no thread of higher priority is woken while another
one is running. -/
theorem preemptive_along_run_iff (main : Thread) (threadID priority : Thread → Int)
    (value : Sem → Int) (actions : List (Action Thread Sem Lock Cond)) :
    AlongRun step PreemptiveInUserMode (boot main threadID priority value) actions ↔
      RunAllowed step WakesNoHigher (boot main threadID priority value) actions := by
  have preserved : ∀ (s : Kernel Thread Sem Lock Cond) action next, s.Governed →
      s.WakesNoHigher action → s.step action = .ok next → next.Governed :=
    fun s action next governed timid done => governed.step timid done
  have implies : ∀ s : Kernel Thread Sem Lock Cond, s.Governed → s.PreemptiveInUserMode := by
    intro s governed inUserMode
    apply governed.preemptive
    rw [inUserMode]
    exact Mode.noConfusion
  exact alongRun_iff_runAllowed preserved implies
    (fun s action next governed rash done => governed.broken rash done)
    (governed_boot main threadID priority value)

/-- The main thread, of priority 10, waits for a semaphore, and is not given the processor
when a thread of priority 5 calls `V`. -/
theorem not_preempted_by_v :
    let before : Kernel ℕ Unit Empty Empty :=
      boot 0 (fun thread => thread) (fun thread => if thread = 0 then 10 else 5) fun _ => 0
    ¬ AlongRun step PreemptiveInUserMode before
      [.call (.fork 1), .call (.p ()), .dispatch, .proceed, .call (.v ())] := by
  decide +kernel

end Kernel

end Nachos
