import Nachos.SynchQueues

/-!
# Semaphores, locks and condition variables refine the Mesa monitor

The code in `threads/synch.cc` builds locks from semaphores and condition variables
from locks and `Sleep`.  Seen from outside, a lock is free exactly when its inner
semaphore has a unit, and each step of the system is a step of the idealised monitor
or is not noticed there at all: the thread only found a semaphore taken.
-/

namespace Nachos

open MesaMonitor TransitionRuns

namespace SynchSystem

variable {Thread Vars Pc Sem Lock Cond Input : Type}

section Places

variable (program : FlowChart Thread Vars Pc Sem Lock Cond Input Fault)

/-- The semaphore that the call at a point is a `P` of. -/
def pSem (pc : Pc) : Option (SemRef Sem Lock) :=
  match program.code pc with
  | .p sem _ => some (.named sem)
  | .acquire lock _ => some (.locked lock)
  | _ => none

/-- The semaphore that the `Wait` at a point calls `P` of at its end. -/
def waitSem (pc : Pc) : Option (SemRef Sem Lock) :=
  match program.code pc with
  | .wait cond _ => some (.locked (program.lockOf cond))
  | _ => none

/-- The semaphore in whose `P` a thread sleeps. -/
def asleepOn (activity : Activity Pc) : Option (SemRef Sem Lock) :=
  match activity.phase with
  | .sleepP => pSem program activity.pc
  | .sleepReacquire => waitSem program activity.pc
  | _ => none

/-- The semaphore whose `V` made a thread ready, until the thread tests it again. -/
def wokenOn (activity : Activity Pc) : Option (SemRef Sem Lock) :=
  match activity.phase with
  | .retryP => pSem program activity.pc
  | .retryReacquire => waitSem program activity.pc
  | _ => none

/-- A semaphore's queue holds exactly the threads that sleep in its `P`. -/
structure SemQueues (sems : SemRef Sem Lock → Semaphore Thread)
    (threads : Thread → Activity Pc) : Prop where
  mem_iff : ∀ sem thread, thread ∈ (sems sem).queue ↔
    asleepOn program (threads thread) = some sem
  nodup : ∀ sem, (sems sem).queue.Nodup

end Places

section Activities

variable {program : FlowChart Thread Vars Pc Sem Lock Cond Input Fault} {activity : Activity Pc}
  {sem : SemRef Sem Lock} {asleep : Phase}

@[simp]
theorem asleepOn_call (pc : Pc) : asleepOn program ⟨pc, .call⟩ = none :=
  rfl

@[simp]
theorem wokenOn_call (pc : Pc) : wokenOn program ⟨pc, .call⟩ = none :=
  rfl

theorem asleepOn_of_call (phase : activity.phase = .call) : asleepOn program activity = none := by
  simp [asleepOn, phase]

theorem wokenOn_of_call (phase : activity.phase = .call) : wokenOn program activity = none := by
  simp [wokenOn, phase]

theorem Tests.asleepOn_eq (tests : Tests program activity sem asleep) :
    asleepOn program activity = none := by
  cases tests with
  | p code phase => rcases phase with phase | phase <;> simp [asleepOn, phase]
  | acquire code phase => rcases phase with phase | phase <;> simp [asleepOn, phase]
  | wait code phase => rcases phase with phase | phase <;> simp [asleepOn, phase]

/-- A thread that sleeps after its test sleeps on the semaphore that it tested. -/
theorem Tests.asleepOn_sleep (tests : Tests program activity sem asleep) :
    asleepOn program { activity with phase := asleep } = some sem := by
  cases tests with
  | p code phase => simp [asleepOn, pSem, code]
  | acquire code phase => simp [asleepOn, pSem, code]
  | wait code phase => simp [asleepOn, waitSem, code]

theorem Tests.wokenOn_sleep (tests : Tests program activity sem asleep) :
    wokenOn program { activity with phase := asleep } = none := by
  cases tests <;> rfl

/-- A thread that tests a semaphore is new there or was made ready by its `V`. -/
theorem Tests.wokenOn_eq (tests : Tests program activity sem asleep) :
    wokenOn program activity = none ∨ wokenOn program activity = some sem := by
  cases tests with
  | p code phase => rcases phase with phase | phase <;> simp [wokenOn, phase, pSem, code]
  | acquire code phase => rcases phase with phase | phase <;> simp [wokenOn, phase, pSem, code]
  | wait code phase => rcases phase with phase | phase <;> simp [wokenOn, phase, waitSem, code]

/-- A thread that is made ready in a `P` is no longer asleep there. -/
theorem ready_of_asleepOn (isAsleep : asleepOn program activity = some sem) :
    asleepOn program { activity with phase := activity.phase.ready } = none ∧
      wokenOn program activity = none ∧
      wokenOn program { activity with phase := activity.phase.ready } = some sem := by
  cases phase : activity.phase <;> simp_all [asleepOn, wokenOn, Phase.ready]

end Activities

section Queues

variable {program : FlowChart Thread Vars Pc Sem Lock Cond Input Fault}
  {sems : SemRef Sem Lock → Semaphore Thread} {threads : Thread → Activity Pc}

theorem SemQueues.congr {others : SemRef Sem Lock → Semaphore Thread}
    (queues : SemQueues program sems threads)
    (same : ∀ sem, (others sem).queue = (sems sem).queue) : SemQueues program others threads where
  mem_iff sem thread := by rw [same, queues.mem_iff]
  nodup sem := by rw [same]; exact queues.nodup sem

variable [DecidableEq Thread]

/-- A thread that is awake goes on. -/
theorem SemQueues.move (queues : SemQueues program sems threads) {thread : Thread}
    {target : Activity Pc} (before : asleepOn program (threads thread) = none)
    (after : asleepOn program target = none) :
    SemQueues program sems (Function.update threads thread target) where
  mem_iff sem other := by
    by_cases same : other = thread
    · subst same
      rw [Function.update_self, queues.mem_iff, before, after]
    · rw [Function.update_of_ne same, queues.mem_iff]
  nodup := queues.nodup

/-- A waiter of a condition variable is made ready. -/
theorem SemQueues.readyAll_waiting (queues : SemQueues program sems threads)
    {woken : List Thread} (waiting : ∀ thread ∈ woken, (threads thread).phase = .sleepWait) :
    SemQueues program sems (readyAll woken threads) where
  mem_iff sem thread := by
    by_cases member : thread ∈ woken
    · rw [readyAll_of_mem member, queues.mem_iff]
      simp [asleepOn, waiting thread member, Phase.ready]
    · rw [readyAll_of_notMem member, queues.mem_iff]
  nodup := queues.nodup

variable [DecidableEq Sem] [DecidableEq Lock]

theorem SemQueues.block (queues : SemQueues program sems threads) {thread : Thread}
    {target : Activity Pc} {sem : SemRef Sem Lock}
    (before : asleepOn program (threads thread) = none)
    (after : asleepOn program target = some sem) :
    SemQueues program
      (Function.update sems sem { sems sem with queue := (sems sem).queue ++ [thread] })
      (Function.update threads thread target) where
  mem_iff other waiter := by
    have absent : thread ∉ (sems other).queue := by
      rw [queues.mem_iff, before]
      exact nofun
    by_cases moved : waiter = thread
    · subst moved
      rw [Function.update_self, after]
      by_cases same : other = sem
      · subst same
        simp
      · simp [Function.update_of_ne same, absent, Ne.symm same]
    · rw [Function.update_of_ne moved, ← queues.mem_iff]
      by_cases same : other = sem
      · subst same
        simp [moved]
      · rw [Function.update_of_ne same]
  nodup other := by
    by_cases same : other = sem
    · subst same
      rw [Function.update_self]
      refine List.nodup_append.mpr ⟨queues.nodup other, List.nodup_singleton thread, ?_⟩
      rintro first member second single rfl
      rw [List.mem_singleton] at single
      subst single
      rw [queues.mem_iff, before] at member
      cases member
    · rw [Function.update_of_ne same]
      exact queues.nodup other

theorem SemQueues.afterV (queues : SemQueues program sems threads) (sem : SemRef Sem Lock)
    (value : Int) :
    SemQueues program (Function.update sems sem ⟨value, (sems sem).queue.tail⟩)
      (readyAll ((sems sem).queue.take 1) threads) where
  mem_iff other waiter := by
    have listed := queues.mem_iff other waiter
    have distinct := queues.nodup sem
    cases queue : (sems sem).queue with
    | nil =>
        simp only [List.tail_nil, List.take_nil, readyAll_nil, ← listed]
        by_cases same : other = sem
        · subst same
          simp [queue]
        · rw [Function.update_of_ne same]
    | cons first rest =>
        rw [queue, List.nodup_cons] at distinct
        have firstAsleep : asleepOn program (threads first) = some sem :=
          (queues.mem_iff sem first).mp (by simp [queue])
        simp only [List.tail_cons, List.take_succ_cons, List.take_zero]
        by_cases isFirst : waiter = first
        · subst isFirst
          rw [readyAll_of_mem (by simp), (ready_of_asleepOn firstAsleep).1]
          by_cases same : other = sem
          · subst same
            simp [distinct.1]
          · rw [Function.update_of_ne same, listed, firstAsleep]
            simp [Ne.symm same]
        · rw [readyAll_of_notMem (by simpa using isFirst), ← listed]
          by_cases same : other = sem
          · subst same
            simp [queue, isFirst]
          · rw [Function.update_of_ne same]
  nodup other := by
    by_cases same : other = sem
    · subst same
      rw [Function.update_self]
      exact (queues.nodup other).sublist (List.tail_sublist _)
    · rw [Function.update_of_ne same]
      exact queues.nodup other

end Queues

section Monitor

/-- Where a thread is, without the details of `P`. -/
def stageOf (activity : Activity Pc) : Stage Pc :=
  match activity.phase with
  | .call | .sleepP | .retryP => .active activity.pc
  | .sleepWait => .waiting activity.pc
  | .reacquire | .sleepReacquire | .retryReacquire => .signalled activity.pc

/-- The system as an idealised monitor. -/
def monitor (s : SynchSystem Thread Vars Pc Sem Lock Cond) :
    State Thread Vars Pc Sem Lock Cond where
  vars := s.vars
  value := fun sem => (s.sems (.named sem)).value
  holder := s.holder
  queue := fun cond => (s.conds cond).waitCondQueue
  stage := fun thread => stageOf (s.threads thread)

@[simp]
theorem stageOf_call (pc : Pc) : stageOf ⟨pc, .call⟩ = .active pc :=
  rfl

theorem stageOf_of_call {activity : Activity Pc} (phase : activity.phase = .call) :
    stageOf activity = .active activity.pc := by
  simp [stageOf, phase]

theorem phase_of_stageOf {activity : Activity Pc} {pc : Pc}
    (waits : stageOf activity = .waiting pc) : activity.phase = .sleepWait := by
  cases phase : activity.phase <;> simp [stageOf, phase] at waits
  rfl

variable {program : FlowChart Thread Vars Pc Sem Lock Cond Input Fault}

/-- Sleeping in a `P`, and being made ready there, is not noticed. -/
theorem stageOf_ready {activity : Activity Pc} {sem : SemRef Sem Lock}
    (isAsleep : asleepOn program activity = some sem) :
    stageOf { activity with phase := activity.phase.ready } = stageOf activity := by
  cases phase : activity.phase <;> simp_all [asleepOn, stageOf, Phase.ready]

theorem Tests.stageOf_sleep {activity : Activity Pc} {sem : SemRef Sem Lock} {asleep : Phase}
    (tests : Tests program activity sem asleep) :
    stageOf { activity with phase := asleep } = stageOf activity := by
  cases tests with
  | p code phase => rcases phase with phase | phase <;> simp [stageOf, phase]
  | acquire code phase => rcases phase with phase | phase <;> simp [stageOf, phase]
  | wait code phase => rcases phase with phase | phase <;> simp [stageOf, phase]

section Updates

theorem value_update_named [DecidableEq Sem] [DecidableEq Lock]
    (sems : SemRef Sem Lock → Semaphore Thread) (sem : Sem)
    (changed : Semaphore Thread) :
    (fun other => (Function.update sems (.named sem) changed (.named other)).value) =
      Function.update (fun other => (sems (.named other)).value) sem changed.value := by
  ext other
  by_cases same : other = sem
  · subst same
    simp
  · have distinct : (SemRef.named other : SemRef Sem Lock) ≠ .named sem := by
      simpa using same
    rw [Function.update_of_ne distinct, Function.update_of_ne same]

theorem value_update_locked [DecidableEq Sem] [DecidableEq Lock]
    (sems : SemRef Sem Lock → Semaphore Thread) (lock : Lock)
    (changed : Semaphore Thread) :
    (fun other => (Function.update sems (.locked lock) changed (.named other)).value) =
      fun other => (sems (.named other)).value := by
  ext other
  simp

theorem queue_update [DecidableEq Cond] (conds : Cond → Condition Thread Lock) (cond : Cond)
    (changed : Condition Thread Lock) :
    (fun other => (Function.update conds cond changed other).waitCondQueue) =
      Function.update (fun other => (conds other).waitCondQueue) cond
        changed.waitCondQueue := by
  ext other
  by_cases same : other = cond
  · subst same
    simp
  · simp [Function.update_of_ne same]

end Updates

/-- The semaphore inside a lock has a unit exactly while the lock is free. -/
def LockUnit (holder : Option Thread) (value : Int) : Prop :=
  (holder = none ∧ value = 1) ∨ (holder ≠ none ∧ value = 0)

/-- What holds in every state of the system: the queues are those of the threads that
sleep, and the semaphore inside a lock has a unit exactly while the lock is free. -/
structure Sound (program : FlowChart Thread Vars Pc Sem Lock Cond Input Fault)
    (s : SynchSystem Thread Vars Pc Sem Lock Cond) : Prop where
  semQueues : SemQueues program s.sems s.threads
  queued : Queued program s.monitor
  locked : ∀ lock, LockUnit (s.holder lock) (s.sems (.locked lock)).value
  tied : ∀ cond, (s.conds cond).waitCondQueue ≠ [] →
    (s.conds cond).lock = some (program.lockOf cond)

theorem sound_boot (program : FlowChart Thread Vars Pc Sem Lock Cond Input Fault) (vars : Vars)
    (value : Sem → Int) (entry : Thread → Pc) : Sound program (boot vars value entry) where
  semQueues :=
    { mem_iff := fun sem thread => by cases sem <;> simp [boot]
      nodup := fun sem => by cases sem <;> simp [boot] }
  queued := queued_start program vars value entry
  locked lock := Or.inl ⟨rfl, rfl⟩
  tied cond nonempty := absurd rfl nonempty

variable {s : SynchSystem Thread Vars Pc Sem Lock Cond}

/-- The devices may change the shared variables. -/
theorem Sound.withVars (sound : Sound program s) (vars : Vars) :
    Sound program { s with vars := vars } :=
  ⟨sound.semQueues, ⟨sound.queued.mem_iff, sound.queued.nodup, sound.queued.atWait⟩,
    sound.locked, sound.tied⟩

theorem Sound.waiting (sound : Sound program s) {cond : Cond} {thread : Thread}
    (member : thread ∈ (s.conds cond).waitCondQueue) :
    (s.threads thread).phase = .sleepWait := by
  obtain ⟨pc, target, waits, -⟩ := (sound.queued.mem_iff cond thread).mp member
  exact phase_of_stageOf waits

/-- The thread was notified by `Signal` or `Broadcast` and has not tested its condition
since. -/
def hasToTest (activity : Activity Pc) : Bool :=
  activity.phase = .reacquire ∨ activity.phase = .sleepReacquire ∨
    activity.phase = .retryReacquire

theorem hasToTest_of_stageOf {activity : Activity Pc} {pc : Pc}
    (notified : stageOf activity = .signalled pc) : hasToTest activity = true := by
  cases phase : activity.phase <;> simp [stageOf, phase] at notified
  all_goals simp [hasToTest, phase]

theorem pc_of_stageOf {activity : Activity Pc} {pc : Pc}
    (isActive : stageOf activity = .active pc) : activity.pc = pc := by
  cases phase : activity.phase <;> simp [stageOf, phase] at isActive
  all_goals exact isActive

/-- A thread that is not at a `wait` is about to do what its point says, or in a `P`. -/
theorem Sound.stageOf_eq_active (sound : Sound program s) {thread : Thread}
    (noWait : ∀ cond target, program.code (s.threads thread).pc ≠ .wait cond target) :
    stageOf (s.threads thread) = .active (s.threads thread).pc := by
  have atWait := sound.queued.atWait thread (s.threads thread).pc
  cases phase : (s.threads thread).phase <;> simp [stageOf, monitor, phase] at atWait ⊢
  all_goals
    obtain ⟨cond, target, code⟩ := atWait
    exact noWait cond target code

theorem Sound.asleep (sound : Sound program s) {sem : SemRef Sem Lock} {thread : Thread}
    (member : thread ∈ (s.sems sem).queue) :
    asleepOn program (s.threads thread) = some sem :=
  (sound.semQueues.mem_iff sem thread).mp member

theorem Sound.free_iff (sound : Sound program s) (lock : Lock) :
    (s.sems (.locked lock)).value ≠ 0 ↔ s.holder lock = none := by
  rcases sound.locked lock with ⟨free, value⟩ | ⟨taken, value⟩
  · simp [free, value]
  · simp [taken, value]

theorem Tests.stageOf_sleepP {activity : Activity Pc} {sem : SemRef Sem Lock}
    (tests : Tests program activity sem .sleepP) : stageOf activity = .active activity.pc := by
  cases tests with
  | p code phase => rcases phase with phase | phase <;> simp [stageOf, phase]
  | acquire code phase => rcases phase with phase | phase <;> simp [stageOf, phase]

theorem Tests.stageOf_sleepReacquire {activity : Activity Pc} {sem : SemRef Sem Lock}
    (tests : Tests program activity sem .sleepReacquire) :
    stageOf activity = .signalled activity.pc := by
  cases tests with
  | wait code phase => rcases phase with phase | phase <;> simp [stageOf, phase]

variable [DecidableEq Thread]

theorem stageOf_update (threads : Thread → Activity Pc) (thread : Thread)
    (target : Activity Pc) :
    (fun other => stageOf (Function.update threads thread target other)) =
      Function.update (fun other => stageOf (threads other)) thread (stageOf target) := by
  ext other
  by_cases same : other = thread
  · subst same
    simp
  · simp [same]

theorem stageOf_readyAll_asleep {threads : Thread → Activity Pc} {woken : List Thread}
    {sem : SemRef Sem Lock}
    (isAsleep : ∀ thread ∈ woken, asleepOn program (threads thread) = some sem) :
    (fun thread => stageOf (readyAll woken threads thread)) =
      fun thread => stageOf (threads thread) := by
  ext thread
  by_cases member : thread ∈ woken
  · rw [readyAll_of_mem member, stageOf_ready (isAsleep thread member)]
  · rw [readyAll_of_notMem member]

theorem stageOf_readyAll_waiting {threads : Thread → Activity Pc} {woken : List Thread}
    (waiting : ∀ thread ∈ woken, (threads thread).phase = .sleepWait) :
    (fun thread => stageOf (readyAll woken threads thread)) =
      wakeAll woken fun thread => stageOf (threads thread) := by
  ext thread
  by_cases member : thread ∈ woken
  · rw [readyAll_of_mem member]
    simp [wakeAll, member, stageOf, waiting thread member, Phase.ready]
  · rw [readyAll_of_notMem member]
    simp [wakeAll, member]

/-- A `V` does not change where a thread is in the monitor. -/
theorem Sound.stageOf_woken (sound : Sound program s) (sem : SemRef Sem Lock) :
    (fun thread => stageOf (readyAll ((s.sems sem).queue.take 1) s.threads thread)) =
      fun thread => stageOf (s.threads thread) := by
  exact stageOf_readyAll_asleep fun thread member =>
    sound.asleep (List.mem_of_mem_take member)

/-- A notification is noticed. -/
theorem Sound.stageOf_removed (sound : Sound program s) {cond : Cond} {woken : List Thread}
    (front : woken ⊆ (s.conds cond).waitCondQueue) :
    (fun thread => stageOf (readyAll woken s.threads thread)) =
      wakeAll woken fun thread => stageOf (s.threads thread) :=
  stageOf_readyAll_waiting fun _ member => sound.waiting (front member)

/-- A thread that is awake is not on the queue of a semaphore. -/
theorem Sound.readyAll_woken (sound : Sound program s) (sem : SemRef Sem Lock)
    {thread : Thread} (awake : asleepOn program (s.threads thread) = none) :
    readyAll ((s.sems sem).queue.take 1) s.threads thread = s.threads thread := by
  apply readyAll_of_notMem
  intro member
  have isAsleep := sound.asleep (List.mem_of_mem_take member)
  rw [awake] at isAsleep
  cases isAsleep

/-- A thread that is awake goes on after it notified waiters. -/
theorem Sound.semQueues_afterRemoval (sound : Sound program s) {cond : Cond}
    {woken : List Thread} (front : woken ⊆ (s.conds cond).waitCondQueue) {thread : Thread}
    {target : Activity Pc} (before : asleepOn program (s.threads thread) = none)
    (after : asleepOn program target = none) :
    SemQueues program s.sems (Function.update (readyAll woken s.threads) thread target) := by
  have waiting : ∀ waiter ∈ woken, (s.threads waiter).phase = .sleepWait :=
    fun waiter member => sound.waiting (front member)
  refine (sound.semQueues.readyAll_waiting waiting).move ?_ after
  by_cases member : thread ∈ woken
  · rw [readyAll_of_mem member]
    simp [asleepOn, waiting thread member, Phase.ready]
  · rw [readyAll_of_notMem member, before]

theorem Sound.tied_afterRemoval [DecidableEq Cond] (sound : Sound program s) {cond : Cond}
    (woken : List Thread) {rest : List Thread}
    (part : rest ≠ [] → (s.conds cond).waitCondQueue ≠ []) (other : Cond)
    (nonempty : ((s.afterRemoval cond woken rest).conds other).waitCondQueue ≠ []) :
    ((s.afterRemoval cond woken rest).conds other).lock = some (program.lockOf other) := by
  by_cases same : other = cond
  · subst same
    simp only [afterRemoval, Function.update_self] at nonempty ⊢
    exact sound.tied other (part nonempty)
  · simp only [afterRemoval, Function.update_of_ne same] at nonempty ⊢
    exact sound.tied other nonempty

variable [DecidableEq Sem] [DecidableEq Lock]

/-- A `V` of a named semaphore, in the monitor. -/
theorem Sound.monitor_afterV (sound : Sound program s) (sem : Sem) :
    (s.afterV (.named sem)).monitor =
      { s.monitor with
        value := Function.update s.monitor.value sem (s.monitor.value sem + 1) } := by
  simp only [monitor, afterV, value_update_named, sound.stageOf_woken]

theorem Sound.afterV (sound : Sound program s) (sem : Sem) :
    Sound program (s.afterV (.named sem)) where
  semQueues := sound.semQueues.afterV (.named sem) _
  queued := by
    have matched := queued_iff.mp sound.queued
    rw [sound.monitor_afterV, queued_iff]
    exact matched
  locked lock := by
    have unchanged : (s.afterV (.named sem)).sems (.locked lock) = s.sems (.locked lock) := by
      simp [SynchSystem.afterV]
    rw [unchanged]
    exact sound.locked lock
  tied := sound.tied

/-- The `V`s of an interrupt handler. -/
theorem Sound.vAll (sound : Sound program s) {sems : List Sem}
    {next : SynchSystem Thread Vars Pc Sem Lock Cond} (done : s.vAll sems = .ok next) :
    Sound program next ∧
      next.monitor = { s.monitor with value := giveUnits s.monitor.value sems } := by
  induction sems generalizing s with
  | nil =>
      cases done
      exact ⟨sound, by rw [giveUnits_nil]⟩
  | cons sem sems ih =>
      obtain ⟨middle, given, rest⟩ := bind_eq_ok_iff.mp done
      obtain ⟨-, rfl⟩ := v_eq_ok_iff.mp given
      obtain ⟨preserved, equal⟩ := ih (sound.afterV sem) rest
      exact ⟨preserved, by rw [equal, sound.monitor_afterV, giveUnits_cons]⟩

omit [DecidableEq Thread] in
theorem Sound.locked_afterAcquire (sound : Sound program s) {lock : Lock} {thread : Thread}
    (available : (s.sems (.locked lock)).value ≠ 0) (other : Lock) :
    LockUnit ((s.afterAcquire lock thread).holder other)
      ((s.afterAcquire lock thread).sems (.locked other)).value := by
  by_cases same : other = lock
  · subst same
    rcases sound.locked other with ⟨-, one⟩ | ⟨-, zero⟩
    · exact Or.inr (by simp [afterAcquire, afterP, one])
    · exact absurd zero available
  · simpa [afterAcquire, afterP, same] using sound.locked other

theorem Sound.locked_afterRelease (sound : Sound program s) {lock : Lock} {thread : Thread}
    (held : s.holder lock = some thread) (other : Lock) :
    LockUnit ((s.afterRelease lock thread).holder other)
      ((s.afterRelease lock thread).sems (.locked other)).value := by
  by_cases same : other = lock
  · subst same
    rcases sound.locked other with ⟨free, -⟩ | ⟨-, zero⟩
    · rw [held] at free
      cases free
    · exact Or.inl (by simp [afterRelease, SynchSystem.afterV, zero])
  · simpa [afterRelease, SynchSystem.afterV, same] using sound.locked other

/-- A thread that is awake goes on after a `V`. -/
theorem Sound.semQueues_afterV (sound : Sound program s) (sem : SemRef Sem Lock)
    {thread : Thread} {target : Activity Pc} (before : asleepOn program (s.threads thread) = none)
    (after : asleepOn program target = none) :
    SemQueues program
      (Function.update s.sems sem ⟨(s.sems sem).value + 1, (s.sems sem).queue.tail⟩)
      (Function.update (readyAll ((s.sems sem).queue.take 1) s.threads) thread target) := by
  refine (sound.semQueues.afterV sem _).move ?_ after
  rw [sound.readyAll_woken sem before, before]

/-- A thread that is awake goes on after a `P`. -/
theorem Sound.semQueues_afterP (sound : Sound program s) (sem : SemRef Sem Lock)
    {thread : Thread} {target : Activity Pc} (before : asleepOn program (s.threads thread) = none)
    (after : asleepOn program target = none) :
    SemQueues program
      (Function.update s.sems sem { s.sems sem with value := (s.sems sem).value - 1 })
      (Function.update s.threads thread target) := by
  refine (sound.semQueues.congr fun other => ?_).move before after
  by_cases same : other = sem
  · subst same
    simp
  · rw [Function.update_of_ne same]

variable [DecidableEq Cond] {next : SynchSystem Thread Vars Pc Sem Lock Cond}

omit [DecidableEq Sem] [DecidableEq Lock] [DecidableEq Cond] in
theorem monitor_run (s : SynchSystem Thread Vars Pc Sem Lock Cond) (thread : Thread) (vars : Vars)
    (target : Pc) :
    ({ s with vars := vars }.goto thread target).monitor =
      { s.monitor with
        vars := vars
        stage := Function.update s.monitor.stage thread (.active target) } := by
  simp only [monitor, goto, stageOf_update, stageOf_call]

omit [DecidableEq Cond] in
theorem monitor_p (s : SynchSystem Thread Vars Pc Sem Lock Cond) (thread : Thread) (sem : Sem)
    (target : Pc) :
    ((s.afterP (.named sem) thread).goto thread target).monitor =
      { s.monitor with
        value := Function.update s.monitor.value sem (s.monitor.value sem - 1)
        stage := Function.update s.monitor.stage thread (.active target) } := by
  simp only [monitor, afterP, goto, value_update_named, stageOf_update, stageOf_call]

omit [DecidableEq Cond] in
theorem Sound.monitor_v (sound : Sound program s) (thread : Thread) (sem : Sem) (target : Pc) :
    ((s.afterV (.named sem)).goto thread target).monitor =
      { s.monitor with
        value := Function.update s.monitor.value sem (s.monitor.value sem + 1)
        stage := Function.update s.monitor.stage thread (.active target) } := by
  simp only [monitor, SynchSystem.afterV, goto, value_update_named, stageOf_update,
    stageOf_call, sound.stageOf_woken]

omit [DecidableEq Cond] in
theorem monitor_acquire (s : SynchSystem Thread Vars Pc Sem Lock Cond) (thread : Thread)
    (lock : Lock) (target : Pc) :
    ((s.afterAcquire lock thread).goto thread target).monitor =
      { s.monitor with
        holder := Function.update s.monitor.holder lock (some thread)
        stage := Function.update s.monitor.stage thread (.active target) } := by
  simp only [monitor, afterAcquire, afterP, goto, value_update_locked, stageOf_update,
    stageOf_call]

omit [DecidableEq Cond] in
theorem Sound.monitor_release (sound : Sound program s) (thread : Thread) (lock : Lock)
    (target : Pc) :
    ((s.afterRelease lock thread).goto thread target).monitor =
      { s.monitor with
        holder := Function.update s.monitor.holder lock none
        stage := Function.update s.monitor.stage thread (.active target) } := by
  simp only [monitor, afterRelease, SynchSystem.afterV, goto, value_update_locked,
    stageOf_update, stageOf_call, sound.stageOf_woken]

theorem Sound.monitor_wait (sound : Sound program s) (thread : Thread) (cond : Cond) :
    (({ s with
        conds := Function.update s.conds cond
          ⟨(s.conds cond).waitCondQueue ++ [thread], some (program.lockOf cond)⟩
        history := .queued cond thread :: s.history }.afterRelease (program.lockOf cond)
          thread).sleep thread .sleepWait).monitor =
      { s.monitor with
        holder := Function.update s.monitor.holder (program.lockOf cond) none
        queue := Function.update s.monitor.queue cond (s.monitor.queue cond ++ [thread])
        stage := Function.update s.monitor.stage thread
          (.waiting (s.threads thread).pc) } := by
  simp only [monitor, afterRelease, SynchSystem.afterV, SynchSystem.sleep,
    value_update_locked, queue_update, stageOf_update, sound.stageOf_woken, readyAll_pc]
  rfl

omit [DecidableEq Cond] in
theorem monitor_reacquire (s : SynchSystem Thread Vars Pc Sem Lock Cond) (thread : Thread)
    (lock : Lock) (cond : Cond) (target : Pc) :
    ({ s.afterAcquire lock thread with
        history := .returned cond thread ::
          (s.afterAcquire lock thread).history }.goto thread target).monitor =
      { s.monitor with
        holder := Function.update s.monitor.holder lock (some thread)
        stage := Function.update s.monitor.stage thread (.active target) } := by
  simp only [monitor, afterAcquire, afterP, goto, value_update_locked, stageOf_update,
    stageOf_call]

omit [DecidableEq Sem] [DecidableEq Lock] in
theorem Sound.monitor_signal (sound : Sound program s) (thread : Thread) (cond : Cond)
    (target : Pc) :
    ((s.afterRemoval cond ((s.conds cond).waitCondQueue.take 1)
      (s.conds cond).waitCondQueue.tail).goto thread target).monitor =
      { s.monitor with
        queue := Function.update s.monitor.queue cond (s.monitor.queue cond).tail
        stage := Function.update
          (wakeAll ((s.monitor.queue cond).take 1) s.monitor.stage) thread
          (.active target) } := by
  have stages := sound.stageOf_removed (List.take_subset 1 (s.conds cond).waitCondQueue)
  simp only [monitor, afterRemoval, goto, queue_update, stageOf_update, stageOf_call,
    stages]

omit [DecidableEq Sem] [DecidableEq Lock] in
theorem Sound.monitor_broadcast (sound : Sound program s) (thread : Thread)
    (cond : Cond) (target : Pc) :
    ((s.afterRemoval cond (s.conds cond).waitCondQueue []).goto thread target).monitor =
      { s.monitor with
        queue := Function.update s.monitor.queue cond []
        stage := Function.update (wakeAll (s.monitor.queue cond) s.monitor.stage) thread
          (.active target) } := by
  have stages := sound.stageOf_removed (List.Subset.refl (s.conds cond).waitCondQueue)
  simp only [monitor, afterRemoval, goto, queue_update, stageOf_update, stageOf_call,
    stages]

/-- Each step of the system is a step of the monitor, or is not noticed there. -/
theorem Transition.refines (step : Transition program s next) (sound : Sound program s) :
    Step program s.monitor next.monitor ∨ next.monitor = s.monitor := by
  cases step with
  | @run thread body input vars target code phase done =>
      rw [monitor_run s thread vars target]
      exact Or.inl (.run (stageOf_of_call phase) code done)
  | @block thread sem asleep tests zero =>
      apply Or.inr
      have values : ∀ other, ((Function.update s.sems sem
          { s.sems sem with queue := (s.sems sem).queue ++ [thread] }) other).value =
          (s.sems other).value := by
        intro other
        by_cases same : other = sem
        · subst same
          simp
        · rw [Function.update_of_ne same]
      simp only [monitor, afterBlock, SynchSystem.sleep, stageOf_update, tests.stageOf_sleep,
        values, Function.update_eq_self]
  | @p thread sem target code tests available =>
      rw [monitor_p s thread sem target]
      exact Or.inl (.p tests.stageOf_sleepP code available)
  | @v thread sem target code phase =>
      rw [sound.monitor_v thread sem target]
      exact Or.inl (.v (stageOf_of_call phase) code)
  | @acquire thread lock target code tests available =>
      rw [monitor_acquire s thread lock target]
      exact Or.inl (.acquire tests.stageOf_sleepP code ((sound.free_iff lock).mp available))
  | @release thread lock target code phase held =>
      rw [sound.monitor_release thread lock target]
      exact Or.inl (.release (stageOf_of_call phase) code held)
  | @wait thread cond target code phase held =>
      rw [sound.monitor_wait thread cond]
      exact Or.inl (.wait (stageOf_of_call phase) code held)
  | @reacquire thread cond target code tests available =>
      rw [monitor_reacquire s thread (program.lockOf cond) cond target]
      exact Or.inl (.resume tests.stageOf_sleepReacquire code
        ((sound.free_iff _).mp available))
  | @signal thread cond target code phase held =>
      rw [sound.monitor_signal thread cond target]
      exact Or.inl (.signal (stageOf_of_call phase) code held)
  | @broadcast thread cond target code phase held =>
      rw [sound.monitor_broadcast thread cond target]
      exact Or.inl (.broadcast (stageOf_of_call phase) code held)
  | @interrupt input vars sems target pending done =>
      rw [((sound.withVars vars).vAll done).2]
      exact Or.inl (.interrupt pending)

/-- Each step keeps the invariant. -/
theorem Transition.sound (step : Transition program s next) (sound : Sound program s) :
    Sound program next := by
  have queued : Queued program next.monitor := by
    rcases step.refines sound with refined | unnoticed
    · exact refined.queued sound.queued
    · rw [unnoticed]
      exact sound.queued
  cases step with
  | @run thread body input vars target code phase done =>
      exact ⟨sound.semQueues.move (asleepOn_of_call phase) (asleepOn_call _), queued,
        sound.locked, sound.tied⟩
  | @block thread sem asleep tests zero =>
      refine ⟨sound.semQueues.block tests.asleepOn_eq tests.asleepOn_sleep, queued,
        fun lock => ?_, sound.tied⟩
      by_cases same : sem = .locked lock
      · subst same
        simpa [afterBlock, SynchSystem.sleep] using sound.locked lock
      · simpa [afterBlock, SynchSystem.sleep, Function.update_of_ne (Ne.symm same)] using
          sound.locked lock
  | @p thread sem target code tests available =>
      refine ⟨sound.semQueues_afterP (.named sem) tests.asleepOn_eq (asleepOn_call _), queued,
        fun lock => ?_, sound.tied⟩
      simpa [afterP, goto] using sound.locked lock
  | @v thread sem target code phase =>
      exact ⟨sound.semQueues_afterV (.named sem) (asleepOn_of_call phase) (asleepOn_call _),
        queued, (sound.afterV sem).locked, sound.tied⟩
  | @acquire thread lock target code tests available =>
      exact ⟨sound.semQueues_afterP (.locked lock) tests.asleepOn_eq (asleepOn_call _), queued,
        sound.locked_afterAcquire available, sound.tied⟩
  | @release thread lock target code phase held =>
      exact ⟨sound.semQueues_afterV (.locked lock) (asleepOn_of_call phase) (asleepOn_call _),
        queued, sound.locked_afterRelease held, sound.tied⟩
  | @wait thread cond target code phase held =>
      refine ⟨sound.semQueues_afterV (.locked (program.lockOf cond)) (asleepOn_of_call phase) rfl,
        queued, sound.locked_afterRelease held, fun other nonempty => ?_⟩
      by_cases same : other = cond
      · subst same
        simp [SynchSystem.sleep, afterRelease, SynchSystem.afterV]
      · have untouched : (Function.update s.conds cond
            ⟨(s.conds cond).waitCondQueue ++ [thread], some (program.lockOf cond)⟩) other =
            s.conds other := Function.update_of_ne same _ _
        simp only [SynchSystem.sleep, afterRelease, SynchSystem.afterV, untouched] at nonempty ⊢
        exact sound.tied other nonempty
  | @reacquire thread cond target code tests available =>
      exact ⟨sound.semQueues_afterP (.locked (program.lockOf cond)) tests.asleepOn_eq
        (asleepOn_call _), queued, sound.locked_afterAcquire available, sound.tied⟩
  | @signal thread cond target code phase held =>
      refine ⟨sound.semQueues_afterRemoval (List.take_subset 1 _) (asleepOn_of_call phase)
        (asleepOn_call _), queued, sound.locked, sound.tied_afterRemoval
        ((s.conds cond).waitCondQueue.take 1) fun nonempty empty => ?_⟩
      rw [empty] at nonempty
      exact nonempty rfl
  | @broadcast thread cond target code phase held =>
      exact ⟨sound.semQueues_afterRemoval (List.Subset.refl _) (asleepOn_of_call phase)
        (asleepOn_call _), queued, sound.locked, sound.tied_afterRemoval
        (s.conds cond).waitCondQueue fun nonempty => absurd rfl nonempty⟩
  | @interrupt input vars sems target pending done =>
      exact ((sound.withVars vars).vAll done).1

/-- In every state that a run reaches the invariant holds, and the monitor is in a state
that its program can reach. -/
theorem alongRun_sound {initial : SynchSystem Thread Vars Pc Sem Lock Cond}
    (sound : Sound program initial) (actions : List (Action Thread Input)) :
    AlongRun (step program) (fun s => Sound program s ∧
      Reachable program initial.monitor s.monitor) initial actions := by
  refine alongRun_of_preserved ?_ ⟨sound, .start⟩
  rintro s action next ⟨sound, reached⟩ done
  have step := step_transition done
  refine ⟨step.sound sound, ?_⟩
  rcases step.refines sound with refined | unnoticed
  · exact reached.step refined
  · rwa [unnoticed]

/-- What the labels of a program and the idealised monitor give for the states that the
system reaches. -/
theorem alongRun_of_monitor {critical : Pc → Option Lock} (labelled : program.Labelled critical)
    {vars : Vars} {value : Sem → Int} {entry : Thread → Pc}
    (outside : ∀ thread, critical (entry thread) = none)
    {invariant : State Thread Vars Pc Sem Lock Cond → Prop}
    (start : invariant (State.start vars value entry))
    (preserved : ∀ s next, Exclusive critical s → Queued program s → invariant s →
      Step program s next → invariant next)
    (actions : List (Action Thread Input)) :
    AlongRun (step program) (fun s => Sound program s ∧ Exclusive critical s.monitor ∧
      invariant s.monitor) (boot vars value entry) actions := by
  apply (alongRun_sound (sound_boot program vars value entry) actions).mono
  rintro s ⟨sound, reached⟩
  obtain ⟨exclusive, -, holds⟩ := invariant_of_reachable labelled (exclusive_start outside)
    (queued_start program vars value entry) start preserved reached
  exact ⟨sound, exclusive, holds⟩

end Monitor

end SynchSystem

end Nachos
