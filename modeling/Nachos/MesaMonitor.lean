import Nachos.ThreadCounting

/-!
# Mesa monitors

A program for threads that share variables is a flow chart: at each point of the
code a thread either runs a piece of straight-line code or calls one of the
operations of semaphores, locks and condition variables.  This file gives the
idealised meaning of these operations.  A lock is only its holder, a semaphore is
only its value, a condition variable is only the queue of its waiters, and a
thread that cannot go on simply takes no step.  A waiter that has been notified
has to compete for the lock like any other thread.

For programs whose points are labelled with the lock that is held there, the
holder of a lock is the one thread that is inside, and the queues list exactly
the waiting threads.
-/

namespace MesaMonitor

open ThreadCounting

/-- What a thread does at a point of its code, and the point where it goes on.
Straight-line code depends on an input that the environment chooses. -/
inductive Instr (Thread Vars Pc Sem Lock Cond Input Fault : Type) where
  | run (body : Thread → Input → Vars → Except Fault (Vars × Pc))
  | p (sem : Sem) (next : Pc)
  | v (sem : Sem) (next : Pc)
  | acquire (lock : Lock) (next : Pc)
  | release (lock : Lock) (next : Pc)
  | wait (cond : Cond) (next : Pc)
  | signal (cond : Cond) (next : Pc)
  | broadcast (cond : Cond) (next : Pc)

/-- A flow chart, the lock that goes with each condition variable, and the interrupt
handlers: what they do to the variables and which semaphores they `V`, if there is an
interrupt. -/
structure FlowChart (Thread Vars Pc Sem Lock Cond Input Fault : Type) where
  code : Pc → Instr Thread Vars Pc Sem Lock Cond Input Fault
  lockOf : Cond → Lock
  interrupt : Input → Vars → Option (Except Fault (Vars × List Sem))

/-- Where a thread is: about to do what its point says, queued in the `wait` at its
point, or notified there and about to take the lock again. -/
inductive Stage (Pc : Type) where
  | active (pc : Pc)
  | waiting (pc : Pc)
  | signalled (pc : Pc)
  deriving DecidableEq

namespace Stage

variable {Pc : Type}

/-- The effect of a notification. -/
def wake : Stage Pc → Stage Pc
  | waiting pc => signalled pc
  | stage => stage

@[simp]
theorem wake_active (pc : Pc) : (active pc).wake = active pc :=
  rfl

@[simp]
theorem wake_waiting (pc : Pc) : (waiting pc).wake = signalled pc :=
  rfl

@[simp]
theorem wake_signalled (pc : Pc) : (signalled pc).wake = signalled pc :=
  rfl

end Stage

/-- Notify the listed threads. -/
def wakeAll {Thread Pc : Type} [DecidableEq Thread] (woken : List Thread)
    (stage : Thread → Stage Pc) : Thread → Stage Pc :=
  fun thread => if thread ∈ woken then (stage thread).wake else stage thread

structure State (Thread Vars Pc Sem Lock Cond : Type) where
  vars : Vars
  value : Sem → Int
  holder : Lock → Option Thread
  queue : Cond → List Thread
  stage : Thread → Stage Pc

variable {Thread Vars Pc Sem Lock Cond Input Fault : Type}

/-- All locks are free, and nobody waits. -/
def State.start (vars : Vars) (value : Sem → Int) (entry : Thread → Pc) :
    State Thread Vars Pc Sem Lock Cond where
  vars := vars
  value := value
  holder := fun _ => none
  queue := fun _ => []
  stage := fun thread => .active (entry thread)

section Semantics

variable [DecidableEq Sem]

/-- Add the units that an interrupt handler gives to the semaphores. -/
def giveUnits (value : Sem → Int) (sems : List Sem) : Sem → Int :=
  fun sem => value sem + sems.count sem

@[simp]
theorem giveUnits_nil (value : Sem → Int) : giveUnits value [] = value := by
  ext sem
  simp [giveUnits]

theorem giveUnits_cons (value : Sem → Int) (sem : Sem) (sems : List Sem) :
    giveUnits value (sem :: sems) =
      giveUnits (Function.update value sem (value sem + 1)) sems := by
  ext other
  by_cases same : other = sem
  · subst same
    simp only [giveUnits, List.count_cons_self, Function.update_self]
    omega
  · simp [giveUnits, same, List.count_cons_of_ne (Ne.symm same)]

variable [DecidableEq Thread] [DecidableEq Lock] [DecidableEq Cond]

/-- One step of one thread, or of an interrupt handler. -/
inductive Step (program : FlowChart Thread Vars Pc Sem Lock Cond Input Fault) :
    State Thread Vars Pc Sem Lock Cond → State Thread Vars Pc Sem Lock Cond → Prop
  | run {s thread pc body input vars next} (here : s.stage thread = .active pc)
      (code : program.code pc = .run body) (done : body thread input s.vars = .ok (vars, next)) :
      Step program s
        { s with vars := vars, stage := Function.update s.stage thread (.active next) }
  | p {s thread pc sem next} (here : s.stage thread = .active pc)
      (code : program.code pc = .p sem next) (available : s.value sem ≠ 0) :
      Step program s
        { s with
          value := Function.update s.value sem (s.value sem - 1)
          stage := Function.update s.stage thread (.active next) }
  | v {s thread pc sem next} (here : s.stage thread = .active pc)
      (code : program.code pc = .v sem next) :
      Step program s
        { s with
          value := Function.update s.value sem (s.value sem + 1)
          stage := Function.update s.stage thread (.active next) }
  | acquire {s thread pc lock next} (here : s.stage thread = .active pc)
      (code : program.code pc = .acquire lock next) (free : s.holder lock = none) :
      Step program s
        { s with
          holder := Function.update s.holder lock (some thread)
          stage := Function.update s.stage thread (.active next) }
  | release {s thread pc lock next} (here : s.stage thread = .active pc)
      (code : program.code pc = .release lock next) (held : s.holder lock = some thread) :
      Step program s
        { s with
          holder := Function.update s.holder lock none
          stage := Function.update s.stage thread (.active next) }
  | wait {s thread pc cond next} (here : s.stage thread = .active pc)
      (code : program.code pc = .wait cond next)
      (held : s.holder (program.lockOf cond) = some thread) :
      Step program s
        { s with
          holder := Function.update s.holder (program.lockOf cond) none
          queue := Function.update s.queue cond (s.queue cond ++ [thread])
          stage := Function.update s.stage thread (.waiting pc) }
  | resume {s thread pc cond next} (here : s.stage thread = .signalled pc)
      (code : program.code pc = .wait cond next)
      (free : s.holder (program.lockOf cond) = none) :
      Step program s
        { s with
          holder := Function.update s.holder (program.lockOf cond) (some thread)
          stage := Function.update s.stage thread (.active next) }
  | signal {s thread pc cond next} (here : s.stage thread = .active pc)
      (code : program.code pc = .signal cond next)
      (held : s.holder (program.lockOf cond) = some thread) :
      Step program s
        { s with
          queue := Function.update s.queue cond (s.queue cond).tail
          stage := Function.update (wakeAll ((s.queue cond).take 1) s.stage) thread
            (.active next) }
  | broadcast {s thread pc cond next} (here : s.stage thread = .active pc)
      (code : program.code pc = .broadcast cond next)
      (held : s.holder (program.lockOf cond) = some thread) :
      Step program s
        { s with
          queue := Function.update s.queue cond []
          stage := Function.update (wakeAll (s.queue cond) s.stage) thread (.active next) }
  | interrupt {s input vars sems}
      (pending : program.interrupt input s.vars = some (.ok (vars, sems))) :
      Step program s { s with vars := vars, value := giveUnits s.value sems }

end Semantics

section Labels

variable {critical : Pc → Option Lock}

/-- The labels of an instruction's point and of the points it leads to fit together. -/
def Instr.Labelled (lockOf : Cond → Lock) (critical : Pc → Option Lock) (pc : Pc) :
    Instr Thread Vars Pc Sem Lock Cond Input Fault → Prop
  | .run body => ∀ thread input vars result,
      body thread input vars = .ok result → critical result.2 = critical pc
  | .p _ next | .v _ next => critical next = critical pc
  | .acquire lock next => critical pc = none ∧ critical next = some lock
  | .release lock next => critical pc = some lock ∧ critical next = none
  | .wait cond next =>
      critical pc = some (lockOf cond) ∧ critical next = some (lockOf cond)
  | .signal cond next | .broadcast cond next =>
      critical pc = some (lockOf cond) ∧ critical next = some (lockOf cond)

/-- The labels say at each point which lock the thread holds there. -/
def FlowChart.Labelled (program : FlowChart Thread Vars Pc Sem Lock Cond Input Fault)
    (critical : Pc → Option Lock) : Prop :=
  ∀ pc, (program.code pc).Labelled program.lockOf critical pc

/-- The lock that a thread is inside of. -/
def inside (critical : Pc → Option Lock) : Stage Pc → Option Lock
  | .active pc => critical pc
  | .waiting _ | .signalled _ => none

@[simp]
theorem inside_wake (stage : Stage Pc) : inside critical stage.wake = inside critical stage := by
  cases stage <;> rfl

@[simp]
theorem inside_wakeAll [DecidableEq Thread] (woken : List Thread) (stage : Thread → Stage Pc)
    (thread : Thread) :
    inside critical (wakeAll woken stage thread) = inside critical (stage thread) := by
  unfold wakeAll
  split <;> simp

/-- The holder of a lock is the thread that is inside. -/
def Exclusive (critical : Pc → Option Lock) (s : State Thread Vars Pc Sem Lock Cond) : Prop :=
  ∀ lock thread, s.holder lock = some thread ↔ inside critical (s.stage thread) = some lock

/-- The queues hold exactly the waiting threads, and only threads at a `wait` wait. -/
structure Queued (program : FlowChart Thread Vars Pc Sem Lock Cond Input Fault)
    (s : State Thread Vars Pc Sem Lock Cond) : Prop where
  mem_iff : ∀ cond thread, thread ∈ s.queue cond ↔
    ∃ pc next, s.stage thread = .waiting pc ∧ program.code pc = .wait cond next
  nodup : ∀ cond, (s.queue cond).Nodup
  atWait : ∀ thread pc, s.stage thread = .waiting pc ∨ s.stage thread = .signalled pc →
    ∃ cond next, program.code pc = .wait cond next

theorem exclusive_start {vars : Vars} {value : Sem → Int} {entry : Thread → Pc}
    (outside : ∀ thread, critical (entry thread) = none) :
    Exclusive critical
      (State.start vars value entry : State Thread Vars Pc Sem Lock Cond) := by
  intro lock thread
  simp [State.start, inside, outside]

theorem queued_start (program : FlowChart Thread Vars Pc Sem Lock Cond Input Fault)
    (vars : Vars) (value : Sem → Int) (entry : Thread → Pc) :
    Queued program (State.start vars value entry) where
  mem_iff cond thread := by simp [State.start]
  nodup cond := by simp [State.start]
  atWait thread pc here := by simp [State.start] at here

/-- Two threads are not inside of one lock. -/
theorem Exclusive.eq_of_inside {s : State Thread Vars Pc Sem Lock Cond}
    (exclusive : Exclusive critical s) {lock : Lock} {first second : Thread}
    (firstInside : inside critical (s.stage first) = some lock)
    (secondInside : inside critical (s.stage second) = some lock) : first = second := by
  have firstHolds := (exclusive lock first).mpr firstInside
  have secondHolds := (exclusive lock second).mpr secondInside
  rw [firstHolds] at secondHolds
  exact Option.some.inj secondHolds

variable [DecidableEq Thread]

/-- A move inside or outside of the locks. -/
theorem exclusive_move {holder : Lock → Option Thread} {stage : Thread → Stage Pc}
    {thread : Thread} {target : Stage Pc}
    (exclusive : ∀ lock other, holder lock = some other ↔
      inside critical (stage other) = some lock)
    (same : inside critical target = inside critical (stage thread)) (lock : Lock)
    (other : Thread) :
    holder lock = some other ↔
      inside critical (Function.update stage thread target other) = some lock := by
  by_cases moved : other = thread
  · subst moved
    rw [Function.update_self, same]
    exact exclusive lock other
  · rw [Function.update_of_ne moved]
    exact exclusive lock other

/-- Waking other threads moves none of them into a lock or out of it. -/
theorem exclusive_notify {holder : Lock → Option Thread} {stage : Thread → Stage Pc}
    {woken : List Thread} {thread : Thread} {target : Stage Pc}
    (exclusive : ∀ lock other, holder lock = some other ↔
      inside critical (stage other) = some lock)
    (same : inside critical target = inside critical (stage thread)) (lock : Lock)
    (other : Thread) :
    holder lock = some other ↔
      inside critical (Function.update (wakeAll woken stage) thread target other) =
        some lock := by
  apply exclusive_move
  · intro lock other
    rw [inside_wakeAll]
    exact exclusive lock other
  · rw [inside_wakeAll]
    exact same

variable [DecidableEq Lock]

/-- A thread enters a free lock. -/
theorem exclusive_enter {holder : Lock → Option Thread} {stage : Thread → Stage Pc}
    {thread : Thread} {target : Stage Pc} {entered : Lock}
    (exclusive : ∀ lock other, holder lock = some other ↔
      inside critical (stage other) = some lock)
    (free : holder entered = none) (outside : inside critical (stage thread) = none)
    (enters : inside critical target = some entered) (lock : Lock) (other : Thread) :
    Function.update holder entered (some thread) lock = some other ↔
      inside critical (Function.update stage thread target other) = some lock := by
  by_cases moved : other = thread
  · subst moved
    rw [Function.update_self, enters]
    by_cases same : lock = entered
    · simp [same]
    · have elsewhere : holder lock ≠ some other := by
        rw [Ne, exclusive, outside]
        exact nofun
      simp [Function.update_of_ne same, elsewhere, Ne.symm same]
  · rw [Function.update_of_ne moved, ← exclusive]
    by_cases same : lock = entered
    · simp [same, free, Ne.symm moved]
    · rw [Function.update_of_ne same]

/-- The thread inside of a lock leaves it. -/
theorem exclusive_leave {holder : Lock → Option Thread} {stage : Thread → Stage Pc}
    {thread : Thread} {target : Stage Pc} {left : Lock}
    (exclusive : ∀ lock other, holder lock = some other ↔
      inside critical (stage other) = some lock)
    (held : holder left = some thread) (leaves : inside critical target = none) (lock : Lock)
    (other : Thread) :
    Function.update holder left none lock = some other ↔
      inside critical (Function.update stage thread target other) = some lock := by
  have within : inside critical (stage thread) = some left := (exclusive left thread).mp held
  by_cases moved : other = thread
  · subst moved
    rw [Function.update_self, leaves]
    by_cases same : lock = left
    · simp [same]
    · have elsewhere : holder lock ≠ some other := by
        rw [Ne, exclusive, within]
        simpa using Ne.symm same
      simp [Function.update_of_ne same, elsewhere]
  · rw [Function.update_of_ne moved, ← exclusive]
    by_cases same : lock = left
    · subst same
      simp [held, Ne.symm moved]
    · rw [Function.update_of_ne same]

variable [DecidableEq Sem] [DecidableEq Cond]
  {program : FlowChart Thread Vars Pc Sem Lock Cond Input Fault}
  {s next : State Thread Vars Pc Sem Lock Cond}

theorem Step.exclusive (step : Step program s next) (labelled : program.Labelled critical)
    (exclusive : Exclusive critical s) : Exclusive critical next := by
  cases step with
  | @run thread pc body input vars target here code done =>
      have label := labelled pc
      rw [code] at label
      exact exclusive_move exclusive (by rw [here]; exact label _ _ _ _ done)
  | @p thread pc sem target here code available =>
      have label := labelled pc
      rw [code] at label
      exact exclusive_move exclusive (by rw [here]; exact label)
  | @v thread pc sem target here code =>
      have label := labelled pc
      rw [code] at label
      exact exclusive_move exclusive (by rw [here]; exact label)
  | @acquire thread pc lock target here code free =>
      have label := labelled pc
      rw [code] at label
      exact exclusive_enter exclusive free (by rw [here]; exact label.1) label.2
  | @release thread pc lock target here code held =>
      have label := labelled pc
      rw [code] at label
      exact exclusive_leave exclusive held label.2
  | @wait thread pc cond target here code held =>
      exact exclusive_leave exclusive held rfl
  | @resume thread pc cond target here code free =>
      have label := labelled pc
      rw [code] at label
      exact exclusive_enter exclusive free (by rw [here]; rfl) label.2
  | @signal thread pc cond target here code held =>
      have label := labelled pc
      rw [code] at label
      apply exclusive_notify exclusive
      rw [here]
      exact label.2.trans label.1.symm
  | @broadcast thread pc cond target here code held =>
      have label := labelled pc
      rw [code] at label
      apply exclusive_notify exclusive
      rw [here]
      exact label.2.trans label.1.symm
  | interrupt pending => exact exclusive

end Labels

section Queues

variable {program : FlowChart Thread Vars Pc Sem Lock Cond Input Fault}

/-- The part of a state that the queues are about. -/
def QueuesMatch (program : FlowChart Thread Vars Pc Sem Lock Cond Input Fault)
    (queue : Cond → List Thread) (stage : Thread → Stage Pc) : Prop :=
  (∀ cond thread, thread ∈ queue cond ↔
    ∃ pc next, stage thread = .waiting pc ∧ program.code pc = .wait cond next) ∧
  (∀ cond, (queue cond).Nodup) ∧
  ∀ thread pc, stage thread = .waiting pc ∨ stage thread = .signalled pc →
    ∃ cond next, program.code pc = .wait cond next

theorem queued_iff {s : State Thread Vars Pc Sem Lock Cond} :
    Queued program s ↔ QueuesMatch program s.queue s.stage :=
  ⟨fun queued => ⟨queued.mem_iff, queued.nodup, queued.atWait⟩,
    fun ⟨mem_iff, nodup, atWait⟩ => ⟨mem_iff, nodup, atWait⟩⟩

variable [DecidableEq Thread] {queue : Cond → List Thread} {stage : Thread → Stage Pc}

/-- A thread that does not wait goes on. -/
theorem queuesMatch_move (queued : QueuesMatch program queue stage) {thread : Thread}
    (awake : ∀ pc, stage thread ≠ .waiting pc) (target : Pc) :
    QueuesMatch program queue (Function.update stage thread (.active target)) := by
  obtain ⟨mem_iff, nodup, atWait⟩ := queued
  refine ⟨fun cond other => ?_, nodup, fun other pc here => ?_⟩
  · by_cases moved : other = thread
    · subst moved
      rw [Function.update_self, mem_iff]
      simp [awake]
    · rw [Function.update_of_ne moved, mem_iff]
  · by_cases moved : other = thread
    · subst moved
      rw [Function.update_self] at here
      rcases here with here | here <;> cases here
    · rw [Function.update_of_ne moved] at here
      exact atWait other pc here

variable [DecidableEq Cond]

/-- A thread queues itself. -/
theorem queuesMatch_wait (queued : QueuesMatch program queue stage) {thread : Thread}
    {pc next : Pc} {cond : Cond} (here : stage thread = .active pc)
    (code : program.code pc = .wait cond next) :
    QueuesMatch program (Function.update queue cond (queue cond ++ [thread]))
      (Function.update stage thread (.waiting pc)) := by
  obtain ⟨mem_iff, nodup, atWait⟩ := queued
  have absent : ∀ other, thread ∉ queue other := by
    intro other member
    obtain ⟨place, target, waits, -⟩ := (mem_iff other thread).mp member
    rw [here] at waits
    cases waits
  refine ⟨fun other waiter => ?_, fun other => ?_, fun waiter place waits => ?_⟩
  · by_cases moved : waiter = thread
    · subst moved
      rw [Function.update_self]
      by_cases same : other = cond
      · subst same
        simp [code]
      · rw [Function.update_of_ne same]
        simp [absent, code, Ne.symm same]
    · rw [Function.update_of_ne moved, ← mem_iff]
      by_cases same : other = cond
      · subst same
        simp [moved]
      · rw [Function.update_of_ne same]
  · by_cases same : other = cond
    · subst same
      rw [Function.update_self]
      exact List.nodup_append.mpr ⟨nodup other, List.nodup_singleton thread, by
        rintro first member second single rfl
        rw [List.mem_singleton] at single
        subst single
        exact absent other member⟩
    · rw [Function.update_of_ne same]
      exact nodup other
  · by_cases moved : waiter = thread
    · subst moved
      rw [Function.update_self] at waits
      rcases waits with waits | waits
      · cases waits
        exact ⟨cond, next, code⟩
      · cases waits
    · rw [Function.update_of_ne moved] at waits
      exact atWait waiter place waits

theorem wake_eq_waiting {stage : Stage Pc} {pc : Pc} : stage.wake ≠ .waiting pc := by
  cases stage <;> simp

theorem wake_eq_signalled {stage : Stage Pc} {pc : Pc} (woken : stage.wake = .signalled pc) :
    stage = .waiting pc ∨ stage = .signalled pc := by
  cases stage <;> simp_all

/-- The waiters at the front of a queue are notified. -/
theorem queuesMatch_wakeAll (queued : QueuesMatch program queue stage) {cond : Cond}
    {woken rest : List Thread} (split : queue cond = woken ++ rest) :
    QueuesMatch program (Function.update queue cond rest) (wakeAll woken stage) := by
  obtain ⟨mem_iff, nodup, atWait⟩ := queued
  have distinct := nodup cond
  rw [split, List.nodup_append] at distinct
  refine ⟨fun other waiter => ?_, fun other => ?_, fun waiter place waits => ?_⟩
  · have listed := mem_iff other waiter
    have here := mem_iff cond waiter
    rw [split, List.mem_append] at here
    by_cases member : waiter ∈ woken
    · obtain ⟨place, target, waits, code⟩ := here.mp (Or.inl member)
      have outside : waiter ∉ Function.update queue cond rest other := by
        by_cases same : other = cond
        · subst same
          rw [Function.update_self]
          exact fun remains => distinct.2.2 waiter member waiter remains rfl
        · rw [Function.update_of_ne same, listed]
          rintro ⟨otherPlace, otherTarget, otherWaits, otherCode⟩
          rw [waits] at otherWaits
          cases otherWaits
          rw [code] at otherCode
          cases otherCode
          exact same rfl
      simp [outside, wakeAll, member, wake_eq_waiting]
    · by_cases same : other = cond
      · subst same
        rw [Function.update_self]
        simp only [wakeAll, member, if_false]
        rw [← here]
        simp [member]
      · rw [Function.update_of_ne same, listed]
        simp [wakeAll, member]
  · by_cases same : other = cond
    · subst same
      rw [Function.update_self]
      exact distinct.2.1
    · rw [Function.update_of_ne same]
      exact nodup other
  · apply atWait waiter place
    unfold wakeAll at waits
    split at waits
    · rcases waits with waits | waits
      · exact absurd waits wake_eq_waiting
      · exact wake_eq_signalled waits
    · exact waits

variable [DecidableEq Sem] [DecidableEq Lock] {s next : State Thread Vars Pc Sem Lock Cond}

theorem Step.queued (step : Step program s next) (queued : Queued program s) :
    Queued program next := by
  rw [queued_iff] at queued ⊢
  cases step with
  | run here code done => exact queuesMatch_move queued (by simp [here]) _
  | p here code available => exact queuesMatch_move queued (by simp [here]) _
  | v here code => exact queuesMatch_move queued (by simp [here]) _
  | acquire here code free => exact queuesMatch_move queued (by simp [here]) _
  | release here code held => exact queuesMatch_move queued (by simp [here]) _
  | wait here code held => exact queuesMatch_wait queued here code
  | resume here code free => exact queuesMatch_move queued (by simp [here]) _
  | @signal thread pc cond target here code held =>
      have front : s.queue cond = (s.queue cond).take 1 ++ (s.queue cond).tail := by
        rw [← List.drop_one, List.take_append_drop]
      refine queuesMatch_move (queuesMatch_wakeAll queued front) (fun place => ?_) _
      unfold wakeAll
      split <;> simp [here]
  | @broadcast thread pc cond target here code held =>
      refine queuesMatch_move (queuesMatch_wakeAll queued (List.append_nil _).symm)
        (fun place => ?_) _
      unfold wakeAll
      split <;> simp [here]
  | interrupt pending => exact queued

end Queues

section Invariants

variable [DecidableEq Thread] [DecidableEq Sem] [DecidableEq Lock] [DecidableEq Cond]
  (program : FlowChart Thread Vars Pc Sem Lock Cond Input Fault) (critical : Pc → Option Lock)

/-- The states that a run of the program can reach. -/
inductive Reachable (initial : State Thread Vars Pc Sem Lock Cond) :
    State Thread Vars Pc Sem Lock Cond → Prop
  | start : Reachable initial initial
  | step {s next} (reached : Reachable initial s) (step : Step program s next) :
      Reachable initial next

variable {program critical} {initial : State Thread Vars Pc Sem Lock Cond}
  {invariant : State Thread Vars Pc Sem Lock Cond → Prop}

/-- The induction rule of a labelled program: when a step is examined, the holders
and the queues are known to agree with the places of the threads. -/
theorem invariant_of_reachable (labelled : program.Labelled critical)
    (exclusive : Exclusive critical initial) (queued : Queued program initial)
    (start : invariant initial)
    (preserved : ∀ s next, Exclusive critical s → Queued program s → invariant s →
      Step program s next → invariant next)
    {s : State Thread Vars Pc Sem Lock Cond} (reached : Reachable program initial s) :
    Exclusive critical s ∧ Queued program s ∧ invariant s := by
  induction reached with
  | start => exact ⟨exclusive, queued, start⟩
  | step reached step ih =>
      obtain ⟨exclusive, queued, holds⟩ := ih
      exact ⟨step.exclusive labelled exclusive, step.queued queued,
        preserved _ _ exclusive queued holds step⟩

end Invariants

section Places

/-- The point that a thread is at. -/
def Stage.pc : Stage Pc → Pc
  | .active pc | .waiting pc | .signalled pc => pc

@[simp]
theorem Stage.pc_active (pc : Pc) : (Stage.active pc).pc = pc :=
  rfl

@[simp]
theorem Stage.pc_waiting (pc : Pc) : (Stage.waiting pc).pc = pc :=
  rfl

@[simp]
theorem Stage.pc_signalled (pc : Pc) : (Stage.signalled pc).pc = pc :=
  rfl

@[simp]
theorem Stage.pc_wake (stage : Stage Pc) : stage.wake.pc = stage.pc := by
  cases stage <;> rfl

/-- The instruction leads a thread to points that fit it while the variables are good. -/
def Instr.Keeps (good : Vars → Prop) (fits : Thread → Pc → Prop) (thread : Thread) :
    Instr Thread Vars Pc Sem Lock Cond Input Fault → Prop
  | .run body => ∀ input vars result, good vars → body thread input vars = .ok result →
      fits thread result.2
  | .p _ next | .v _ next | .acquire _ next | .release _ next | .wait _ next |
    .signal _ next | .broadcast _ next => fits thread next

variable [DecidableEq Thread] {fits : Thread → Pc → Prop}

theorem fits_update {stage : Thread → Stage Pc} (fitting : ∀ thread, fits thread (stage thread).pc)
    {thread : Thread} {target : Stage Pc} (target_fits : fits thread target.pc) (other : Thread) :
    fits other (Function.update stage thread target other).pc := by
  by_cases moved : other = thread
  · subst moved
    rwa [Function.update_self]
  · rw [Function.update_of_ne moved]
    exact fitting other

theorem fits_wakeAll {stage : Thread → Stage Pc} (fitting : ∀ thread, fits thread (stage thread).pc)
    (woken : List Thread) (other : Thread) : fits other (wakeAll woken stage other).pc := by
  unfold wakeAll
  split
  · rw [Stage.pc_wake]
    exact fitting other
  · exact fitting other

variable [DecidableEq Sem] [DecidableEq Lock] [DecidableEq Cond]
  {program : FlowChart Thread Vars Pc Sem Lock Cond Input Fault}
  {s next : State Thread Vars Pc Sem Lock Cond}

/-- All threads stay at points that fit them. -/
theorem Step.keepsPlaces (step : Step program s next) {good : Vars → Prop}
    (keeps : ∀ thread pc, fits thread pc → (program.code pc).Keeps good fits thread)
    (vars : good s.vars) (fitting : ∀ thread, fits thread (s.stage thread).pc) :
    ∀ thread, fits thread (next.stage thread).pc := by
  cases step with
  | @run thread pc body input vars' target here code done =>
      have kept := keeps thread pc (by simpa [here] using fitting thread)
      rw [code] at kept
      exact fits_update fitting (kept input s.vars _ vars done)
  | @p thread pc sem target here code available =>
      have kept := keeps thread pc (by simpa [here] using fitting thread)
      rw [code] at kept
      exact fits_update fitting kept
  | @v thread pc sem target here code =>
      have kept := keeps thread pc (by simpa [here] using fitting thread)
      rw [code] at kept
      exact fits_update fitting kept
  | @acquire thread pc lock target here code free =>
      have kept := keeps thread pc (by simpa [here] using fitting thread)
      rw [code] at kept
      exact fits_update fitting kept
  | @release thread pc lock target here code held =>
      have kept := keeps thread pc (by simpa [here] using fitting thread)
      rw [code] at kept
      exact fits_update fitting kept
  | @wait thread pc cond target here code held =>
      exact fits_update fitting (by simpa [here] using fitting thread)
  | @resume thread pc cond target here code free =>
      have kept := keeps thread pc (by simpa [here] using fitting thread)
      rw [code] at kept
      exact fits_update fitting kept
  | @signal thread pc cond target here code held =>
      have kept := keeps thread pc (by simpa [here] using fitting thread)
      rw [code] at kept
      exact fits_update (fits_wakeAll fitting _) kept
  | @broadcast thread pc cond target here code held =>
      have kept := keeps thread pc (by simpa [here] using fitting thread)
      rw [code] at kept
      exact fits_update (fits_wakeAll fitting _) kept
  | interrupt pending => exact fitting

end Places

@[simp]
theorem wakeAll_nil [DecidableEq Thread] (stage : Thread → Stage Pc) :
    wakeAll [] stage = stage := by
  ext thread
  simp [wakeAll]

theorem wakeAll_cons [DecidableEq Thread] {thread : Thread} {woken : List Thread}
    (absent : thread ∉ woken) (stage : Thread → Stage Pc) :
    wakeAll (thread :: woken) stage =
      Function.update (wakeAll woken stage) thread (stage thread).wake := by
  ext other
  by_cases same : other = thread
  · subst same
    simp [wakeAll]
  · simp [wakeAll, same]

theorem Queued.stage_eq {program : FlowChart Thread Vars Pc Sem Lock Cond Input Fault}
    {s : State Thread Vars Pc Sem Lock Cond} (queued : Queued program s) {cond : Cond} {pc : Pc}
    (only : ∀ place next, program.code place = .wait cond next → place = pc) {thread : Thread}
    (member : thread ∈ s.queue cond) : s.stage thread = .waiting pc := by
  obtain ⟨place, next, waits, code⟩ := (queued.mem_iff cond thread).mp member
  rw [waits, only place next code]

section Census

variable [Fintype Thread] [DecidableEq Pc]
  {program : FlowChart Thread Vars Pc Sem Lock Cond Input Fault} {critical : Pc → Option Lock}
  {s : State Thread Vars Pc Sem Lock Cond}

/-- A thread that is inside of a lock is alone there. -/
theorem Exclusive.census_eq (exclusive : Exclusive critical s) {thread : Thread} {pc other : Pc}
    {lock : Lock} (here : s.stage thread = .active pc) (held : critical pc = some lock)
    (otherHeld : critical other = some lock) :
    census s.stage (.active other) = if other = pc then 1 else 0 := by
  have within : ∀ {inner place}, s.stage inner = .active place → critical place = some lock →
      inside critical (s.stage inner) = some lock := by
    intro inner place isHere label
    rw [isHere]
    exact label
  split
  · next same =>
    subst same
    have positive := census_pos thread here
    have atMost : census s.stage (.active other) ≤ 1 := by
      apply count_le_one
      intro first second firstHere secondHere
      exact exclusive.eq_of_inside (within (of_decide_eq_true firstHere) held)
        (within (of_decide_eq_true secondHere) held)
    omega
  · next different =>
    rw [census_eq_zero_iff]
    intro intruder intrudes
    have same := exclusive.eq_of_inside (within intrudes otherHeld) (within here held)
    rw [same, here] at intrudes
    cases intrudes
    exact different rfl

/-- Nobody is inside of a free lock. -/
theorem Exclusive.census_eq_zero (exclusive : Exclusive critical s) {pc : Pc} {lock : Lock}
    (free : s.holder lock = none) (held : critical pc = some lock) :
    census s.stage (.active pc) = 0 := by
  rw [census_eq_zero_iff]
  intro thread here
  have holds : s.holder lock = some thread :=
    (exclusive lock thread).mpr (by rw [here]; exact held)
  rw [free] at holds
  cases holds

/-- The census after some of the waiters at a point have been notified. -/
def notified (numbers : Stage Pc → Nat) (pc : Pc) (woken : Nat) (here : Stage Pc) : Nat :=
  numbers here + (if here = .signalled pc then woken else 0) -
    if here = .waiting pc then woken else 0

variable [DecidableEq Thread]

theorem census_wakeAll {stage : Thread → Stage Pc} {pc : Pc} {woken : List Thread}
    (distinct : woken.Nodup) (waiting : ∀ thread ∈ woken, stage thread = .waiting pc) :
    census (wakeAll woken stage) = notified (census stage) pc woken.length := by
  induction woken with
  | nil =>
      ext here
      simp [notified]
  | cons thread woken ih =>
      obtain ⟨absent, distinct⟩ := List.nodup_cons.mp distinct
      have isWaiting : stage thread = .waiting pc := waiting thread (by simp)
      have unchanged : wakeAll woken stage thread = .waiting pc := by
        simp [wakeAll, absent, isWaiting]
      rw [wakeAll_cons absent, census_update, unchanged, isWaiting,
        ih distinct fun other member => waiting other (by simp [member])]
      ext here
      simp only [moved, notified, Stage.wake_waiting, List.length_cons]
      cases here with
      | active place => simp
      | waiting place =>
          by_cases same : place = pc
          · simp [same]
            omega
          · simp [same]
      | signalled place =>
          by_cases same : place = pc
          · simp [same]
            omega
          · simp [same]

/-- If only one point waits for a condition, its queue is as long as the census says. -/
theorem Queued.length_eq (queued : Queued program s) {cond : Cond} {pc target : Pc}
    (code : program.code pc = .wait cond target)
    (only : ∀ place next, program.code place = .wait cond next → place = pc) :
    (s.queue cond).length = census s.stage (.waiting pc) := by
  rw [← List.toFinset_card_of_nodup (queued.nodup cond), census, count]
  congr 1
  ext thread
  rw [List.mem_toFinset, queued.mem_iff]
  simp only [decide_eq_true_eq, Finset.mem_filter, Finset.mem_univ, true_and]
  constructor
  · rintro ⟨place, next, waits, placeCode⟩
    rw [waits, only place next placeCode]
  · intro waits
    exact ⟨pc, target, waits, code⟩

/-- The census after a thread has notified waiters that all wait at one point. -/
theorem Queued.census_notify (queued : Queued program s) {cond : Cond} {waits : Pc}
    (only : ∀ place next, program.code place = .wait cond next → place = waits)
    {thread : Thread} {source : Pc} (here : s.stage thread = .active source) (target : Pc)
    {woken : List Thread} (front : woken.Sublist (s.queue cond)) :
    census (Function.update (wakeAll woken s.stage) thread (.active target)) =
      moved (notified (census s.stage) waits woken.length) (.active source)
        (.active target) := by
  have waiting : ∀ waiter ∈ woken, s.stage waiter = .waiting waits :=
    fun waiter member => queued.stage_eq only (front.subset member)
  have unchanged : wakeAll woken s.stage thread = .active source := by
    unfold wakeAll
    split <;> simp [here]
  rw [census_update, unchanged, census_wakeAll ((queued.nodup cond).sublist front) waiting]

end Census

end MesaMonitor
