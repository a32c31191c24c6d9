import Nachos.Scheduler

/-!
# Threads under preemptive priority scheduling

The thread that is running, the ready list and the queues of the synchronisation objects
(`threads/thread.cc`, `threads/scheduler.cc`, `threads/synch.cc`) under `SCHED_PRIO_P`, the
policy that the constructor of the scheduler sets.

Interrupts are off while a thread is inside a call, so a step leads from one point where
they are enabled to the next one, or to a point where another thread may take over: in the
loop of `Sleep`, and after `Run` has switched to a thread.  Such a thread goes on where it
has called `Run`, or starts with its procedure.

A thread has the priority that it was given before it was forked.  Its stack, its time
slices and its deletion are left out.
-/

namespace Nachos

open TransitionRuns CInt

/-- Where a thread goes on when it is dispatched. -/
inductive Resumption (Sem Lock : Type) where
  /-- At the start of its procedure, or at the end of `Yield`. -/
  | user
  /-- At the test of `value` in `P`, called by the thread or by `Acquire`. -/
  | p (sem : SemRef Sem Lock)
  /-- At the call of `Acquire` in `Wait`. -/
  | reacquire (lock : Lock)
  /-- At the end of `Finish`, which is not reached. -/
  | finished
  deriving DecidableEq

/-- What the current thread is doing. -/
inductive Mode where
  /-- It runs outside of the kernel, with interrupts enabled. -/
  | user
  /-- `Run` has switched to it. -/
  | resumed
  /-- It is in the loop of `Sleep`. -/
  | asleep
  deriving DecidableEq

/-- A call of `FindNextToRun` that returned a thread: the other threads on the ready list,
and the priorities at that time. -/
structure Pick (Thread : Type) where
  returned : Thread
  others : List Thread
  priority : Thread → Int

/-- The thread had a highest priority. -/
def Pick.IsBest {Thread : Type} (pick : Pick Thread) : Prop :=
  ∀ other ∈ pick.others, pick.priority other ≤ pick.priority pick.returned

instance {Thread : Type} (pick : Pick Thread) : Decidable pick.IsBest :=
  inferInstanceAs (Decidable (∀ other ∈ pick.others, _))

/-- The state of the kernel.  No code reads `picks`, the calls of `FindNextToRun` from the
latest one on. -/
structure Kernel (Thread Sem Lock Cond : Type) where
  scheduler : Scheduler Thread
  threadID : Thread → Int
  priority : Thread → Int
  status : Thread → ThreadStatus
  currentThread : Thread
  mode : Mode
  resumption : Thread → Resumption Sem Lock
  sems : SemRef Sem Lock → Semaphore Thread
  holder : Lock → Option Thread
  conds : Cond → Condition Thread Lock
  picks : List (Pick Thread)

namespace Kernel

variable {Thread Sem Lock Cond : Type}

/-- The calls that the current thread can make. -/
inductive Call (Thread Sem Lock Cond : Type) where
  | fork (thread : Thread)
  | yield
  | p (sem : Sem)
  | v (sem : Sem)
  | acquire (lock : Lock)
  | release (lock : Lock)
  | wait (cond : Cond) (conditionLock : Lock)
  | signal (cond : Cond) (conditionLock : Lock)
  | broadcast (cond : Cond) (conditionLock : Lock)
  | finish

/-- What happens next: the current thread makes a call or goes on inside of one, another
thread is dispatched, or a device interrupts and its handler calls `V`. -/
inductive Action (Thread Sem Lock Cond : Type) where
  | call (call : Call Thread Sem Lock Cond)
  | proceed
  | dispatch
  | interrupt (sems : List Sem)

/-- The members of a thread that the scheduler reads under this policy. -/
def info (s : Kernel Thread Sem Lock Cond) (thread : Thread) : ThreadInfo :=
  ⟨s.priority thread, 0, false⟩

/-- `Scheduler::FindNextToRun`. -/
def findNextToRun (s : Kernel Thread Sem Lock Cond) :
    Option Thread × Kernel Thread Sem Lock Cond :=
  match s.scheduler.findNextToRun with
  | (none, scheduler) => (none, { s with scheduler := scheduler })
  | (some next, scheduler) =>
      (some next, { s with
        scheduler := scheduler
        picks := ⟨next, scheduler.readyList.items, s.priority⟩ :: s.picks })

variable [DecidableEq Thread]

/-- `Scheduler::ReadyToRun`. -/
def readyToRun (s : Kernel Thread Sem Lock Cond) (thread : Thread) :
    Except Stop (Kernel Thread Sem Lock Cond) := do
  let scheduler ← s.scheduler.readyToRun thread (s.info thread)
  return { s with
    scheduler := scheduler
    status := Function.update s.status thread .ready }

/-- `Scheduler::Run`. -/
def run (s : Kernel Thread Sem Lock Cond) (nextThread : Thread) :
    Kernel Thread Sem Lock Cond :=
  { s with
    currentThread := nextThread
    status := Function.update s.status nextThread .running
    mode := .resumed }

/-- `Thread::Sleep` up to its loop. -/
def sleep (s : Kernel Thread Sem Lock Cond) (resumption : Resumption Sem Lock) :
    Kernel Thread Sem Lock Cond :=
  { s with
    status := Function.update s.status s.currentThread .blocked
    resumption := Function.update s.resumption s.currentThread resumption
    mode := .asleep }

/-- `Thread::Yield`. -/
def yield (s : Kernel Thread Sem Lock Cond) : Except Stop (Kernel Thread Sem Lock Cond) :=
  let this := s.currentThread
  let tmppriority := s.priority this
  let priority := tmppriority - Scheduler.maxPriority + s.threadID this
  if Fits (tmppriority - Scheduler.maxPriority) ∧ Fits priority then
    let s := { s with priority := Function.update s.priority this priority }
    match s.findNextToRun with
    | (none, s) => .ok s
    | (some nextThread, s) =>
        if s.priority this ≤ s.priority nextThread then do
          let s ← s.readyToRun this
          return { s with
            resumption := Function.update s.resumption this .user }.run nextThread
        else s.readyToRun nextThread
  else .error .overflow

/-- `Thread::Fork`.  A thread without an ID is deleted. -/
def fork (s : Kernel Thread Sem Lock Cond) (thread : Thread) :
    Except Stop (Kernel Thread Sem Lock Cond) :=
  if s.status thread = .justCreated then
    if s.threadID thread = -1 then .ok s
    else do
      let s ← s.readyToRun thread
      if s.scheduler.shouldISwitch (s.info s.currentThread) (s.info thread) then s.yield
      else return s
  else .error .notRunnable

variable [DecidableEq Sem] [DecidableEq Lock] [DecidableEq Cond]

/-- `Semaphore::P` from its test of `value` on; `finish` is what follows it. -/
def p (s : Kernel Thread Sem Lock Cond) (sem : SemRef Sem Lock)
    (finish : Kernel Thread Sem Lock Cond → Kernel Thread Sem Lock Cond) :
    Kernel Thread Sem Lock Cond :=
  if (s.sems sem).value = 0 then
    { s with
      sems := Function.update s.sems sem
        { s.sems sem with
          queue := (s.sems sem).queue ++ [s.currentThread] } }.sleep (.p sem)
  else
    finish { s with
      sems := Function.update s.sems sem { s.sems sem with value := (s.sems sem).value - 1 }
      mode := .user }

/-- `Semaphore::V`. -/
def v (s : Kernel Thread Sem Lock Cond) (sem : SemRef Sem Lock) :
    Except Stop (Kernel Thread Sem Lock Cond) :=
  if 2 ^ 31 - 1 ≤ (s.sems sem).value then .error .overflow
  else
    let s' := { s with
      sems := Function.update s.sems sem
        ⟨(s.sems sem).value + 1, (s.sems sem).queue.tail⟩ }
    match (s.sems sem).queue with
    | [] => .ok s'
    | thread :: _ => s'.readyToRun thread

/-- `Lock::Acquire` from the test in `P` on. -/
def acquire (s : Kernel Thread Sem Lock Cond) (lock : Lock) : Kernel Thread Sem Lock Cond :=
  s.p (.locked lock) fun s =>
    { s with holder := Function.update s.holder lock (some s.currentThread) }

/-- `Lock::Release`. -/
def release (s : Kernel Thread Sem Lock Cond) (lock : Lock) :
    Except Stop (Kernel Thread Sem Lock Cond) :=
  if s.holder lock = some s.currentThread then
    { s with holder := Function.update s.holder lock none }.v (.locked lock)
  else .error (.fault .assertion)

/-- `Condition::Wait` up to its call of `Sleep`. -/
def wait (s : Kernel Thread Sem Lock Cond) (cond : Cond) (conditionLock : Lock) :
    Except Stop (Kernel Thread Sem Lock Cond) :=
  if s.holder conditionLock = some s.currentThread then
    let lock :=
      if (s.conds cond).waitCondQueue = [] then some conditionLock else (s.conds cond).lock
    if lock = some conditionLock then do
      let s ← { s with
        conds := Function.update s.conds cond
          ⟨(s.conds cond).waitCondQueue ++ [s.currentThread], lock⟩ }.release conditionLock
      return s.sleep (.reacquire conditionLock)
    else .error (.fault .assertion)
  else .error (.fault .assertion)

/-- `Condition::Signal`. -/
def signal (s : Kernel Thread Sem Lock Cond) (cond : Cond) (conditionLock : Lock) :
    Except Stop (Kernel Thread Sem Lock Cond) :=
  if s.holder conditionLock = some s.currentThread then
    match (s.conds cond).waitCondQueue with
    | [] => .ok s
    | nextThread :: rest =>
        if (s.conds cond).lock = some conditionLock then
          { s with
            conds := Function.update s.conds cond
              ⟨rest, (s.conds cond).lock⟩ }.readyToRun nextThread
        else .error (.fault .assertion)
  else .error (.fault .assertion)

/-- The loop of `Condition::Broadcast`, which makes at most the given number of rounds. -/
def signalAll (s : Kernel Thread Sem Lock Cond) (cond : Cond) (conditionLock : Lock) :
    Nat → Except Stop (Kernel Thread Sem Lock Cond)
  | 0 => .ok s
  | rounds + 1 =>
      if (s.conds cond).waitCondQueue = [] then .ok s
      else do
        let s ← s.signal cond conditionLock
        s.signalAll cond conditionLock rounds

/-- `Condition::Broadcast`: each round takes one thread off the queue. -/
def broadcast (s : Kernel Thread Sem Lock Cond) (cond : Cond) (conditionLock : Lock) :
    Except Stop (Kernel Thread Sem Lock Cond) :=
  if s.holder conditionLock = some s.currentThread then
    s.signalAll cond conditionLock (s.conds cond).waitCondQueue.length
  else .error (.fault .assertion)

/-- The `V`s of an interrupt handler. -/
def vAll (s : Kernel Thread Sem Lock Cond) :
    List Sem → Except Stop (Kernel Thread Sem Lock Cond)
  | [] => .ok s
  | sem :: sems => do
      let s ← s.v (.named sem)
      s.vAll sems

def perform (s : Kernel Thread Sem Lock Cond) :
    Call Thread Sem Lock Cond → Except Stop (Kernel Thread Sem Lock Cond)
  | .fork thread => s.fork thread
  | .yield => s.yield
  | .p sem => .ok (s.p (.named sem) id)
  | .v sem => s.v (.named sem)
  | .acquire lock => .ok (s.acquire lock)
  | .release lock => s.release lock
  | .wait cond conditionLock => s.wait cond conditionLock
  | .signal cond conditionLock => s.signal cond conditionLock
  | .broadcast cond conditionLock => s.broadcast cond conditionLock
  | .finish => .ok (s.sleep .finished)

/-- The current thread goes on after the call of `Run` by which it lost the processor. -/
def proceed (s : Kernel Thread Sem Lock Cond) : Except Stop (Kernel Thread Sem Lock Cond) :=
  match s.resumption s.currentThread with
  | .user => .ok { s with mode := .user }
  | .p (.named sem) => .ok (s.p (.named sem) id)
  | .p (.locked lock) => .ok (s.acquire lock)
  | .reacquire lock => .ok (s.acquire lock)
  | .finished => .error .notRunnable

/-- The processor is idle, and only a device can make a thread ready. -/
def Idle (s : Kernel Thread Sem Lock Cond) : Prop :=
  s.mode = .asleep ∧ s.scheduler.findNextToRun.1 = none

instance (s : Kernel Thread Sem Lock Cond) : Decidable s.Idle :=
  inferInstanceAs (Decidable (_ ∧ _))

def step (s : Kernel Thread Sem Lock Cond) :
    Action Thread Sem Lock Cond → Except Stop (Kernel Thread Sem Lock Cond)
  | .call call => if s.mode = .user then s.perform call else .error .notRunnable
  | .proceed => if s.mode = .resumed then s.proceed else .error .notRunnable
  | .dispatch =>
      if s.mode = .asleep then
        match s.findNextToRun with
        | (none, _) => .error .notRunnable
        | (some nextThread, s) => .ok (s.run nextThread)
      else .error .notRunnable
  | .interrupt sems =>
      if s.mode = .user ∨ s.Idle then s.vAll sems else .error .notRunnable

/-- `Thread::Suspend`, with the value of `t` in `Scheduler::Suspend` on entry. -/
def suspend (s : Kernel Thread Sem Lock Cond) (thread : Thread) (t : Option Thread) :
    Kernel Thread Sem Lock Cond :=
  { s with
    scheduler := s.scheduler.suspend thread t
    status :=
      if (s.scheduler.readyList.takeOut thread t).2 then
        Function.update s.status thread .suspended
      else s.status }

/-- `Thread::Resume`, with the value of `t` in `Scheduler::Resume` on entry. -/
def resume (s : Kernel Thread Sem Lock Cond) (thread : Thread) (t : Option Thread) :
    Except Stop (Kernel Thread Sem Lock Cond) :=
  if thread = s.currentThread then .error (.fault .assertion)
  else
    .ok { s with
      scheduler := s.scheduler.resume thread t
      status :=
        if (s.scheduler.suspendedList.takeOut thread t).2 then
          Function.update s.status thread .ready
        else s.status }

/-- The actions of threads that also suspend and resume each other and set priorities. -/
inductive SchedulingAction (Thread Sem Lock Cond : Type) where
  | thread (action : Action Thread Sem Lock Cond)
  | suspend (thread : Thread) (t : Option Thread)
  | resume (thread : Thread) (t : Option Thread)
  | setPriority (thread : Thread) (prio : Int)

def schedulingStep (s : Kernel Thread Sem Lock Cond) :
    SchedulingAction Thread Sem Lock Cond → Except Stop (Kernel Thread Sem Lock Cond)
  | .thread action => s.step action
  | .suspend thread t =>
      if s.mode = .user then .ok (s.suspend thread t) else .error .notRunnable
  | .resume thread t => if s.mode = .user then s.resume thread t else .error .notRunnable
  | .setPriority thread prio =>
      if s.mode = .user then
        .ok { s with priority := Function.update s.priority thread prio }
      else .error .notRunnable

/-- The main thread is running, and the others have been given their priorities. -/
def boot (main : Thread) (threadID priority : Thread → Int) (value : Sem → Int) :
    Kernel Thread Sem Lock Cond where
  scheduler := ⟨LinkedList.empty, LinkedList.empty, LinkedList.empty, LinkedList.empty, .prioP⟩
  threadID := threadID
  priority := priority
  status := Function.update (fun _ => .justCreated) main .running
  currentThread := main
  mode := .user
  resumption := fun _ => .user
  sems
    | .named sem => ⟨value sem, []⟩
    | .locked _ => ⟨1, []⟩
  holder := fun _ => none
  conds := fun _ => ⟨[], none⟩
  picks := []

section Cases

variable {s next : Kernel Thread Sem Lock Cond}

omit [DecidableEq Thread] [DecidableEq Sem] [DecidableEq Lock] [DecidableEq Cond] in
theorem findNextToRun_fields {found : Option Thread} (done : s.findNextToRun = (found, next)) :
    next.priority = s.priority ∧ next.currentThread = s.currentThread ∧ next.mode = s.mode ∧
      next.status = s.status := by
  unfold findNextToRun at done
  split at done
  · cases done
    exact ⟨rfl, rfl, rfl, rfl⟩
  · cases done
    exact ⟨rfl, rfl, rfl, rfl⟩

omit [DecidableEq Sem] [DecidableEq Lock] [DecidableEq Cond] in
theorem readyToRun_fields {thread : Thread} (done : s.readyToRun thread = .ok next) :
    next.priority = s.priority ∧ next.currentThread = s.currentThread ∧ next.mode = s.mode := by
  obtain ⟨scheduler, -, done⟩ := bind_eq_ok_iff.mp done
  cases done
  exact ⟨rfl, rfl, rfl⟩

omit [DecidableEq Sem] [DecidableEq Lock] [DecidableEq Cond] in
/-- What `Yield` does once the priority is lowered. -/
theorem yield_cases (done : s.yield = .ok next) :
    ∃ prio, ∃ lowered : Kernel Thread Sem Lock Cond,
      lowered = { s with priority := Function.update s.priority s.currentThread prio } ∧
      ((∃ after, lowered.findNextToRun = (none, after) ∧ next = after) ∨
      (∃ nextThread after ready, lowered.findNextToRun = (some nextThread, after) ∧
        lowered.priority s.currentThread ≤ lowered.priority nextThread ∧
        after.readyToRun s.currentThread = .ok ready ∧
        next = { ready with
          resumption := Function.update ready.resumption s.currentThread .user }.run nextThread) ∨
      (∃ nextThread after, lowered.findNextToRun = (some nextThread, after) ∧
        lowered.priority nextThread < lowered.priority s.currentThread ∧
        after.readyToRun nextThread = .ok next)) := by
  unfold yield at done
  dsimp only at done
  split at done
  · refine ⟨s.priority s.currentThread - Scheduler.maxPriority + s.threadID s.currentThread,
      _, rfl, ?_⟩
    split at done
    · next after found =>
      cases done
      exact Or.inl ⟨_, found, rfl⟩
    · next nextThread after found =>
      have same := (findNextToRun_fields found).1
      rw [same] at done
      split at done
      · next switches =>
        obtain ⟨ready, inserted, done⟩ := bind_eq_ok_iff.mp done
        cases done
        exact Or.inr (Or.inl ⟨_, _, _, found, switches, inserted, rfl⟩)
      · next stays =>
        exact Or.inr (Or.inr ⟨_, _, found, not_le.mp stays, done⟩)
  · cases done

omit [DecidableEq Sem] [DecidableEq Lock] [DecidableEq Cond] in
theorem fork_cases {thread : Thread} (done : s.fork thread = .ok next) :
    s.status thread = .justCreated ∧
      (next = s ∨ s.threadID thread ≠ -1 ∧ ∃ ready, s.readyToRun thread = .ok ready ∧
        if ready.scheduler.shouldISwitch (ready.info ready.currentThread) (ready.info thread) then
          ready.yield = .ok next
        else next = ready) := by
  unfold fork at done
  split at done
  · next new =>
    refine ⟨new, ?_⟩
    split at done
    · cases done
      exact Or.inl rfl
    · next hasID =>
      obtain ⟨ready, inserted, done⟩ := bind_eq_ok_iff.mp done
      refine Or.inr ⟨hasID, ready, inserted, ?_⟩
      split at done
      · next switches =>
        rw [if_pos switches]
        exact done
      · next stays =>
        rw [if_neg stays]
        cases done
        rfl
  · cases done

omit [DecidableEq Cond] in
/-- `V` makes the first thread in the queue ready, if there is one. -/
theorem v_cases {sem : SemRef Sem Lock} (done : s.v sem = .ok next) :
    ((s.sems sem).queue = [] ∧
      next = { s with sems := Function.update s.sems sem ⟨(s.sems sem).value + 1, []⟩ }) ∨
    ∃ thread rest, (s.sems sem).queue = thread :: rest ∧
      { s with
        sems := Function.update s.sems sem
          ⟨(s.sems sem).value + 1, rest⟩ }.readyToRun thread = .ok next := by
  unfold v at done
  split at done
  · cases done
  · dsimp only at done
    split at done
    · next empty =>
      rw [empty] at done
      cases done
      exact Or.inl ⟨empty, rfl⟩
    · next thread rest queue =>
      rw [queue] at done
      exact Or.inr ⟨thread, rest, queue, done⟩

omit [DecidableEq Sem] in
theorem signal_cases {cond : Cond} {conditionLock : Lock}
    (done : s.signal cond conditionLock = .ok next) :
    ((s.conds cond).waitCondQueue = [] ∧ next = s) ∨
    ∃ thread rest, (s.conds cond).waitCondQueue = thread :: rest ∧
      { s with
        conds := Function.update s.conds cond
          ⟨rest, (s.conds cond).lock⟩ }.readyToRun thread = .ok next := by
  unfold signal at done
  split at done
  · split at done
    · next empty =>
      cases done
      exact Or.inl ⟨empty, rfl⟩
    · next thread rest queue =>
      split at done
      · exact Or.inr ⟨thread, rest, queue, done⟩
      · cases done
  · cases done

omit [DecidableEq Cond] in
theorem release_eq_ok {lock : Lock} (done : s.release lock = .ok next) :
    { s with holder := Function.update s.holder lock none }.v (.locked lock) = .ok next := by
  unfold release at done
  split at done
  · exact done
  · cases done

/-- The current thread is queued, the lock is released, and the thread goes to sleep. -/
theorem wait_eq_ok {cond : Cond} {conditionLock : Lock}
    (done : s.wait cond conditionLock = .ok next) :
    ∃ lock released,
      { s with
        conds := Function.update s.conds cond
          ⟨(s.conds cond).waitCondQueue ++ [s.currentThread], lock⟩ }.release conditionLock =
        .ok released ∧
      next = released.sleep (.reacquire conditionLock) := by
  unfold wait at done
  split at done
  · dsimp only at done
    generalize (if (s.conds cond).waitCondQueue = [] then some conditionLock
      else (s.conds cond).lock) = lock at done
    split at done
    · obtain ⟨released, first, done⟩ := bind_eq_ok_iff.mp done
      cases done
      exact ⟨lock, released, first, rfl⟩
    · cases done
  · cases done

omit [DecidableEq Sem] in
theorem broadcast_eq_ok {cond : Cond} {conditionLock : Lock}
    (done : s.broadcast cond conditionLock = .ok next) :
    s.signalAll cond conditionLock (s.conds cond).waitCondQueue.length = .ok next := by
  unfold broadcast at done
  split at done
  · exact done
  · cases done

end Cases

end Kernel

end Nachos
