import Nachos.Disk
import Nachos.MesaMonitor
import Nachos.TransitionRuns

/-!
# Semaphores, locks and condition variables

`threads/synch.cc` on a uniprocessor.  The operations run with interrupts off, so
a thread loses the processor only where it goes to sleep and where the saved
interrupt level is restored.  A thread is therefore described by the call it is
making and by how far inside that call it is, and a step takes it from one such
point to the next.  Which thread takes the next step is left open: every thread
on the ready list may be dispatched, so that the runs include those of every
scheduling policy and of every timer.

The state also records the history of completed operations, which no code reads.
-/

namespace Nachos

/-- Why a thread does not get to the end of a step. -/
inductive Stop where
  /-- The thread is blocked, or the device has nothing to report. -/
  | notRunnable
  /-- An `int` is incremented beyond its range, which is undefined behaviour. -/
  | overflow
  | fault (reason : Fault)
  deriving DecidableEq, Repr

/-- `class Semaphore`. -/
structure Semaphore (Thread : Type) where
  value : Int
  queue : List Thread

/-- `class Condition`. -/
structure Condition (Thread Lock : Type) where
  waitCondQueue : List Thread
  lock : Option Lock

/-- The semaphores of the system: those that the program names, and the one named
`locked` inside of each lock. -/
inductive SemRef (Sem Lock : Type) where
  | named (sem : Sem)
  | locked (lock : Lock)
  deriving DecidableEq

/-- How far a thread is inside the call that it is making. -/
inductive Phase where
  /-- About to make the call, with interrupts enabled. -/
  | call
  /-- Asleep in `P`. -/
  | sleepP
  /-- Made ready by `V`, about to test `value` again. -/
  | retryP
  /-- Asleep in `Wait`. -/
  | sleepWait
  /-- Made ready by `Signal`, about to call `Acquire` in `Wait`. -/
  | reacquire
  /-- Asleep in `P`, called by the `Acquire` in `Wait`. -/
  | sleepReacquire
  /-- Made ready by `V`, about to test `value` again in the `Acquire` in `Wait`. -/
  | retryReacquire
  deriving DecidableEq, Repr

/-- The effect of `ReadyToRun` on a sleeping thread. -/
def Phase.ready : Phase → Phase
  | sleepP => retryP
  | sleepWait => reacquire
  | sleepReacquire => retryReacquire
  | phase => phase

/-- The call that a thread is making and how far it is. -/
structure Activity (Pc : Type) where
  pc : Pc
  phase : Phase
  deriving DecidableEq

/-- Completed operations. -/
inductive Event (Thread Sem Lock Cond : Type) where
  | p (sem : SemRef Sem Lock) (thread : Thread)
  | v (sem : SemRef Sem Lock)
  | acquired (lock : Lock) (thread : Thread)
  | released (lock : Lock) (thread : Thread)
  /-- `Wait` put the thread on the queue. -/
  | queued (cond : Cond) (thread : Thread)
  /-- `Signal` took the thread off the queue. -/
  | removed (cond : Cond) (thread : Thread)
  /-- `Wait` returned. -/
  | returned (cond : Cond) (thread : Thread)
  deriving DecidableEq

/-- The shared variables, the synchronisation objects and the threads.  A lock is the
semaphore inside of it and its `holder`.  The history has the newest event first. -/
structure SynchSystem (Thread Vars Pc Sem Lock Cond : Type) where
  vars : Vars
  sems : SemRef Sem Lock → Semaphore Thread
  holder : Lock → Option Thread
  conds : Cond → Condition Thread Lock
  threads : Thread → Activity Pc
  history : List (Event Thread Sem Lock Cond)

namespace SynchSystem

open MesaMonitor

variable {Thread Vars Pc Sem Lock Cond Input : Type}

/-- All locks are free, the semaphores have their initial values, and every thread is
about to start. -/
def boot (vars : Vars) (value : Sem → Int) (entry : Thread → Pc) :
    SynchSystem Thread Vars Pc Sem Lock Cond where
  vars := vars
  sems
    | .named sem => ⟨value sem, []⟩
    | .locked _ => ⟨1, []⟩
  holder := fun _ => none
  conds := fun _ => ⟨[], none⟩
  threads := fun thread => ⟨entry thread, .call⟩
  history := []

variable [DecidableEq Thread] [DecidableEq Sem] [DecidableEq Lock] [DecidableEq Cond]

/-- The thread goes on at another point of its code. -/
def goto (s : SynchSystem Thread Vars Pc Sem Lock Cond) (thread : Thread) (next : Pc) :
    SynchSystem Thread Vars Pc Sem Lock Cond :=
  { s with threads := Function.update s.threads thread ⟨next, .call⟩ }

/-- The thread calls `Sleep`. -/
def sleep (s : SynchSystem Thread Vars Pc Sem Lock Cond) (thread : Thread) (phase : Phase) :
    SynchSystem Thread Vars Pc Sem Lock Cond :=
  { s with
    threads := Function.update s.threads thread { s.threads thread with phase := phase } }

/-- `Scheduler::ReadyToRun`. -/
def readyToRun (s : SynchSystem Thread Vars Pc Sem Lock Cond) (thread : Thread) :
    SynchSystem Thread Vars Pc Sem Lock Cond :=
  { s with
    threads := Function.update s.threads thread
      { s.threads thread with phase := (s.threads thread).phase.ready } }

/-- `Semaphore::P` from its test of `value` on; `finish` is what follows it. -/
def p (s : SynchSystem Thread Vars Pc Sem Lock Cond) (sem : SemRef Sem Lock)
    (thread : Thread) (asleep : Phase)
    (finish : SynchSystem Thread Vars Pc Sem Lock Cond →
      SynchSystem Thread Vars Pc Sem Lock Cond) :
    SynchSystem Thread Vars Pc Sem Lock Cond :=
  if (s.sems sem).value = 0 then
    { s with
      sems := Function.update s.sems sem
        { s.sems sem with queue := (s.sems sem).queue ++ [thread] } }.sleep thread asleep
  else
    finish { s with
      sems := Function.update s.sems sem { s.sems sem with value := (s.sems sem).value - 1 }
      history := .p sem thread :: s.history }

/-- `Semaphore::V`. -/
def v (s : SynchSystem Thread Vars Pc Sem Lock Cond) (sem : SemRef Sem Lock) :
    Except Stop (SynchSystem Thread Vars Pc Sem Lock Cond) :=
  if 2 ^ 31 - 1 ≤ (s.sems sem).value then .error .overflow
  else
    let s' : SynchSystem Thread Vars Pc Sem Lock Cond := { s with
      sems := Function.update s.sems sem
        ⟨(s.sems sem).value + 1, (s.sems sem).queue.tail⟩
      history := .v sem :: s.history }
    match (s.sems sem).queue with
    | [] => .ok s'
    | thread :: _ => .ok (s'.readyToRun thread)

/-- `Lock::Acquire` from the test in `P` on. -/
def acquire (s : SynchSystem Thread Vars Pc Sem Lock Cond) (lock : Lock) (thread : Thread)
    (asleep : Phase)
    (finish : SynchSystem Thread Vars Pc Sem Lock Cond →
      SynchSystem Thread Vars Pc Sem Lock Cond) :
    SynchSystem Thread Vars Pc Sem Lock Cond :=
  s.p (.locked lock) thread asleep fun s =>
    finish { s with
      holder := Function.update s.holder lock (some thread)
      history := .acquired lock thread :: s.history }

/-- `Lock::Release`. -/
def release (s : SynchSystem Thread Vars Pc Sem Lock Cond) (lock : Lock) (thread : Thread) :
    Except Stop (SynchSystem Thread Vars Pc Sem Lock Cond) :=
  if s.holder lock = some thread then
    { s with
      holder := Function.update s.holder lock none
      history := .released lock thread :: s.history }.v (.locked lock)
  else .error (.fault .assertion)

/-- `Condition::Wait` up to its call of `Sleep`. -/
def wait (s : SynchSystem Thread Vars Pc Sem Lock Cond) (cond : Cond) (conditionLock : Lock)
    (thread : Thread) : Except Stop (SynchSystem Thread Vars Pc Sem Lock Cond) :=
  if s.holder conditionLock = some thread then
    let lock :=
      if (s.conds cond).waitCondQueue = [] then some conditionLock else (s.conds cond).lock
    if lock = some conditionLock then do
      let s ← { s with
        conds := Function.update s.conds cond
          ⟨(s.conds cond).waitCondQueue ++ [thread], lock⟩
        history := .queued cond thread :: s.history }.release conditionLock thread
      return s.sleep thread .sleepWait
    else .error (.fault .assertion)
  else .error (.fault .assertion)

/-- `Condition::Signal`. -/
def signal (s : SynchSystem Thread Vars Pc Sem Lock Cond) (cond : Cond) (conditionLock : Lock)
    (thread : Thread) : Except Stop (SynchSystem Thread Vars Pc Sem Lock Cond) :=
  if s.holder conditionLock = some thread then
    match (s.conds cond).waitCondQueue with
    | [] => .ok s
    | nextThread :: rest =>
        if (s.conds cond).lock = some conditionLock then
          .ok ({ s with
            conds := Function.update s.conds cond ⟨rest, (s.conds cond).lock⟩
            history := .removed cond nextThread :: s.history }.readyToRun nextThread)
        else .error (.fault .assertion)
  else .error (.fault .assertion)

/-- The loop of `Condition::Broadcast`, which makes at most the given number of rounds. -/
def signalAll (s : SynchSystem Thread Vars Pc Sem Lock Cond) (cond : Cond)
    (conditionLock : Lock) (thread : Thread) :
    Nat → Except Stop (SynchSystem Thread Vars Pc Sem Lock Cond)
  | 0 => .ok s
  | rounds + 1 =>
      if (s.conds cond).waitCondQueue = [] then .ok s
      else do
        let s ← s.signal cond conditionLock thread
        s.signalAll cond conditionLock thread rounds

/-- `Condition::Broadcast`: each round takes one thread off the queue. -/
def broadcast (s : SynchSystem Thread Vars Pc Sem Lock Cond) (cond : Cond)
    (conditionLock : Lock) (thread : Thread) :
    Except Stop (SynchSystem Thread Vars Pc Sem Lock Cond) :=
  if s.holder conditionLock = some thread then
    s.signalAll cond conditionLock thread (s.conds cond).waitCondQueue.length
  else .error (.fault .assertion)

/-- The `V`s of an interrupt handler. -/
def vAll (s : SynchSystem Thread Vars Pc Sem Lock Cond) :
    List Sem → Except Stop (SynchSystem Thread Vars Pc Sem Lock Cond)
  | [] => .ok s
  | sem :: sems => do
      let s ← s.v (.named sem)
      s.vAll sems

/-- What can happen next: a thread is dispatched, or a device interrupts. -/
inductive Action (Thread Input : Type) where
  | thread (thread : Thread) (input : Input)
  | interrupt (input : Input)

/-- The thread runs until it sleeps or gets to the end of its call. -/
def stepThread (program : FlowChart Thread Vars Pc Sem Lock Cond Input Fault)
    (s : SynchSystem Thread Vars Pc Sem Lock Cond) (thread : Thread) (input : Input) :
    Except Stop (SynchSystem Thread Vars Pc Sem Lock Cond) :=
  match program.code (s.threads thread).pc, (s.threads thread).phase with
  | .run body, .call =>
      match body thread input s.vars with
      | .ok (vars, next) => .ok ({ s with vars := vars }.goto thread next)
      | .error reason => .error (.fault reason)
  | .p sem next, .call | .p sem next, .retryP =>
      .ok (s.p (.named sem) thread .sleepP fun s => s.goto thread next)
  | .v sem next, .call => do
      let s ← s.v (.named sem)
      return s.goto thread next
  | .acquire lock next, .call | .acquire lock next, .retryP =>
      .ok (s.acquire lock thread .sleepP fun s => s.goto thread next)
  | .release lock next, .call => do
      let s ← s.release lock thread
      return s.goto thread next
  | .wait cond _, .call => s.wait cond (program.lockOf cond) thread
  | .wait cond next, .reacquire | .wait cond next, .retryReacquire =>
      .ok (s.acquire (program.lockOf cond) thread .sleepReacquire fun s =>
        { s with history := .returned cond thread :: s.history }.goto thread next)
  | .signal cond next, .call => do
      let s ← s.signal cond (program.lockOf cond) thread
      return s.goto thread next
  | .broadcast cond next, .call => do
      let s ← s.broadcast cond (program.lockOf cond) thread
      return s.goto thread next
  | _, _ => .error .notRunnable

/-- One step of the system. -/
def step (program : FlowChart Thread Vars Pc Sem Lock Cond Input Fault)
    (s : SynchSystem Thread Vars Pc Sem Lock Cond) :
    Action Thread Input → Except Stop (SynchSystem Thread Vars Pc Sem Lock Cond)
  | .thread thread input => s.stepThread program thread input
  | .interrupt input =>
      match program.interrupt input s.vars with
      | none => .error .notRunnable
      | some (.error reason) => .error (.fault reason)
      | some (.ok (vars, sems)) => { s with vars := vars }.vAll sems

end SynchSystem

end Nachos
