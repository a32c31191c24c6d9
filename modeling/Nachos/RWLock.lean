import Nachos.SynchInvariant

/-!
# The reader-writer lock

`class RWLock` of `threads/synch.cc` for any number of threads, each of which goes
through any number of read and write sections.  The counters are incremented and
decremented at most once for each thread, so that they are kept as integers.
-/

namespace Nachos

open MesaMonitor TransitionRuns ThreadCounting

/-- The counters of `class RWLock`. -/
structure RWLock where
  pendingReaders : Int
  activeReaders : Int
  pendingWriters : Int
  deriving DecidableEq

namespace RWLock

/-- The condition variables of `class RWLock`. -/
inductive Queue where
  | conReader
  | conWriter
  deriving DecidableEq

/-- What a thread uses the lock for. -/
inductive Use where
  | read
  | write
  deriving DecidableEq

/-- The points of `readlock`, `writelock` and `unlock`, and of a thread that calls them
in pairs. -/
inductive Pc where
  | outside
  | readAcquire
  | readEnter
  | readTest
  | readWait
  | readRelease
  | writeAcquire
  | writeEnter
  | writeTest
  | writeWait
  | writeRelease
  /-- Between the return from `readlock` or `writelock` and the call of `unlock`. -/
  | inSection (use : Use)
  | unlockAcquire (use : Use)
  | unlockTest (use : Use)
  | unlockBroadcast
  | unlockSignal
  | unlockRelease
  deriving DecidableEq

/-- `RWLock::RWLock`. -/
def new : RWLock :=
  ⟨0, 0, 0⟩

/-- The test in the loop of `readlock`, and what follows the loop. -/
def readTest (rw : RWLock) : RWLock × Pc :=
  if rw.activeReaders < 0 then (rw, .readWait)
  else
    ({ rw with
      pendingReaders := rw.pendingReaders - 1
      activeReaders := rw.activeReaders + 1 }, .readRelease)

/-- The test in the loop of `writelock`, and what follows the loop. -/
def writeTest (rw : RWLock) : RWLock × Pc :=
  if rw.activeReaders ≠ 0 then (rw, .writeWait)
  else ({ rw with pendingWriters := rw.pendingWriters - 1, activeReaders := -1 }, .writeRelease)

/-- What `unlock` does between its calls. -/
def unlockTest (rw : RWLock) : RWLock × Pc :=
  if rw.activeReaders < 0 then
    ({ rw with activeReaders := 0 },
      if rw.pendingReaders > 0 then .unlockBroadcast
      else if rw.pendingReaders = 0 ∧ rw.pendingWriters > 0 then .unlockSignal
      else .unlockRelease)
  else if rw.activeReaders > 0 then
    ({ rw with activeReaders := rw.activeReaders - 1 },
      if rw.pendingReaders = 0 ∧ rw.activeReaders - 1 = 0 then .unlockSignal
      else .unlockRelease)
  else (rw, .unlockRelease)

variable {Thread : Type}

/-- The code of `readlock`, `writelock` and `unlock`; a thread that is outside chooses
what to use the lock for. -/
def code : Pc → Instr Thread RWLock Pc Empty Unit Queue Use Fault
  | .outside => .run fun _ use rw => .ok (rw,
      match use with
      | .read => .readAcquire
      | .write => .writeAcquire)
  | .readAcquire => .acquire () .readEnter
  | .readEnter => .run fun _ _ rw =>
      .ok ({ rw with pendingReaders := rw.pendingReaders + 1 }, .readTest)
  | .readTest => .run fun _ _ rw => .ok rw.readTest
  | .readWait => .wait .conReader .readTest
  | .readRelease => .release () (.inSection .read)
  | .writeAcquire => .acquire () .writeEnter
  | .writeEnter => .run fun _ _ rw =>
      .ok ({ rw with pendingWriters := rw.pendingWriters + 1 }, .writeTest)
  | .writeTest => .run fun _ _ rw => .ok rw.writeTest
  | .writeWait => .wait .conWriter .writeTest
  | .writeRelease => .release () (.inSection .write)
  | .inSection use => .run fun _ _ rw => .ok (rw, .unlockAcquire use)
  | .unlockAcquire use => .acquire () (.unlockTest use)
  | .unlockTest _ => .run fun _ _ rw => .ok rw.unlockTest
  | .unlockBroadcast => .broadcast .conReader .unlockRelease
  | .unlockSignal => .signal .conWriter .unlockRelease
  | .unlockRelease => .release () .outside

/-- All conditions go with `mutex`. -/
def program : FlowChart Thread RWLock Pc Empty Unit Queue Use Fault where
  code := code
  lockOf := fun _ => ()
  interrupt := fun _ _ => none

/-- A new lock, and threads that have not used it. -/
def boot : SynchSystem Thread RWLock Pc Empty Unit Queue :=
  .boot new (fun sem => sem.elim) fun _ => .outside

/-- The points where `mutex` is held. -/
def critical : Pc → Option Unit
  | .outside | .readAcquire | .writeAcquire | .inSection _ | .unlockAcquire _ => none
  | _ => some ()

/-- What one thread can do to the counters and where it can get by that, apart from
notifying others. -/
inductive Edge (rw : RWLock) : Stage Pc → RWLock → Stage Pc → Prop
  | callRead : Edge rw (.active .outside) rw (.active .readAcquire)
  | callWrite : Edge rw (.active .outside) rw (.active .writeAcquire)
  | callUnlock (use : Use) : Edge rw (.active (.inSection use)) rw (.active (.unlockAcquire use))
  | acquireRead : Edge rw (.active .readAcquire) rw (.active .readEnter)
  | acquireWrite : Edge rw (.active .writeAcquire) rw (.active .writeEnter)
  | acquireUnlock (use : Use) :
      Edge rw (.active (.unlockAcquire use)) rw (.active (.unlockTest use))
  | enterRead :
      Edge rw (.active .readEnter) { rw with pendingReaders := rw.pendingReaders + 1 }
        (.active .readTest)
  | enterWrite :
      Edge rw (.active .writeEnter) { rw with pendingWriters := rw.pendingWriters + 1 }
        (.active .writeTest)
  | readBlocked (writing : rw.activeReaders < 0) :
      Edge rw (.active .readTest) rw (.active .readWait)
  | readGranted (reading : 0 ≤ rw.activeReaders) :
      Edge rw (.active .readTest)
        { rw with
          pendingReaders := rw.pendingReaders - 1
          activeReaders := rw.activeReaders + 1 } (.active .readRelease)
  | writeBlocked (used : rw.activeReaders ≠ 0) :
      Edge rw (.active .writeTest) rw (.active .writeWait)
  | writeGranted (unused : rw.activeReaders = 0) :
      Edge rw (.active .writeTest)
        { rw with pendingWriters := rw.pendingWriters - 1, activeReaders := -1 }
        (.active .writeRelease)
  | waitRead : Edge rw (.active .readWait) rw (.waiting .readWait)
  | waitWrite : Edge rw (.active .writeWait) rw (.waiting .writeWait)
  | resumeRead : Edge rw (.signalled .readWait) rw (.active .readTest)
  | resumeWrite : Edge rw (.signalled .writeWait) rw (.active .writeTest)
  | releaseRead : Edge rw (.active .readRelease) rw (.active (.inSection .read))
  | releaseWrite : Edge rw (.active .writeRelease) rw (.active (.inSection .write))
  | releaseUnlock : Edge rw (.active .unlockRelease) rw (.active .outside)
  | toReaders (use : Use) (writing : rw.activeReaders < 0) (pending : 0 < rw.pendingReaders) :
      Edge rw (.active (.unlockTest use)) { rw with activeReaders := 0 }
        (.active .unlockBroadcast)
  | writerToWriter (use : Use) (writing : rw.activeReaders < 0)
      (readers : rw.pendingReaders = 0) (pending : 0 < rw.pendingWriters) :
      Edge rw (.active (.unlockTest use)) { rw with activeReaders := 0 } (.active .unlockSignal)
  | writerLeaves (use : Use) (writing : rw.activeReaders < 0)
      (readers : rw.pendingReaders ≤ 0)
      (writers : rw.pendingReaders = 0 → rw.pendingWriters ≤ 0) :
      Edge rw (.active (.unlockTest use)) { rw with activeReaders := 0 }
        (.active .unlockRelease)
  | readerToWriter (use : Use) (readers : rw.pendingReaders = 0)
      (last : rw.activeReaders = 1) :
      Edge rw (.active (.unlockTest use))
        { rw with activeReaders := rw.activeReaders - 1 } (.active .unlockSignal)
  | readerLeaves (use : Use) (reading : 0 < rw.activeReaders)
      (others : rw.pendingReaders = 0 → rw.activeReaders ≠ 1) :
      Edge rw (.active (.unlockTest use))
        { rw with activeReaders := rw.activeReaders - 1 } (.active .unlockRelease)
  | unused (use : Use) (unused : rw.activeReaders = 0) :
      Edge rw (.active (.unlockTest use)) rw (.active .unlockRelease)

theorem edge_readTest (rw : RWLock) :
    Edge rw (.active .readTest) rw.readTest.1 (.active rw.readTest.2) := by
  unfold readTest
  split
  · next writing => exact .readBlocked writing
  · next reading => exact .readGranted (by omega)

theorem edge_writeTest (rw : RWLock) :
    Edge rw (.active .writeTest) rw.writeTest.1 (.active rw.writeTest.2) := by
  unfold writeTest
  split
  · next used => exact .writeBlocked used
  · next unused => exact .writeGranted (by omega)

theorem edge_unlockTest (rw : RWLock) (use : Use) :
    Edge rw (.active (.unlockTest use)) rw.unlockTest.1 (.active rw.unlockTest.2) := by
  unfold unlockTest
  split
  · next writing =>
    by_cases readers : rw.pendingReaders > 0
    · simpa [readers] using Edge.toReaders use writing readers
    · by_cases writers : rw.pendingReaders = 0 ∧ rw.pendingWriters > 0
      · simpa [writers] using Edge.writerToWriter use writing writers.1 writers.2
      · simpa [readers, writers] using
          Edge.writerLeaves use writing (by omega) (by omega)
  · next notWriting =>
    split
    · next reading =>
      by_cases last : rw.pendingReaders = 0 ∧ rw.activeReaders - 1 = 0
      · simpa [last] using Edge.readerToWriter use last.1 (by omega)
      · simpa [last] using Edge.readerLeaves use reading (by omega)
    · next notReading => exact .unused use (by omega)

/-- Straight-line code goes along an edge. -/
theorem edge_of_run {thread : Thread} {use : Use} {rw changed : RWLock} {pc next : Pc}
    {body : Thread → Use → RWLock → Except Fault (RWLock × Pc)}
    (isRun : code pc = .run body) (done : body thread use rw = .ok (changed, next)) :
    Edge rw (.active pc) changed (.active next) := by
  cases pc with
  | outside =>
      cases isRun
      cases done
      cases use with
      | read => exact .callRead
      | write => exact .callWrite
  | readEnter =>
      cases isRun
      cases done
      exact .enterRead
  | writeEnter =>
      cases isRun
      cases done
      exact .enterWrite
  | inSection use =>
      cases isRun
      cases done
      exact .callUnlock use
  | readTest =>
      cases isRun
      have result := Except.ok.inj done
      have edge := rw.edge_readTest
      rw [result] at edge
      exact edge
  | writeTest =>
      cases isRun
      have result := Except.ok.inj done
      have edge := rw.edge_writeTest
      rw [result] at edge
      exact edge
  | unlockTest use =>
      cases isRun
      have result := Except.ok.inj done
      have edge := rw.edge_unlockTest use
      rw [result] at edge
      exact edge
  | readAcquire | readWait | readRelease | writeAcquire | writeWait | writeRelease |
    unlockAcquire | unlockBroadcast | unlockSignal | unlockRelease => cases isRun

theorem edge_of_acquire {rw : RWLock} {pc next : Pc}
    (isAcquire : @code Thread pc = .acquire () next) :
    Edge rw (.active pc) rw (.active next) := by
  cases pc <;> cases isAcquire <;> constructor

theorem edge_of_release {rw : RWLock} {pc next : Pc}
    (isRelease : @code Thread pc = .release () next) :
    Edge rw (.active pc) rw (.active next) := by
  cases pc <;> cases isRelease <;> constructor

theorem edge_of_wait {rw : RWLock} {pc next : Pc} {queue : Queue}
    (isWait : @code Thread pc = .wait queue next) :
    Edge rw (.active pc) rw (.waiting pc) := by
  cases pc <;> cases isWait <;> constructor

theorem edge_of_resume {rw : RWLock} {pc next : Pc} {queue : Queue}
    (isWait : @code Thread pc = .wait queue next) :
    Edge rw (.signalled pc) rw (.active next) := by
  cases pc <;> cases isWait <;> constructor

theorem critical_readTest (rw : RWLock) : critical rw.readTest.2 = some () := by
  unfold readTest
  split <;> rfl

theorem critical_writeTest (rw : RWLock) : critical rw.writeTest.2 = some () := by
  unfold writeTest
  split <;> rfl

theorem critical_unlockTest (rw : RWLock) : critical rw.unlockTest.2 = some () := by
  unfold unlockTest
  split
  · dsimp only
    split
    · rfl
    · split <;> rfl
  · split
    · dsimp only
      split <;> rfl
    · rfl

theorem labelled : (program : FlowChart Thread _ _ _ _ _ _ _).Labelled critical := by
  intro pc
  cases pc with
  | outside =>
      intro thread use rw result done
      cases done
      cases use <;> rfl
  | readEnter | writeEnter | inSection =>
      intro thread use rw result done
      cases done
      rfl
  | readTest =>
      intro thread use rw result done
      cases done
      exact rw.critical_readTest
  | writeTest =>
      intro thread use rw result done
      cases done
      exact rw.critical_writeTest
  | unlockTest =>
      intro thread use rw result done
      cases done
      exact rw.critical_unlockTest
  | readAcquire | readWait | readRelease | writeAcquire | writeWait | writeRelease |
    unlockAcquire | unlockBroadcast | unlockSignal | unlockRelease => exact ⟨rfl, rfl⟩

section Invariant

/-- The point where the waiters of a condition variable wait. -/
def Queue.waits : Queue → Pc
  | .conReader => .readWait
  | .conWriter => .writeWait

/-- The point after the loop of `readlock` or `writelock`. -/
def Use.entered : Use → Pc
  | .read => .readRelease
  | .write => .writeRelease

/-- How many threads have left the loop of `readlock` or `writelock` and have not
made the update in `unlock` yet. -/
def users (use : Use) (n : Stage Pc → Nat) : Nat :=
  n (.active use.entered) + n (.active (.inSection use)) + n (.active (.unlockAcquire use)) +
    n (.active (.unlockTest use))

/-- The counters count the threads; `n` says how many threads are at each place. -/
structure Counted (rw : RWLock) (n : Stage Pc → Nat) : Prop where
  pendingReaders : rw.pendingReaders = n (.active .readTest) + n (.active .readWait) +
    n (.waiting .readWait) + n (.signalled .readWait)
  pendingWriters : rw.pendingWriters = n (.active .writeTest) + n (.active .writeWait) +
    n (.waiting .writeWait) + n (.signalled .writeWait)
  activeReaders : (users .write n = 0 ∧ rw.activeReaders = users .read n) ∨
    (users .write n = 1 ∧ users .read n = 0 ∧ rw.activeReaders = -1)

/-- Readers wait only while there is a writer.  While the lock is unused and a writer
waits, some thread is still to notify others or to test the lock again. -/
structure Awake (rw : RWLock) (n : Stage Pc → Nat) : Prop where
  readWait : 0 < n (.active .readWait) → rw.activeReaders < 0
  writeWait : 0 < n (.active .writeWait) → rw.activeReaders ≠ 0
  broadcast : 0 < n (.active .unlockBroadcast) → 0 < rw.pendingReaders
  readersWait : 0 < n (.waiting .readWait) →
    rw.activeReaders < 0 ∨ 0 < n (.active .unlockBroadcast)
  writersWait : rw.activeReaders = 0 → 0 < n (.waiting .writeWait) →
    0 < n (.signalled .readWait) + n (.signalled .writeWait) + n (.active .readTest) +
      n (.active .writeTest) + n (.active .unlockBroadcast) + n (.active .unlockSignal)

variable {rw changed : RWLock} {n : Stage Pc → Nat} {source target : Stage Pc}

theorem Counted.edge (counted : Counted rw n) (edge : Edge rw source changed target)
    (here : 0 < n source) : Counted changed (moved n source target) where
  pendingReaders := by
    have equation := counted.pendingReaders
    cases edge <;> simp [moved] <;> omega
  pendingWriters := by
    have equation := counted.pendingWriters
    cases edge <;> simp [moved] <;> omega
  activeReaders := by
    have equation := counted.activeReaders
    simp only [users, Use.entered] at equation ⊢
    cases edge with
    | callUnlock use | acquireUnlock use | toReaders use | writerToWriter use
    | writerLeaves use | readerToWriter use | readerLeaves use | unused use =>
        cases use <;> simp [moved] <;> omega
    | _ => simp [moved]; omega

/-- While a thread is inside there is nobody at the other points there. -/
def Alone (n : Stage Pc → Nat) (source : Stage Pc) : Prop :=
  ∀ pc, source = .active pc → critical pc = some () →
    ∀ other, critical other = some () → n (.active other) = if other = pc then 1 else 0

theorem Awake.edge (awake : Awake rw n) (counted : Counted rw n)
    (edge : Edge rw source changed target) (here : 0 < n source) (alone : Alone n source) :
    Awake changed (moved n source target) where
  readWait := by
    have field := awake.readWait
    cases edge with
    | readGranted | toReaders | writerToWriter | writerLeaves | readerToWriter | readerLeaves =>
        have nobody := alone _ rfl rfl .readWait rfl
        simp only [reduceCtorEq, if_false] at nobody
        simp [moved, nobody]
    | _ => simp [moved] <;> omega
  writeWait := by
    have field := awake.writeWait
    cases edge with
    | readGranted | toReaders | writerToWriter | writerLeaves | readerToWriter | readerLeaves =>
        have nobody := alone _ rfl rfl .writeWait rfl
        simp only [reduceCtorEq, if_false] at nobody
        simp [moved, nobody]
    | _ => simp [moved] <;> omega
  broadcast := by
    have field := awake.broadcast
    cases edge with
    | readGranted =>
        have nobody := alone _ rfl rfl .unlockBroadcast rfl
        simp only [reduceCtorEq, if_false] at nobody
        simp [moved, nobody]
    | _ =>
        simp [moved]
        omega
  readersWait := by
    have field := awake.readersWait
    have pending := counted.pendingReaders
    cases edge with
    | waitRead =>
        have writing := awake.readWait here
        simp [moved]
        omega
    | readGranted | writerToWriter | writerLeaves | readerToWriter | readerLeaves =>
        have nobody := alone _ rfl rfl .unlockBroadcast rfl
        simp only [reduceCtorEq, if_false] at nobody
        simp [moved]
        omega
    | _ => simp [moved] <;> omega
  writersWait := by
    have field := awake.writersWait
    have pendingReaders := counted.pendingReaders
    have pendingWriters := counted.pendingWriters
    cases edge with
    | waitWrite =>
        have used := awake.writeWait here
        simp [moved]
        omega
    | readerLeaves use reading others =>
        -- the readers that are left were all notified: none of them waits or is inside
        have readersWait := awake.readersWait
        have noBroadcast := alone _ rfl rfl .unlockBroadcast rfl
        have noTest := alone _ rfl rfl .readTest rfl
        have noWait := alone _ rfl rfl .readWait rfl
        simp only [reduceCtorEq, if_false] at noBroadcast noTest noWait
        simp [moved]
        omega
    | _ => simp [moved] <;> omega

/-- Notifications move waiters only. -/
theorem Counted.notify {pc source : Pc} {woken : Nat} (counted : Counted rw n)
    (notifies : source = .unlockBroadcast ∧ pc = .readWait ∨
      source = .unlockSignal ∧ pc = .writeWait)
    (waiters : woken ≤ n (.waiting pc)) :
    Counted rw (moved (notified n pc woken) (.active source) (.active .unlockRelease)) := by
  obtain ⟨pendingReaders, pendingWriters, activeReaders⟩ := counted
  simp only [users, Use.entered] at activeReaders
  rcases notifies with ⟨rfl, rfl⟩ | ⟨rfl, rfl⟩
  · exact ⟨by simp [moved, notified]; omega, by simpa [moved, notified] using pendingWriters,
      by simpa [users, Use.entered, moved, notified] using activeReaders⟩
  · exact ⟨by simpa [moved, notified] using pendingReaders, by simp [moved, notified]; omega,
      by simpa [users, Use.entered, moved, notified] using activeReaders⟩

theorem Awake.broadcast_step (awake : Awake rw n) (counted : Counted rw n)
    (here : 0 < n (.active .unlockBroadcast)) (alone : Alone n (.active .unlockBroadcast)) :
    Awake rw (moved (notified n .readWait (n (.waiting .readWait)))
      (.active .unlockBroadcast) (.active .unlockRelease)) := by
  have noTest := alone _ rfl rfl .readTest rfl
  have noWait := alone _ rfl rfl .readWait rfl
  have noWriteWait := alone _ rfl rfl .writeWait rfl
  simp only [reduceCtorEq, if_false] at noTest noWait noWriteWait
  have pending := counted.pendingReaders
  have readers := awake.broadcast here
  constructor
  · simp [moved, notified, noWait]
  · simp [moved, notified, noWriteWait]
  · simp [moved, notified]
    omega
  · simp [moved, notified]
  · simp [moved, notified]
    omega

theorem Awake.signal_step (awake : Awake rw n)
    (alone : Alone n (.active .unlockSignal)) :
    Awake rw (moved (notified n .writeWait (min 1 (n (.waiting .writeWait))))
      (.active .unlockSignal) (.active .unlockRelease)) := by
  have noWait := alone _ rfl rfl .readWait rfl
  have noWriteWait := alone _ rfl rfl .writeWait rfl
  have noBroadcast := alone _ rfl rfl .unlockBroadcast rfl
  simp only [reduceCtorEq, if_false] at noWait noWriteWait noBroadcast
  have readersWait := awake.readersWait
  constructor
  · simp [moved, notified, noWait]
  · simp [moved, notified, noWriteWait]
  · simp [moved, notified, noBroadcast]
  · simp [moved, notified]
    omega
  · simp [moved, notified]
    omega

end Invariant

section Runs

variable [Fintype Thread] [DecidableEq Thread]
  {s next : State Thread RWLock Pc Empty Unit Queue}

omit [DecidableEq Thread] in
theorem alone_of_exclusive (exclusive : Exclusive critical s) {thread : Thread}
    {source : Stage Pc} (here : s.stage thread = source) : Alone (census s.stage) source := by
  rintro pc rfl held other otherHeld
  exact exclusive.census_eq here held otherHeld

/-- A thread goes along an edge. -/
theorem invariant_move (exclusive : Exclusive critical s)
    (counted : Counted s.vars (census s.stage)) (awake : Awake s.vars (census s.stage))
    {thread : Thread} {source target : Stage Pc} {changed : RWLock}
    (here : s.stage thread = source) (edge : Edge s.vars source changed target) :
    Counted changed (census (Function.update s.stage thread target)) ∧
      Awake changed (census (Function.update s.stage thread target)) := by
  have present : 0 < census s.stage source := census_pos thread here
  rw [census_update, here]
  exact ⟨counted.edge edge present,
    awake.edge counted edge present (alone_of_exclusive exclusive here)⟩

omit [Fintype Thread] [DecidableEq Thread] in
theorem code_waits (queue : Queue) :
    ∃ next, (@program Thread).code queue.waits = .wait queue next := by
  cases queue <;> exact ⟨_, rfl⟩

omit [Fintype Thread] [DecidableEq Thread] in
theorem eq_waits {queue : Queue} (pc next : Pc)
    (isWait : (@program Thread).code pc = .wait queue next) : pc = queue.waits := by
  cases pc <;> cases isWait <;> rfl

theorem length_queue (queued : Queued program s) (queue : Queue) :
    (s.queue queue).length = census s.stage (.waiting queue.waits) := by
  obtain ⟨next, isWait⟩ := @code_waits Thread queue
  exact queued.length_eq isWait eq_waits

/-- The invariant of the idealised lock. -/
def Invariant (s : State Thread RWLock Pc Empty Unit Queue) : Prop :=
  Counted s.vars (census s.stage) ∧ Awake s.vars (census s.stage)

omit [DecidableEq Thread] in
theorem invariant_start :
    Invariant (State.start new (fun sem => sem.elim) fun _ : Thread => .outside) := by
  have nobody : ∀ here : Stage Pc, here ≠ .active .outside →
      census (fun _ : Thread => Stage.active Pc.outside) here = 0 := fun here elsewhere => by
    rw [census_const, if_neg elsewhere]
  constructor <;> constructor <;> simp [nobody, users, Use.entered, new, State.start]

theorem Invariant.step (invariant : Invariant s) (exclusive : Exclusive critical s)
    (queued : Queued program s) (step : Step program s next) : Invariant next := by
  obtain ⟨counted, awake⟩ := invariant
  cases step with
  | run here isRun done =>
      exact invariant_move exclusive counted awake here (edge_of_run isRun done)
  | @p thread pc sem => exact sem.elim
  | @v thread pc sem => exact sem.elim
  | acquire here isAcquire free =>
      exact invariant_move exclusive counted awake here (edge_of_acquire isAcquire)
  | release here isRelease held =>
      exact invariant_move exclusive counted awake here (edge_of_release isRelease)
  | wait here isWait held =>
      exact invariant_move exclusive counted awake here (edge_of_wait isWait)
  | resume here isWait free =>
      exact invariant_move exclusive counted awake here (edge_of_resume isWait)
  | @signal thread pc queue target here isSignal held =>
      have front := queued.census_notify eq_waits here target
        (List.take_sublist 1 (s.queue queue))
      have alone := alone_of_exclusive exclusive here
      unfold Invariant
      cases pc <;> cases isSignal
      rw [front, List.length_take, length_queue queued]
      exact ⟨counted.notify (Or.inr ⟨rfl, rfl⟩) (by omega), awake.signal_step alone⟩
  | @broadcast thread pc queue target here isBroadcast held =>
      have front := queued.census_notify eq_waits here target
        (List.Sublist.refl (s.queue queue))
      have alone := alone_of_exclusive exclusive here
      have present := census_pos thread here
      unfold Invariant
      cases pc <;> cases isBroadcast
      rw [front, length_queue queued]
      exact ⟨counted.notify (Or.inl ⟨rfl, rfl⟩) (by omega),
        awake.broadcast_step counted present alone⟩
  | interrupt pending => cases pending

theorem alongRun_invariant (actions : List (SynchSystem.Action Thread Use)) :
    AlongRun (SynchSystem.step program) (fun s => SynchSystem.Sound program s ∧
      Exclusive critical s.monitor ∧ Invariant s.monitor) boot actions :=
  SynchSystem.alongRun_of_monitor labelled (fun _ => rfl) invariant_start
    (fun _ _ exclusive queued invariant step => invariant.step exclusive queued step) actions

/-- The thread has returned from `readlock` or `writelock`, and the `unlock` that ends
its section has not got the mutex yet. -/
def isInSection (use : Use) (activity : Activity Pc) : Bool :=
  activity.pc = .inSection use ∨ activity.pc = .unlockAcquire use

/-- The number of threads in read sections, or in write sections. -/
def sections (use : Use) (s : SynchSystem Thread RWLock Pc Empty Unit Queue) : Nat :=
  count (isInSection use) s.threads

omit [DecidableEq Thread] in
/-- While the mutex is free every thread that uses the lock is in a section. -/
theorem sections_eq {s : SynchSystem Thread RWLock Pc Empty Unit Queue}
    (sound : SynchSystem.Sound program s) (exclusive : Exclusive critical s.monitor)
    (free : s.holder () = none) (use : Use) :
    sections use s = users use (census s.monitor.stage) := by
  have noEntered : census s.monitor.stage (.active use.entered) = 0 :=
    exclusive.census_eq_zero free (by cases use <;> rfl)
  have noTest : census s.monitor.stage (.active (.unlockTest use)) = 0 :=
    exclusive.census_eq_zero free rfl
  rw [users, noEntered, noTest]
  have parts : count (isInSection use) s.threads =
      count (fun activity => decide (SynchSystem.stageOf activity =
        .active (Pc.inSection use))) s.threads +
      count (fun activity => decide (SynchSystem.stageOf activity =
        .active (Pc.unlockAcquire use))) s.threads := by
    apply count_add _ _
    intro thread
    have active : (∀ cond target, (@program Thread).code (s.threads thread).pc ≠
        .wait cond target) → SynchSystem.stageOf (s.threads thread) =
          .active (s.threads thread).pc := sound.stageOf_eq_active
    by_cases inside : (s.threads thread).pc = .inSection use
    · rw [inside] at active
      simp [isInSection, inside, active (fun _ _ => nofun)]
    · by_cases leaving : (s.threads thread).pc = .unlockAcquire use
      · rw [leaving] at active
        simp [isInSection, leaving, active (fun _ _ => nofun)]
      · have elsewhere : ∀ pc, (s.threads thread).pc ≠ pc →
            SynchSystem.stageOf (s.threads thread) ≠ .active pc :=
          fun pc different here => different (SynchSystem.pc_of_stageOf here)
        simp [isInSection, inside, leaving, elsewhere]
  rw [sections, parts, Nat.zero_add, Nat.add_zero]
  rfl

/-- In every state that a run reaches the pending counters are not negative.  While the
mutex is free, `activeReaders` is -1 exactly if one thread is in a write section and none
in a read section; otherwise it is the number of threads in read sections, and no thread
is in a write section. -/
theorem readers_exclude_writers (actions : List (SynchSystem.Action Thread Use)) :
    AlongRun (SynchSystem.step program) (fun s =>
      0 ≤ s.vars.pendingReaders ∧ 0 ≤ s.vars.pendingWriters ∧
      (s.holder () = none →
        (s.vars.activeReaders = -1 ↔ sections .write s = 1 ∧ sections .read s = 0) ∧
        (s.vars.activeReaders ≠ -1 →
          s.vars.activeReaders = sections .read s ∧ sections .write s = 0)))
      boot actions := by
  apply (alongRun_invariant actions).mono
  rintro s ⟨sound, exclusive, counted, -⟩
  obtain ⟨pendingReaders, pendingWriters, activeReaders⟩ :
    Counted s.vars (census s.monitor.stage) := counted
  refine ⟨by omega, by omega, fun free => ?_⟩
  rw [← sections_eq sound exclusive free, ← sections_eq sound exclusive free] at activeReaders
  omega

/-- In every state that a run reaches in which the mutex is free and the lock unused, if
some thread waits then some thread that was notified has yet to test its condition.
Readers wait only while `activeReaders` is negative; the one exception, while the mutex
is held, is between the update in `unlock` and the `Broadcast` that follows it, where
interrupts are not enabled. -/
theorem no_waiter_stranded (actions : List (SynchSystem.Action Thread Use)) :
    AlongRun (SynchSystem.step program) (fun s =>
      (s.holder () = none → s.vars.activeReaders = 0 →
        (s.conds .conReader).waitCondQueue ≠ [] ∨ (s.conds .conWriter).waitCondQueue ≠ [] →
        ∃ thread, SynchSystem.hasToTest (s.threads thread) = true) ∧
      (s.holder () = none → (s.conds .conReader).waitCondQueue ≠ [] →
        s.vars.activeReaders < 0) ∧
      ((s.conds .conReader).waitCondQueue ≠ [] → s.vars.activeReaders < 0 ∨
        ∃ thread, s.holder () = some thread ∧ (s.threads thread).pc = .unlockBroadcast))
      boot actions := by
  apply (alongRun_invariant actions).mono
  rintro s ⟨sound, exclusive, -, awake⟩
  obtain ⟨-, -, -, readersWait, writersWait⟩ : Awake s.vars (census s.monitor.stage) := awake
  have waits : ∀ queue, (s.conds queue).waitCondQueue ≠ [] →
      0 < census s.monitor.stage (.waiting queue.waits) := fun queue nonempty => by
    rw [← length_queue sound.queued queue]
    exact List.length_pos_iff.mpr nonempty
  have noBroadcast : s.holder () = none →
      census s.monitor.stage (.active .unlockBroadcast) = 0 := fun free =>
    exclusive.census_eq_zero free rfl
  refine ⟨fun free unused nonempty => ?_, fun free nonempty => ?_, fun nonempty => ?_⟩
  · have noReadTest : census s.monitor.stage (.active .readTest) = 0 :=
      exclusive.census_eq_zero free rfl
    have noWriteTest : census s.monitor.stage (.active .writeTest) = 0 :=
      exclusive.census_eq_zero free rfl
    have noSignal : census s.monitor.stage (.active .unlockSignal) = 0 :=
      exclusive.census_eq_zero free rfl
    have notified : 0 < census s.monitor.stage (.signalled .readWait) ∨
        0 < census s.monitor.stage (.signalled .writeWait) := by
      rcases nonempty with readers | writers
      · have field := readersWait (waits .conReader readers)
        rw [noBroadcast free] at field
        omega
      · have field := writersWait unused (waits .conWriter writers)
        rw [noBroadcast free] at field
        omega
    rcases notified with notified | notified
    · obtain ⟨thread, here⟩ := census_pos_iff.mp notified
      exact ⟨thread, SynchSystem.hasToTest_of_stageOf here⟩
    · obtain ⟨thread, here⟩ := census_pos_iff.mp notified
      exact ⟨thread, SynchSystem.hasToTest_of_stageOf here⟩
  · have field := readersWait (waits .conReader nonempty)
    rw [noBroadcast free] at field
    omega
  · apply (readersWait (waits .conReader nonempty)).imp_right
    intro notifies
    obtain ⟨thread, here⟩ := census_pos_iff.mp notifies
    exact ⟨thread, (exclusive () thread).mpr (by rw [here]; rfl), SynchSystem.pc_of_stageOf here⟩

end Runs

end RWLock

end Nachos
