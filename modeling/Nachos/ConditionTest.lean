import Nachos.ProducerConsumer

/-!
# The test of the condition variables

`CondTest` of `threads/synchtest.cc`: the buffer of the semaphore test again, of which only
the number of items is kept, with a lock and one condition variable for the threads of each
role.  A thread that has changed the buffer signals one thread of the other role.
-/

namespace Nachos

open MesaMonitor TransitionRuns ThreadCounting ProducerConsumer

/-- What a line of output shows: the loop variable and `buffer`. -/
structure CondLine where
  i : Nat
  buffer : Int
  deriving DecidableEq

/-- The variable `buffer`, the loop variables of the threads, counted from zero, and what they
printed. -/
structure CondTest (Thread : Type) where
  buffer : Int
  laps : Thread → Nat
  output : List (BufferLine Thread CondLine)

namespace CondTest

variable {Thread : Type}

/-- `FullBuffer`. -/
def fullBuffer : Nat := 10

/-- `MAX`. -/
def max : Nat := 15

/-- How often a `Producer_cond` and a `Consumer_cond` go round their loops, which begin
with one. -/
def repetitions : Role → Nat
  | .producer => max / 7 + 1 - 1
  | .consumer => max * 2 - 1

/-- The points of `Producer_cond` and `Consumer_cond`. -/
inductive Pc where
  | loop
  | acquire (role : Role)
  | test (role : Role)
  | wait (role : Role)
  | change (role : Role)
  | signal (role : Role)
  | release (role : Role)
  | next (role : Role)
  deriving DecidableEq

/-- What a thread tests before it changes the buffer. -/
def mustWait (s : CondTest Thread) : Role → Bool
  | .producer => s.buffer == fullBuffer
  | .consumer => s.buffer == 0

/-- The increment or decrement of `buffer`, and the call of `printf` after it. -/
def changed (s : CondTest Thread) (role : Role) (thread : Thread) : CondTest Thread :=
  let s :=
    match role with
    | .producer => { s with buffer := s.buffer + 1 }
    | .consumer => { s with buffer := s.buffer - 1 }
  { s with output := s.output ++ [⟨role, thread, s.laps thread + 1, s.buffer⟩] }

section Program

variable [DecidableEq Thread]

/-- The code of a thread: the condition that it waits for is named by its own role, `prodc`
or `consc`.  At `next` it calls `Yield`, as it can at any point. -/
def code (roleOf : Thread → Role) :
    Pc → Instr Thread (CondTest Thread) Pc Empty Unit Role Unit Fault
  | .loop => .run fun thread _ s => .ok (s,
      if s.laps thread < repetitions (roleOf thread) then .acquire (roleOf thread) else .loop)
  | .acquire role => .acquire () (.test role)
  | .test role => .run fun _ _ s => .ok (s, if s.mustWait role then .wait role else .change role)
  | .wait role => .wait role (.test role)
  | .change role => .run fun thread _ s => .ok (s.changed role thread, .signal role)
  | .signal role => .signal role.other (.release role)
  | .release role => .release () (.next role)
  | .next _ => .run fun thread _ s =>
      .ok ({ s with laps := Function.update s.laps thread (s.laps thread + 1) }, .loop)

def program (roleOf : Thread → Role) :
    FlowChart Thread (CondTest Thread) Pc Empty Unit Role Unit Fault where
  code := code roleOf
  lockOf := fun _ => ()
  interrupt := fun _ _ => none

end Program

/-- An empty buffer, and threads that have not begun. -/
def new : CondTest Thread :=
  ⟨0, fun _ => 0, []⟩

def boot : SynchSystem Thread (CondTest Thread) Pc Empty Unit Role :=
  .boot new (fun sem => sem.elim) fun _ => .loop

/-- The points where the lock is held. -/
def critical : Pc → Option Unit
  | .loop | .acquire _ | .next _ => none
  | .test _ | .wait _ | .change _ | .signal _ | .release _ => some ()

section Invariant

/-- The room in the buffer for what the threads of a role do. -/
def room (s : CondTest Thread) : Role → Int
  | .producer => fullBuffer - s.buffer
  | .consumer => s.buffer

theorem mustWait_iff {s : CondTest Thread} {role : Role} :
    s.mustWait role = true ↔ s.room role = 0 := by
  cases role with
  | producer =>
      simp only [mustWait, room, beq_iff_eq]
      omega
  | consumer => simp [mustWait, room]

@[simp]
theorem room_changed (s : CondTest Thread) (role : Role) (thread : Thread) :
    (s.changed role thread).room role = s.room role - 1 := by
  cases role with
  | producer =>
      simp only [changed, room]
      omega
  | consumer => rfl

@[simp]
theorem room_changed_other (s : CondTest Thread) (role : Role) (thread : Thread) :
    (s.changed role thread).room role.other = s.room role.other + 1 := by
  cases role with
  | producer => rfl
  | consumer =>
      simp only [changed, room, Role.other]
      omega

@[simp]
theorem room_laps (s : CondTest Thread) (laps : Thread → Nat) (role : Role) :
    ({ s with laps := laps } : CondTest Thread).room role = s.room role := by
  cases role <;> rfl

/-- What holds of the buffer and of the places of the threads of one role.  While some of them
wait there are as many threads that were notified, are about to change the buffer, or are
about to notify one, as there is room. -/
structure Places (s : CondTest Thread) (n : Stage Pc → Nat) (role : Role) : Prop where
  nonneg : 0 ≤ s.room role
  blocked : 0 < n (.active (.wait role)) → s.room role = 0
  free : 0 < n (.active (.change role)) → s.room role ≠ 0
  awake : 0 < n (.waiting (.wait role)) → s.room role ≤
    (n (.signalled (.wait role)) + n (.active (.test role)) + n (.active (.change role)) +
      n (.active (.signal role.other)) : Nat)

variable [DecidableEq Thread]

/-- What a thread does between two points, apart from the notification. -/
inductive Edge (roleOf : Thread → Role) (thread : Thread) (s : CondTest Thread) :
    Stage Pc → CondTest Thread → Stage Pc → Prop
  | stay : Edge roleOf thread s (.active .loop) s (.active .loop)
  | start (left : s.laps thread < repetitions (roleOf thread)) :
      Edge roleOf thread s (.active .loop) s (.active (.acquire (roleOf thread)))
  | acquire (role : Role) : Edge roleOf thread s (.active (.acquire role)) s (.active (.test role))
  | blocked (role : Role) (full : s.room role = 0) :
      Edge roleOf thread s (.active (.test role)) s (.active (.wait role))
  | passed (role : Role) (free : s.room role ≠ 0) :
      Edge roleOf thread s (.active (.test role)) s (.active (.change role))
  | wait (role : Role) : Edge roleOf thread s (.active (.wait role)) s (.waiting (.wait role))
  | resume (role : Role) : Edge roleOf thread s (.signalled (.wait role)) s (.active (.test role))
  | change (role : Role) :
      Edge roleOf thread s (.active (.change role)) (s.changed role thread)
        (.active (.signal role))
  | release (role : Role) :
      Edge roleOf thread s (.active (.release role)) s (.active (.next role))
  | next (role : Role) : Edge roleOf thread s (.active (.next role))
      { s with laps := Function.update s.laps thread (s.laps thread + 1) } (.active .loop)

variable {roleOf : Thread → Role} {thread other : Thread} {s after : CondTest Thread}
  {n : Stage Pc → Nat} {source target : Stage Pc}

/-- A thread that is inside is alone there. -/
def Alone (n : Stage Pc → Nat) (source : Stage Pc) : Prop :=
  ∀ pc, source = .active pc → critical pc = some () → ∀ other, critical other = some () →
    n (.active other) = if other = pc then 1 else 0

theorem Places.edge (places : ∀ role, Places s n role)
    (edge : Edge roleOf thread s source after target) (here : 0 < n source)
    (alone : Alone n source) (role : Role) : Places after (moved n source target) role := by
  obtain ⟨nonneg, blocked, free, awake⟩ := places role
  cases edge with
  | stay | start | release =>
      refine ⟨nonneg, ?_, ?_, ?_⟩
      · simpa [moved] using blocked
      · simpa [moved] using free
      · simpa [moved] using awake
  | acquire comer =>
      refine ⟨nonneg, ?_, ?_, ?_⟩
      · simpa [moved] using blocked
      · simpa [moved] using free
      · simp [moved]
        omega
  | resume waiter =>
      refine ⟨nonneg, ?_, ?_, ?_⟩
      · simpa [moved] using blocked
      · simpa [moved] using free
      · by_cases same : role = waiter
        · subst same
          simp [moved] at here ⊢
          omega
        · simpa [moved, same] using awake
  | next =>
      constructor
      · rwa [room_laps]
      · simpa [moved] using blocked
      · simpa [moved] using free
      · simpa [moved] using awake
  | blocked tester full =>
      refine ⟨nonneg, ?_, ?_, ?_⟩
      · by_cases same : role = tester
        · subst same
          exact fun _ => full
        · simpa [moved, same] using blocked
      · simpa [moved] using free
      · by_cases same : role = tester
        · subst same
          rw [full]
          exact fun _ => Int.natCast_nonneg _
        · simpa [moved, same] using awake
  | passed tester room =>
      refine ⟨nonneg, ?_, ?_, ?_⟩
      · simpa [moved] using blocked
      · by_cases same : role = tester
        · subst same
          exact fun _ => room
        · simpa [moved, same] using free
      · by_cases same : role = tester
        · subst same
          simp [moved] at here ⊢
          omega
        · simpa [moved, same] using awake
  | wait waiter =>
      have full := (places waiter).blocked here
      refine ⟨nonneg, ?_, ?_, ?_⟩
      · intro waits
        apply blocked
        simp [moved] at waits
        omega
      · simpa [moved] using free
      · by_cases same : role = waiter
        · subst same
          rw [full]
          exact fun _ => Int.natCast_nonneg _
        · simpa [moved, same] using awake
  | change changer =>
      have room := (places changer).free here
      have inside := alone _ rfl rfl
      have noneWaits : n (.active (.wait role)) = 0 := inside _ rfl
      have changers : n (.active (.change role)) = if role = changer then 1 else 0 := by
        simpa using inside (.change role) rfl
      by_cases same : role = changer
      · subst same
        rw [if_pos rfl] at changers
        constructor
        · rw [room_changed]
          omega
        · simp [moved, noneWaits]
        · simp [moved, changers]
        · rw [room_changed]
          simp [moved] at here ⊢
          omega
      · obtain rfl := Role.ne_iff_eq_other.mp same
        rw [if_neg same] at changers
        rw [Role.other_other] at awake
        constructor
        · rw [room_changed_other]
          omega
        · simp [moved, noneWaits]
        · simp [moved, changers]
        · rw [room_changed_other]
          simp [moved, same] at here ⊢
          omega

omit [DecidableEq Thread] in
/-- A thread notifies a waiter of the other role, if there is one. -/
theorem Places.signal (places : ∀ role, Places s n role) (signaller : Role)
    (alone : Alone n (.active (.signal signaller))) (role : Role) :
    Places s (moved (notified n (.wait signaller.other)
      (min 1 (n (.waiting (.wait signaller.other))))) (.active (.signal signaller))
      (.active (.release signaller))) role := by
  obtain ⟨nonneg, blocked, free, awake⟩ := places role
  refine ⟨nonneg, ?_, ?_, ?_⟩
  · simpa [moved, notified] using blocked
  · simpa [moved, notified] using free
  · by_cases same : role = signaller
    · subst same
      have different : role ≠ role.other := Role.ne_iff_eq_other.mpr (Role.other_other _).symm
      simpa [moved, notified, different, different.symm] using awake
    · obtain rfl := Role.ne_iff_eq_other.mp same
      rw [Role.other_other] at awake
      simp [moved, notified]
      omega

omit [DecidableEq Thread] in
theorem changed_laps (s : CondTest Thread) (role : Role) (thread : Thread) :
    (s.changed role thread).laps = s.laps := by
  cases role <;> rfl

omit [DecidableEq Thread] in
theorem changed_output (s : CondTest Thread) (role : Role) (thread : Thread) :
    (s.changed role thread).output = s.output ++
      [⟨role, thread, s.laps thread + 1, (s.changed role thread).buffer⟩] := by
  cases role <;> rfl

/-- Where a thread is in its loop. -/
def Pc.lap : Pc → Lap
  | .loop => .outside
  | .acquire role | .test role | .wait role | .change role => .before role
  | .signal role | .release role | .next role => .after role

/-- The progress of a thread at a point. -/
abbrev Reached (roleOf : Thread → Role) (s : CondTest Thread) (thread : Thread) (pc : Pc) :
    Prop :=
  Progress roleOf repetitions s.output s.laps thread pc.lap

theorem Edge.reached (edge : Edge roleOf thread s source after target)
    (reached : Reached roleOf s thread source.pc) : Reached roleOf after thread target.pc := by
  cases edge with
  | start left => exact reached.start left
  | change role =>
      unfold Reached
      rw [changed_output, changed_laps]
      exact reached.print _
  | next role => exact reached.next
  | stay | acquire | blocked | passed | wait | resume | release => exact reached

/-- A step of one thread is no progress of another. -/
theorem Edge.reached_of_ne {pc : Pc} (edge : Edge roleOf thread s source after target)
    (reached : Reached roleOf s other pc) (different : other ≠ thread) :
    Reached roleOf after other pc := by
  cases edge with
  | change role =>
      unfold Reached
      rw [changed_output, changed_laps]
      exact reached.print_of_ne different _
  | next role => exact reached.next_of_ne different _
  | stay | start | acquire | blocked | passed | wait | resume | release => exact reached

/-- The number of items agrees with what was printed. -/
structure Output (roleOf : Thread → Role) (s : CondTest Thread) : Prop where
  buffer : s.buffer = linesAs s.output .producer - linesAs s.output .consumer
  agree : ∀ line ∈ s.output, line.role = roleOf line.thread
  shown : ∀ line ∈ s.output, 0 ≤ line.shown.buffer ∧ line.shown.buffer ≤ fullBuffer ∧
    1 ≤ line.shown.i ∧ line.shown.i ≤ repetitions line.role

theorem Output.edge (output : Output roleOf s) (edge : Edge roleOf thread s source after target)
    (reached : Reached roleOf s thread source.pc) (room : ∀ role, 0 ≤ after.room role) :
    Output roleOf after := by
  obtain ⟨buffer, agree, shown⟩ := output
  cases edge with
  | change role =>
      obtain ⟨isRole, left⟩ := reached.role role rfl
      have least : 0 ≤ (s.changed role thread).buffer := room .consumer
      have most : (s.changed role thread).buffer ≤ fullBuffer :=
        Int.sub_nonneg.mp (room .producer)
      constructor
      · rw [changed_output, linesAs_append, linesAs_append]
        cases role <;> simp [changed] <;> omega
      · rw [changed_output]
        exact List.forall_mem_append.mpr ⟨agree, List.forall_mem_singleton.mpr isRole⟩
      · rw [changed_output]
        exact List.forall_mem_append.mpr ⟨shown, List.forall_mem_singleton.mpr
          ⟨least, most, Nat.succ_pos _, left⟩⟩
  | stay | start | acquire | blocked | passed | wait | resume | release | next =>
      exact ⟨buffer, agree, shown⟩

end Invariant

section Runs

variable [Fintype Thread] [DecidableEq Thread] {roleOf : Thread → Role}
  {s next : State Thread (CondTest Thread) Pc Empty Unit Role}

/-- What holds of the variables and of the places of the threads. -/
structure Invariant (roleOf : Thread → Role)
    (s : State Thread (CondTest Thread) Pc Empty Unit Role) : Prop where
  places : ∀ role, Places s.vars (census s.stage) role
  threads : ∀ thread, Reached roleOf s.vars thread (s.stage thread).pc
  output : Output roleOf s.vars

omit [Fintype Thread] in
theorem edge_of_run {thread : Thread} {s changed : CondTest Thread} {pc target : Pc}
    {input : Unit} {body : Thread → Unit → CondTest Thread → Except Fault (CondTest Thread × Pc)}
    (isRun : code roleOf pc = .run body) (done : body thread input s = .ok (changed, target)) :
    Edge roleOf thread s (.active pc) changed (.active target) := by
  cases pc with
  | loop =>
      cases isRun
      cases done
      split
      · next left => exact .start left
      · exact .stay
  | test role =>
      cases isRun
      cases done
      split
      · next full => exact .blocked role (mustWait_iff.mp full)
      · next free => exact .passed role fun full => free (mustWait_iff.mpr full)
  | change role =>
      cases isRun
      cases done
      exact .change role
  | next role =>
      cases isRun
      cases done
      exact .next role
  | acquire | wait | signal | release => cases isRun

omit [Fintype Thread] in
theorem labelled (roleOf : Thread → Role) : (program roleOf).Labelled critical := by
  intro pc
  cases pc with
  | loop =>
      intro thread input s result done
      cases done
      dsimp only
      split <;> rfl
  | test role =>
      intro thread input s result done
      cases done
      dsimp only
      split <;> rfl
  | change role | next role =>
      intro thread input s result done
      cases done
      rfl
  | acquire | wait | signal | release => exact ⟨rfl, rfl⟩

omit [Fintype Thread] in
theorem eq_waits {role : Role} (pc target : Pc)
    (isWait : (program roleOf).code pc = .wait role target) : pc = .wait role := by
  cases pc <;> cases isWait
  rfl

omit [DecidableEq Thread] in
theorem alone_of_exclusive (exclusive : Exclusive critical s) {thread : Thread}
    {source : Stage Pc} (here : s.stage thread = source) : Alone (census s.stage) source := by
  rintro pc rfl held other otherHeld
  exact exclusive.census_eq here held otherHeld

/-- A thread goes along an edge. -/
theorem Invariant.move (invariant : Invariant roleOf s) (exclusive : Exclusive critical s)
    {thread : Thread} {source target : Stage Pc} {vars : CondTest Thread}
    {holder : Unit → Option Thread} {queue : Role → List Thread} (here : s.stage thread = source)
    (edge : Edge roleOf thread s.vars source vars target) :
    Invariant roleOf { s with
      vars := vars
      holder := holder
      queue := queue
      stage := Function.update s.stage thread target } := by
  obtain ⟨places, threads, output⟩ := invariant
  have reached := threads thread
  rw [here] at reached
  have after : ∀ role, Places vars (census (Function.update s.stage thread target)) role := by
    rw [census_update, here]
    exact Places.edge places edge (census_pos thread here) (alone_of_exclusive exclusive here)
  refine ⟨after, ?_, output.edge edge reached fun role => (after role).nonneg⟩
  intro other
  by_cases same : other = thread
  · subst same
    simp only [Function.update_self]
    exact edge.reached reached
  · simp only [Function.update_of_ne same]
    exact edge.reached_of_ne (threads other) same

/-- A thread notifies a waiter. -/
theorem Invariant.signal (invariant : Invariant roleOf s) (exclusive : Exclusive critical s)
    (queued : Queued (program roleOf) s) {thread : Thread} {role : Role}
    {queue : Role → List Thread} (here : s.stage thread = .active (.signal role)) :
    Invariant roleOf { s with
      queue := queue
      stage := Function.update (wakeAll ((s.queue role.other).take 1) s.stage) thread
        (.active (.release role)) } := by
  obtain ⟨places, threads, output⟩ := invariant
  have reached := threads thread
  rw [here] at reached
  have front := queued.census_notify eq_waits here (.release role)
    (List.take_sublist 1 (s.queue role.other))
  have waiters : (s.queue role.other).length = census s.stage (.waiting (.wait role.other)) :=
    queued.length_eq rfl eq_waits
  rw [List.length_take, waiters] at front
  refine ⟨?_, ?_, output⟩
  · intro other
    dsimp only
    rw [front]
    exact Places.signal places role (alone_of_exclusive exclusive here) other
  · exact fits_update (fits_wakeAll threads _) reached

theorem Invariant.step (invariant : Invariant roleOf s) (exclusive : Exclusive critical s)
    (queued : Queued (program roleOf) s) (step : Step (program roleOf) s next) :
    Invariant roleOf next := by
  cases step with
  | run here isRun done => exact invariant.move exclusive here (edge_of_run isRun done)
  | @p thread pc sem => exact sem.elim
  | @v thread pc sem => exact sem.elim
  | @acquire thread pc lock target here isAcquire free =>
      apply invariant.move exclusive here
      cases pc <;> cases isAcquire
      exact .acquire _
  | @release thread pc lock target here isRelease held =>
      apply invariant.move exclusive here
      cases pc <;> cases isRelease
      exact .release _
  | @wait thread pc cond target here isWait held =>
      apply invariant.move exclusive here
      cases pc <;> cases isWait
      exact .wait _
  | @resume thread pc cond target here isWait free =>
      apply invariant.move exclusive here
      cases pc <;> cases isWait
      exact .resume _
  | @signal thread pc cond target here isSignal held =>
      cases pc <;> cases isSignal
      exact invariant.signal exclusive queued here
  | @broadcast thread pc cond target here isBroadcast held => cases pc <;> cases isBroadcast
  | interrupt pending => cases pending

theorem Invariant.start (roleOf : Thread → Role) :
    Invariant roleOf (State.start new (fun sem => sem.elim) fun _ => .loop) where
  places := fun role => by
    cases role <;> constructor <;> simp [State.start, new, room, census_const]
  threads := fun thread => Progress.zero roleOf repetitions thread
  output := ⟨by simp [State.start, new, linesAs], nofun, nofun⟩

omit [Fintype Thread] in
theorem locksOnly (roleOf : Thread → Role) : SynchSystem.LocksOnly (program roleOf) where
  noP pc sem := sem.elim
  noV pc sem := sem.elim
  runs pc body thread input vars isRun := by
    cases pc with
    | loop | test | change | next =>
        cases isRun
        exact ⟨_, rfl⟩
    | acquire | wait | signal | release => cases isRun

/-- The thread has gone through its loop as often as it should. -/
def Ended (roleOf : Thread → Role) (s : SynchSystem Thread (CondTest Thread) Pc Empty Unit Role)
    (thread : Thread) : Prop :=
  s.threads thread = ⟨.loop, .call⟩ ∧ s.vars.laps thread = repetitions (roleOf thread)

/-- Only threads that have ended can still be dispatched. -/
def Stalled (roleOf : Thread → Role)
    (s : SynchSystem Thread (CondTest Thread) Pc Empty Unit Role) : Prop :=
  ∀ thread, Ended roleOf s thread ∨ ¬ SynchSystem.CanStep (program roleOf) s thread

/-- For the threads that are left when nothing more can happen there is no room. -/
theorem Invariant.left_of_stalled {s : SynchSystem Thread (CondTest Thread) Pc Empty Unit Role}
    (invariant : Invariant roleOf s.monitor) (sound : SynchSystem.Sound (program roleOf) s)
    (exclusive : Exclusive critical s.monitor)
    (fits : ∀ thread, SynchSystem.PhaseFits (program roleOf) (s.threads thread))
    {initial : SemRef Empty Unit → Int}
    (safe : SynchSystem.SemsSafe (program roleOf) initial s.sems s.threads s.history)
    (stalled : Stalled roleOf s) (thread : Thread) :
    Ended roleOf s thread ∨ s.vars.room (roleOf thread) = 0 := by
  have away : ∀ thread, Ended roleOf s thread →
      (s.threads thread).phase = .call ∧ critical (s.threads thread).pc = none := by
    rintro thread ⟨here, -⟩
    rw [here]
    exact ⟨rfl, rfl⟩
  have places := sound.sleepWait_of_stuck exclusive (labelled roleOf) (locksOnly roleOf) fits safe
    away stalled
  -- Nobody was notified or is inside.
  have nobody : ∀ stage, stage ≠ .active .loop → (∀ pc, stage ≠ .waiting pc) →
      census s.monitor.stage stage = 0 := by
    intro stage noLoop noWait
    rw [census_eq_zero_iff]
    rintro other rfl
    rcases places other with ⟨here, -⟩ | phase
    · apply noLoop
      simp only [SynchSystem.monitor, here, SynchSystem.stageOf_call]
    · apply noWait (s.threads other).pc
      simp only [SynchSystem.monitor, SynchSystem.stageOf, phase]
  apply (places thread).imp_right
  intro phase
  have waits : s.monitor.stage thread = .waiting (s.threads thread).pc := by
    simp only [SynchSystem.monitor, SynchSystem.stageOf, phase]
  have reached := invariant.threads thread
  rw [waits, Stage.pc_waiting] at reached
  obtain ⟨cond, target, isWait⟩ := sound.queued.atWait thread (s.threads thread).pc (Or.inl waits)
  rw [eq_waits _ _ isWait] at reached waits
  obtain ⟨rfl, -⟩ := reached.role cond rfl
  obtain ⟨nonneg, -, -, awake⟩ := invariant.places (roleOf thread)
  have most := awake (census_pos thread waits)
  rw [nobody (.signalled _) (by simp) (by simp), nobody (.active (.test _)) (by simp) (by simp),
    nobody (.active (.change _)) (by simp) (by simp),
    nobody (.active (.signal _)) (by simp) (by simp)] at most
  exact le_antisymm most nonneg

/-- In every state that a run of any producers and consumers reaches, the number of items is
that of a buffer, also in every line of output, at most one thread is between the operations
on the lock, and no assertion fails.  When only threads that have ended can go on, as many
items have been produced and consumed as the numbers of threads and the room in the buffer
allow: no wakeup is lost. -/
theorem condTest (roleOf : Thread → Role) (actions : List (SynchSystem.Action Thread Unit)) :
    AlongRun (SynchSystem.step (program roleOf)) (fun s =>
      (0 ≤ s.vars.buffer ∧ s.vars.buffer ≤ fullBuffer) ∧
      (∀ line ∈ s.vars.output, line.role = roleOf line.thread ∧ 0 ≤ line.shown.buffer ∧
        line.shown.buffer ≤ fullBuffer ∧ 1 ≤ line.shown.i ∧
        line.shown.i ≤ repetitions line.role) ∧
      (∀ first second, inside critical (SynchSystem.stageOf (s.threads first)) = some () →
        inside critical (SynchSystem.stageOf (s.threads second)) = some () → first = second) ∧
      (∀ action reason,
        SynchSystem.step (program roleOf) s action ≠ .error (.fault reason)) ∧
      (Stalled roleOf s →
        linesAs s.vars.output .producer = min (2 * workers roleOf .producer)
          (29 * workers roleOf .consumer + fullBuffer) ∧
        linesAs s.vars.output .consumer = min (29 * workers roleOf .consumer)
          (2 * workers roleOf .producer)))
      boot actions := by
  have monitor := SynchSystem.alongRun_of_monitor (labelled roleOf) (fun _ => rfl)
    (Invariant.start roleOf)
    (fun _ _ exclusive queued invariant step => invariant.step exclusive queued step) actions
  have progress := monitor.and
    (SynchSystem.alongRun_progress new (fun sem => sem.elim) (fun _ => Pc.loop) actions)
  apply progress.mono
  rintro s ⟨⟨sound, exclusive, invariant⟩, initial, -, safe, fits⟩
  have output := invariant.output
  have least : 0 ≤ s.vars.buffer := (invariant.places .consumer).nonneg
  have most : s.vars.buffer ≤ fullBuffer := Int.sub_nonneg.mp (invariant.places .producer).nonneg
  refine ⟨⟨least, most⟩, ?_, ?_, ?_, ?_⟩
  · intro line member
    exact ⟨output.agree line member, output.shown line member⟩
  · intro first second
    exact exclusive.eq_of_inside
  · intro action reason failed
    rcases sound.step_fault exclusive (labelled roleOf) failed with
      ⟨thread, input, body, -, isRun, -, failed⟩ | ⟨input, pending⟩
    · obtain ⟨result, done⟩ := (locksOnly roleOf).runs _ body thread input s.vars isRun
      rw [done] at failed
      cases failed
    · cases pending
  · intro stalled
    have left := invariant.left_of_stalled sound exclusive fits safe stalled
    have buffer : s.vars.buffer = linesAs s.vars.output .producer -
        linesAs s.vars.output .consumer := output.buffer
    have agree : ∀ line ∈ s.vars.output, line.role = roleOf line.thread := output.agree
    have finished : ∀ thread, linesOf s.vars.output thread ≠ repetitions (roleOf thread) →
        s.vars.room (roleOf thread) = 0 := by
      intro thread unfinished
      apply (left thread).resolve_left
      rintro ⟨here, laps⟩
      have reached := invariant.threads thread
      simp only [SynchSystem.monitor, here, SynchSystem.stageOf_call, Stage.pc_active] at reached
      exact unfinished (reached.lines.trans laps)
    have bounded : ∀ thread, linesOf s.vars.output thread ≤ repetitions (roleOf thread) :=
      fun thread => (invariant.threads thread).lines_le
    have fits : linesAs s.vars.output .consumer ≤ linesAs s.vars.output .producer ∧
        linesAs s.vars.output .producer ≤ linesAs s.vars.output .consumer + fullBuffer := by
      constructor <;> omega
    refine totals_of_left (by decide) agree bounded fits ?_ ?_
    · intro thread isRole unfinished
      have none := finished thread (by rwa [isRole])
      rw [isRole] at none
      change fullBuffer - s.vars.buffer = 0 at none
      omega
    · intro thread isRole unfinished
      have none := finished thread (by rwa [isRole])
      rw [isRole] at none
      change s.vars.buffer = 0 at none
      omega

end Runs

end CondTest

end Nachos
