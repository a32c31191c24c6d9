import Nachos.ProducerConsumer

/-!
# The semaphore test

`SemTest` of `threads/synchtest.cc`: producers and consumers share a buffer of which only the
numbers of full and empty places are kept.  One semaphore counts the places of each kind and
one protects the two numbers.  Any number of threads takes part.
-/

namespace Nachos

open MesaMonitor TransitionRuns ThreadCounting ProducerConsumer

/-- What a line of output shows: `full`, `empty` and, for a consumer, the loop variable. -/
structure SemLine where
  full : Int
  empty : Int
  time : Option Nat
  deriving DecidableEq

/-- The variables `full` and `empty`, the loop variables of the threads, and what they
printed. -/
structure SemTest (Thread : Type) where
  full : Int
  empty : Int
  laps : Thread → Nat
  output : List (BufferLine Thread SemLine)

namespace SemTest

variable {Thread : Type}

/-- `N`. -/
def capacity : Nat := 10

/-- How often a `Producer_sem` and a `Consumer_sem` go round their loops. -/
def repetitions : Role → Nat
  | .producer => 2
  | .consumer => 23

/-- `sem_mutex`, `sem_full` and `sem_empty`. -/
inductive Sem where
  | mutex
  | full
  | empty
  deriving DecidableEq

/-- The semaphore on which the threads of a role wait for a place of the buffer. -/
def takes : Role → Sem
  | .producer => .empty
  | .consumer => .full

/-- The points of `Producer_sem` and `Consumer_sem`, which differ in the semaphores and in
what they do to the buffer. -/
inductive Pc where
  | loop
  | take (role : Role)
  | enter (role : Role)
  | change (role : Role)
  | leave (role : Role)
  | give (role : Role)
  | next (role : Role)
  deriving DecidableEq

def insertItem (s : SemTest Thread) : SemTest Thread :=
  { s with full := s.full + 1, empty := s.empty - 1 }

def removeItem (s : SemTest Thread) : SemTest Thread :=
  { s with full := s.full - 1, empty := s.empty + 1 }

/-- The loop variable, which only a consumer prints. -/
def time (s : SemTest Thread) (thread : Thread) : Role → Option Nat
  | .producer => none
  | .consumer => some (s.laps thread)

/-- `insert_item` or `remove_item`, and the call of `printf` after it. -/
def changed (s : SemTest Thread) (role : Role) (thread : Thread) : SemTest Thread :=
  let s :=
    match role with
    | .producer => s.insertItem
    | .consumer => s.removeItem
  { s with output := s.output ++ [⟨role, thread, s.full, s.empty, s.time thread role⟩] }

variable [DecidableEq Thread]

/-- The code of a thread.  At `next` it calls `Yield`, as it can at any point. -/
def code (roleOf : Thread → Role) :
    Pc → Instr Thread (SemTest Thread) Pc Sem Empty Empty Unit Fault
  | .loop => .run fun thread _ s => .ok (s,
      if s.laps thread < repetitions (roleOf thread) then .take (roleOf thread) else .loop)
  | .take role => .p (takes role) (.enter role)
  | .enter role => .p .mutex (.change role)
  | .change role => .run fun thread _ s => .ok (s.changed role thread, .leave role)
  | .leave role => .v .mutex (.give role)
  | .give role => .v (takes role.other) (.next role)
  | .next _ => .run fun thread _ s =>
      .ok ({ s with laps := Function.update s.laps thread (s.laps thread + 1) }, .loop)

def program (roleOf : Thread → Role) :
    FlowChart Thread (SemTest Thread) Pc Sem Empty Empty Unit Fault where
  code := code roleOf
  lockOf := fun cond => cond.elim
  interrupt := fun _ _ => none

omit [DecidableEq Thread] in
/-- The variables that `SemTest` sets. -/
def new : SemTest Thread :=
  ⟨0, capacity, fun _ => 0, []⟩

omit [DecidableEq Thread] in
/-- The semaphores that `SemTest` makes. -/
def initial : Sem → Int
  | .mutex => 1
  | .full => 0
  | .empty => capacity

omit [DecidableEq Thread] in
def boot : SynchSystem Thread (SemTest Thread) Pc Sem Empty Empty :=
  .boot new initial fun _ => .loop

section Invariant

/-- The places that the threads of a role look for. -/
def places (s : SemTest Thread) : Role → Int
  | .producer => s.empty
  | .consumer => s.full

/-- The places of each kind are the units of their semaphore and those that threads have
taken and not yet changed, or have changed and not yet given; at most one thread is
inside. -/
structure Units (s : SemTest Thread) (value : Sem → Int) (n : Pc → Nat) : Prop where
  places : ∀ role, s.places role = value (takes role) +
    (n (.enter role) + n (.change role) + n (.leave role.other) + n (.give role.other) : Nat)
  mutex : value .mutex + (n (.change .producer) + n (.leave .producer) +
    n (.change .consumer) + n (.leave .consumer) : Nat) = 1
  nonneg : ∀ sem, 0 ≤ value sem

/-- What a thread does between two points. -/
inductive Edge (roleOf : Thread → Role) (thread : Thread) (s : SemTest Thread)
    (value : Sem → Int) : Pc → SemTest Thread → (Sem → Int) → Pc → Prop
  | stay : Edge roleOf thread s value .loop s value .loop
  | start (left : s.laps thread < repetitions (roleOf thread)) :
      Edge roleOf thread s value .loop s value (.take (roleOf thread))
  | take (role : Role) (available : value (takes role) ≠ 0) :
      Edge roleOf thread s value (.take role) s
        (Function.update value (takes role) (value (takes role) - 1)) (.enter role)
  | enter (role : Role) (available : value .mutex ≠ 0) :
      Edge roleOf thread s value (.enter role) s
        (Function.update value .mutex (value .mutex - 1)) (.change role)
  | change (role : Role) :
      Edge roleOf thread s value (.change role) (s.changed role thread) value (.leave role)
  | leave (role : Role) :
      Edge roleOf thread s value (.leave role) s
        (Function.update value .mutex (value .mutex + 1)) (.give role)
  | give (role : Role) :
      Edge roleOf thread s value (.give role) s (Function.update value (takes role.other)
        (value (takes role.other) + 1)) (.next role)
  | next (role : Role) :
      Edge roleOf thread s value (.next role)
        { s with laps := Function.update s.laps thread (s.laps thread + 1) } value .loop

variable {roleOf : Thread → Role} {thread other : Thread} {s after : SemTest Thread}
  {value later : Sem → Int} {n : Pc → Nat} {source target : Pc}

theorem Units.edge (units : Units s value n)
    (edge : Edge roleOf thread s value source after later target) (here : 0 < n source) :
    Units after later (moved n source target) := by
  obtain ⟨places, mutex, nonneg⟩ := units
  have producers := places .producer
  have consumers := places .consumer
  have mutexUnits := nonneg .mutex
  have fullUnits := nonneg .full
  have emptyUnits := nonneg .empty
  simp only [SemTest.places, takes, Role.other] at producers consumers
  cases edge with
  | stay =>
      refine ⟨fun role => ?_, ?_, nonneg⟩
      · cases role <;> simp_all [SemTest.places, takes, Role.other, moved]
      · simpa [moved] using mutex
  | start left =>
      refine ⟨fun other => ?_, ?_, nonneg⟩
      · cases other <;> simpa [SemTest.places, takes, Role.other, moved]
      · simpa [moved] using mutex
  | take role available =>
      refine ⟨fun other => ?_, ?_, fun sem => ?_⟩
      · cases role <;> cases other <;>
          simp [SemTest.places, takes, Role.other, moved] at here ⊢ <;> omega
      · cases role <;> simpa [takes, moved] using mutex
      · cases role <;> cases sem <;> simp [takes] at available ⊢ <;> omega
  | enter role available =>
      refine ⟨fun other => ?_, ?_, fun sem => ?_⟩
      · cases role <;> cases other <;>
          simp [SemTest.places, takes, Role.other, moved] at here ⊢ <;> omega
      · cases role <;> simp [moved] <;> omega
      · cases sem <;> simp <;> omega
  | change role =>
      refine ⟨fun other => ?_, ?_, nonneg⟩
      · cases role <;> cases other <;>
          simp [SemTest.places, SemTest.changed, insertItem, removeItem, takes, Role.other,
            moved] at here ⊢ <;> omega
      · cases role <;> simp [moved] at here ⊢ <;> omega
  | leave role =>
      refine ⟨fun other => ?_, ?_, fun sem => ?_⟩
      · cases role <;> cases other <;>
          simp [SemTest.places, takes, Role.other, moved] at here ⊢ <;> omega
      · cases role <;> simp [moved] at here ⊢ <;> omega
      · cases sem <;> simp <;> omega
  | give role =>
      refine ⟨fun other => ?_, ?_, fun sem => ?_⟩
      · cases role <;> cases other <;>
          simp [SemTest.places, takes, Role.other, moved] at here ⊢ <;> omega
      · cases role <;> simpa [takes, Role.other, moved] using mutex
      · cases role <;> cases sem <;> simp [takes, Role.other] <;> omega
  | next role =>
      refine ⟨fun other => ?_, ?_, nonneg⟩
      · cases other <;> simpa [SemTest.places, takes, Role.other, moved]
      · simpa [moved] using mutex

omit [DecidableEq Thread] in
theorem changed_laps (s : SemTest Thread) (role : Role) (thread : Thread) :
    (s.changed role thread).laps = s.laps := by
  cases role <;> rfl

omit [DecidableEq Thread] in
theorem changed_output (s : SemTest Thread) (role : Role) (thread : Thread) :
    (s.changed role thread).output = s.output ++
      [⟨role, thread, (s.changed role thread).full, (s.changed role thread).empty,
        s.time thread role⟩] := by
  cases role <;> rfl

/-- Where a thread is in its loop. -/
def Pc.lap : Pc → Lap
  | .loop => .outside
  | .take role | .enter role | .change role => .before role
  | .leave role | .give role | .next role => .after role

/-- The progress of a thread at a point. -/
abbrev Reached (roleOf : Thread → Role) (s : SemTest Thread) (thread : Thread) (pc : Pc) : Prop :=
  Progress roleOf repetitions s.output s.laps thread pc.lap

theorem Edge.reached (edge : Edge roleOf thread s value source after later target)
    (reached : Reached roleOf s thread source) : Reached roleOf after thread target := by
  cases edge with
  | start left => exact reached.start left
  | change role =>
      unfold Reached
      rw [changed_output, changed_laps]
      exact reached.print _
  | next role => exact reached.next
  | stay | take | enter | leave | give => exact reached

/-- A step of one thread is no progress of another. -/
theorem Edge.reached_of_ne {pc : Pc}
    (edge : Edge roleOf thread s value source after later target)
    (reached : Reached roleOf s other pc) (different : other ≠ thread) :
    Reached roleOf after other pc := by
  cases edge with
  | change role =>
      unfold Reached
      rw [changed_output, changed_laps]
      exact reached.print_of_ne different _
  | next role => exact reached.next_of_ne different _
  | stay | start | take | enter | leave | give => exact reached

/-- The numbers of the buffer agree with what was printed. -/
structure Output (roleOf : Thread → Role) (s : SemTest Thread) : Prop where
  total : s.full + s.empty = capacity
  full : s.full = linesAs s.output .producer - linesAs s.output .consumer
  agree : ∀ line ∈ s.output, line.role = roleOf line.thread
  shown : ∀ line ∈ s.output, line.shown.full + line.shown.empty = capacity ∧
    0 ≤ line.shown.full ∧ 0 ≤ line.shown.empty

omit [DecidableEq Thread] in
theorem Units.range (units : Units s value n) : 0 ≤ s.full ∧ 0 ≤ s.empty := by
  have full := units.places .consumer
  have empty := units.places .producer
  have fullUnits := units.nonneg .full
  have emptyUnits := units.nonneg .empty
  change s.full = value .full + _ at full
  change s.empty = value .empty + _ at empty
  omega

theorem Output.edge (output : Output roleOf s)
    (edge : Edge roleOf thread s value source after later target)
    (reached : Reached roleOf s thread source) (range : 0 ≤ after.full ∧ 0 ≤ after.empty) :
    Output roleOf after := by
  obtain ⟨total, full, agree, shown⟩ := output
  cases edge with
  | change role =>
      obtain ⟨isRole, -⟩ := reached.role role rfl
      have totalAfter : (s.changed role thread).full + (s.changed role thread).empty =
          capacity := by
        cases role <;> simp only [changed, insertItem, removeItem] <;> omega
      refine ⟨totalAfter, ?_, ?_, ?_⟩
      · rw [changed_output, linesAs_append, linesAs_append]
        cases role <;> simp [changed, insertItem, removeItem] <;> omega
      · rw [changed_output]
        exact List.forall_mem_append.mpr ⟨agree, List.forall_mem_singleton.mpr isRole⟩
      · rw [changed_output]
        exact List.forall_mem_append.mpr
          ⟨shown, List.forall_mem_singleton.mpr ⟨totalAfter, range⟩⟩
  | stay | start left | take role | enter role | leave role | give role | next role =>
      exact ⟨total, full, agree, shown⟩

omit [DecidableEq Thread] in
theorem Units.small (units : Units s value n) (total : s.full + s.empty = capacity) (sem : Sem) :
    value sem ≤ capacity := by
  have range := units.range
  cases sem with
  | mutex =>
      have mutex := units.mutex
      simp only [capacity]
      omega
  | full =>
      have full := units.places .consumer
      change s.full = value .full + _ at full
      omega
  | empty =>
      have empty := units.places .producer
      change s.empty = value .empty + _ at empty
      omega

end Invariant

section Runs

variable [Fintype Thread] {roleOf : Thread → Role}
  {s next : State Thread (SemTest Thread) Pc Sem Empty Empty}

/-- What holds of the variables, the semaphores and the places of the threads. -/
structure Invariant (roleOf : Thread → Role)
    (s : State Thread (SemTest Thread) Pc Sem Empty Empty) : Prop where
  units : Units s.vars s.value fun pc => census s.stage (.active pc)
  threads : ∀ thread, ∃ pc, s.stage thread = .active pc ∧ Reached roleOf s.vars thread pc
  output : Output roleOf s.vars

omit [Fintype Thread] in
theorem edge_of_run {thread : Thread} {s changed : SemTest Thread} {value : Sem → Int}
    {pc target : Pc} {input : Unit}
    {body : Thread → Unit → SemTest Thread → Except Fault (SemTest Thread × Pc)}
    (isRun : code roleOf pc = .run body) (done : body thread input s = .ok (changed, target)) :
    Edge roleOf thread s value pc changed value target := by
  cases pc with
  | loop =>
      cases isRun
      cases done
      split
      · next left => exact .start left
      · exact .stay
  | change role =>
      cases isRun
      cases done
      exact .change role
  | next role =>
      cases isRun
      cases done
      exact .next role
  | take | enter | leave | give => cases isRun

/-- A thread goes along an edge. -/
theorem Invariant.move (invariant : Invariant roleOf s) {thread : Thread} {source target : Pc}
    {vars : SemTest Thread} {value : Sem → Int} (here : s.stage thread = .active source)
    (edge : Edge roleOf thread s.vars s.value source vars value target) :
    Invariant roleOf { s with
      vars := vars
      value := value
      stage := Function.update s.stage thread (.active target) } := by
  obtain ⟨units, threads, output⟩ := invariant
  obtain ⟨pc, isHere, reached⟩ := threads thread
  obtain rfl : pc = source := Stage.active.inj (isHere.symm.trans here)
  have moves : Units vars value fun pc =>
      census (Function.update s.stage thread (.active target)) (.active pc) := by
    have counted := units.edge edge (census_pos thread here)
    rw [census_update, here]
    convert counted using 2
    simp [moved]
  refine ⟨moves, ?_, output.edge edge reached moves.range⟩
  intro other
  by_cases same : other = thread
  · subst same
    exact ⟨target, Function.update_self .., edge.reached reached⟩
  · obtain ⟨place, isThere, unchanged⟩ := threads other
    exact ⟨place, (Function.update_of_ne same ..).trans isThere,
      edge.reached_of_ne unchanged same⟩

theorem Invariant.step (invariant : Invariant roleOf s) (step : Step (program roleOf) s next) :
    Invariant roleOf next := by
  cases step with
  | run here isRun done => exact invariant.move here (edge_of_run isRun done)
  | @p thread pc sem target here isP available =>
      apply invariant.move here
      cases pc <;> cases isP
      · exact .take _ available
      · exact .enter _ available
  | @v thread pc sem target here isV =>
      apply invariant.move here
      cases pc <;> cases isV
      · exact .leave _
      · exact .give _
  | @acquire thread pc lock => exact lock.elim
  | @release thread pc lock => exact lock.elim
  | @wait thread pc cond => exact cond.elim
  | @resume thread pc cond => exact cond.elim
  | @signal thread pc cond => exact cond.elim
  | @broadcast thread pc cond => exact cond.elim
  | interrupt pending => cases pending

theorem Invariant.start (roleOf : Thread → Role) :
    Invariant roleOf (State.start new initial fun _ => .loop) where
  units := by
    refine ⟨fun role => ?_, ?_, fun sem => ?_⟩
    · cases role <;>
        simp [State.start, new, initial, SemTest.places, takes, census_const]
    · simp [State.start, initial, census_const]
    · cases sem <;> simp [State.start, initial]
  threads := fun thread => ⟨.loop, rfl, Progress.zero roleOf repetitions thread⟩
  output := ⟨by simp [State.start, new], by simp [State.start, new, linesAs], nofun, nofun⟩

omit [Fintype Thread] in
theorem semsOnly (roleOf : Thread → Role) (pc : Pc) :
    SynchSystem.SemsOnly (program roleOf) pc := by
  cases pc with
  | loop | change | next => exact .run _ rfl fun _ _ _ => ⟨_, rfl⟩
  | take | enter => exact .p _ _ rfl
  | leave | give => exact .v _ _ rfl

/-- The thread has gone through its loop as often as it should. -/
def Ended (roleOf : Thread → Role) (s : SynchSystem Thread (SemTest Thread) Pc Sem Empty Empty)
    (thread : Thread) : Prop :=
  s.threads thread = ⟨.loop, .call⟩ ∧ s.vars.laps thread = repetitions (roleOf thread)

/-- Only threads that have ended can still be dispatched. -/
def Stalled (roleOf : Thread → Role)
    (s : SynchSystem Thread (SemTest Thread) Pc Sem Empty Empty) : Prop :=
  ∀ thread, Ended roleOf s thread ∨ ¬ SynchSystem.CanStep (program roleOf) s thread

/-- The thread is between the operations on `sem_mutex`. -/
def within : Pc → Bool
  | .change _ | .leave _ => true
  | _ => false

omit [Fintype Thread] [DecidableEq Thread] in
theorem Units.le_one {vars : SemTest Thread} {value : Sem → Int} {n : Pc → Nat}
    (units : Units vars value n) {pc : Pc} (inside : within pc = true) : n pc ≤ 1 := by
  have mutex := units.mutex
  have free := units.nonneg .mutex
  cases pc with
  | change role | leave role => cases role <;> omega
  | loop | take | enter | give | next => cases inside

omit [Fintype Thread] [DecidableEq Thread] in
theorem Units.add_le_one {vars : SemTest Thread} {value : Sem → Int} {n : Pc → Nat}
    (units : Units vars value n) {pc other : Pc} (inside : within pc = true)
    (otherInside : within other = true) (different : pc ≠ other) : n pc + n other ≤ 1 := by
  have mutex := units.mutex
  have free := units.nonneg .mutex
  cases pc with
  | change role | leave role =>
      cases other with
      | change otherRole | leave otherRole =>
          cases role <;> cases otherRole <;> first | omega | exact absurd rfl different
      | loop | take | enter | give | next => cases otherInside
  | loop | take | enter | give | next => cases inside

omit [DecidableEq Thread] in
/-- At most one thread is between the operations on `sem_mutex`. -/
theorem Units.eq_of_within {vars : SemTest Thread} {value : Sem → Int}
    {place : Thread → Stage Pc} (units : Units vars value fun pc => census place (.active pc))
    {first second : Thread} {pc other : Pc} (firstHere : place first = .active pc)
    (secondHere : place second = .active other) (firstInside : within pc = true)
    (secondInside : within other = true) : first = second := by
  by_cases same : pc = other
  · subst same
    exact eq_of_census_le_one (units.le_one firstInside) firstHere secondHere
  · have few := units.add_le_one firstInside secondInside same
    have one := census_pos first firstHere
    have two := census_pos second secondHere
    omega

omit [Fintype Thread] in
theorem labelled (roleOf : Thread → Role) : (program roleOf).Labelled fun _ => none := by
  intro pc
  cases pc with
  | loop | change | next => exact fun _ _ _ _ _ => rfl
  | take | enter | leave | give => rfl

/-- The threads that are left when nothing more can happen look for a place. -/
theorem Invariant.left_of_stalled {s : SynchSystem Thread (SemTest Thread) Pc Sem Empty Empty}
    (invariant : Invariant roleOf s.monitor) (sound : SynchSystem.Sound (program roleOf) s)
    (fits : ∀ thread, SynchSystem.PhaseFits (program roleOf) (s.threads thread))
    {initial : SemRef Sem Empty → Int}
    (safe : SynchSystem.SemsSafe (program roleOf) initial s.sems s.threads s.history)
    (small : ∀ sem, (s.sems (.named sem)).value < 2 ^ 31 - 1) (stalled : Stalled roleOf s)
    (thread : Thread) : Ended roleOf s thread ∨
      s.vars.places (roleOf thread) = 0 := by
  have away : ∀ thread, Ended roleOf s thread → (s.threads thread).phase = .call := by
    rintro thread ⟨here, -⟩
    rw [here]
  have places := sound.sleepP_of_stuck (semsOnly roleOf) fits safe small away stalled
  obtain ⟨units, threads, -⟩ := invariant
  -- Nobody is at a point where a thread can go on.
  have nobody : ∀ pc, (∀ sem next, code roleOf pc ≠ .p sem next) → pc ≠ .loop →
      census s.monitor.stage (.active pc) = 0 := by
    intro pc noP noLoop
    rw [census_eq_zero_iff]
    intro other here
    have isHere := SynchSystem.pc_of_stageOf here
    rcases places other with ⟨ended, -⟩ | ⟨sem, next, isP, -⟩
    · rw [ended] at isHere
      exact noLoop isHere.symm
    · rw [isHere] at isP
      exact noP sem next isP
  have noneIn : ∀ role, census s.monitor.stage (.active (.change role)) = 0 ∧
      census s.monitor.stage (.active (.leave role)) = 0 ∧
      census s.monitor.stage (.active (.give role)) = 0 :=
    fun role => ⟨nobody _ nofun nofun, nobody _ nofun nofun, nobody _ nofun nofun⟩
  obtain ⟨changing, leaving, giving⟩ := noneIn .producer
  obtain ⟨otherChanging, otherLeaving, otherGiving⟩ := noneIn .consumer
  have unlocked : s.monitor.value .mutex = 1 := by
    have mutex := units.mutex
    omega
  have noneEnters : ∀ role, census s.monitor.stage (.active (.enter role)) = 0 := by
    intro role
    rw [census_eq_zero_iff]
    intro other here
    have isHere := SynchSystem.pc_of_stageOf here
    rcases places other with ⟨ended, -⟩ | ⟨sem, next, isP, none⟩
    · rw [ended] at isHere
      cases isHere
    · rw [isHere] at isP
      cases isP
      change s.monitor.value .mutex = 0 at none
      omega
  have units := units.places (roleOf thread)
  obtain ⟨pc, here, reached⟩ := threads thread
  have isHere := SynchSystem.pc_of_stageOf here
  apply (places thread).imp_right
  rintro ⟨sem, next, isP, none⟩
  rw [isHere] at isP
  cases pc with
  | take role =>
      obtain ⟨rfl, -⟩ := reached.role role rfl
      cases isP
      change s.monitor.value (takes (roleOf thread)) = 0 at none
      have entering := noneEnters (roleOf thread)
      obtain ⟨changing, -, -⟩ := noneIn (roleOf thread)
      obtain ⟨-, leaving, giving⟩ := noneIn (roleOf thread).other
      change s.vars.places (roleOf thread) = _ at units
      omega
  | enter role => exact absurd here (census_eq_zero_iff.mp (noneEnters role) thread)
  | loop | change | leave | give | next => cases isP

/-- In every state that a run of any producers and consumers reaches, the numbers of full and
empty places are those of a buffer, also in every line of output, at most one thread is
between the operations on the mutex, and no step fails.  When only threads that have ended
can go on, as many items have been produced and consumed as the numbers of threads and the
room in the buffer allow. -/
theorem semTest (roleOf : Thread → Role) (actions : List (SynchSystem.Action Thread Unit)) :
    AlongRun (SynchSystem.step (program roleOf)) (fun s =>
      (s.vars.full + s.vars.empty = capacity ∧ 0 ≤ s.vars.full ∧ 0 ≤ s.vars.empty) ∧
      (∀ line ∈ s.vars.output, line.role = roleOf line.thread ∧
        line.shown.full + line.shown.empty = capacity ∧ 0 ≤ line.shown.full ∧
        0 ≤ line.shown.empty) ∧
      (∀ first second, within (s.threads first).pc = true →
        within (s.threads second).pc = true → first = second) ∧
      (∀ action stop, SynchSystem.step (program roleOf) s action = .error stop →
        stop = .notRunnable) ∧
      (Stalled roleOf s →
        linesAs s.vars.output .producer = min (2 * workers roleOf .producer)
          (23 * workers roleOf .consumer + capacity) ∧
        linesAs s.vars.output .consumer = min (23 * workers roleOf .consumer)
          (2 * workers roleOf .producer)))
      boot actions := by
  have monitor := SynchSystem.alongRun_of_monitor (labelled roleOf) (fun _ => rfl)
    (Invariant.start roleOf) (fun _ _ _ _ invariant step => invariant.step step) actions
  have nonneg : ∀ sem, 0 ≤ initial sem := by
    intro sem
    cases sem <;> decide
  have progress := monitor.and
    (SynchSystem.alongRun_progress new nonneg (fun _ => Pc.loop) actions)
  apply progress.mono
  rintro s ⟨⟨sound, -, invariant⟩, initial, -, safe, fits⟩
  have units := invariant.units
  have output := invariant.output
  have total : s.vars.full + s.vars.empty = 10 := output.total
  have range : 0 ≤ s.vars.full ∧ 0 ≤ s.vars.empty := units.range
  have small : ∀ sem, (s.sems (.named sem)).value < 2 ^ 31 - 1 := by
    intro sem
    apply (units.small output.total sem).trans_lt
    decide
  refine ⟨⟨total, range⟩, ?_, ?_, ?_, ?_⟩
  · intro line member
    exact ⟨output.agree line member, output.shown line member⟩
  · intro first second firstInside secondInside
    obtain ⟨pc, here, -⟩ := invariant.threads first
    obtain ⟨other, otherHere, -⟩ := invariant.threads second
    rw [SynchSystem.pc_of_stageOf here] at firstInside
    rw [SynchSystem.pc_of_stageOf otherHere] at secondInside
    exact units.eq_of_within here otherHere firstInside secondInside
  · intro action stop failed
    exact SynchSystem.step_error_of_semsOnly (semsOnly roleOf) (fun _ _ => rfl) small failed
  · intro stalled
    have left := invariant.left_of_stalled sound fits safe small stalled
    have counted : s.vars.full = linesAs s.vars.output .producer -
        linesAs s.vars.output .consumer := output.full
    have finished : ∀ thread, linesOf s.vars.output thread ≠ repetitions (roleOf thread) →
        s.vars.places (roleOf thread) = 0 := by
      intro thread unfinished
      apply (left thread).resolve_left
      rintro ⟨here, laps⟩
      obtain ⟨pc, place, reached⟩ := invariant.threads thread
      have isHere := SynchSystem.pc_of_stageOf place
      rw [here] at isHere
      subst isHere
      exact unfinished (reached.lines.trans laps)
    have agree : ∀ line ∈ s.vars.output, line.role = roleOf line.thread := output.agree
    have room : capacity = 10 := rfl
    have bounded : ∀ thread, linesOf s.vars.output thread ≤ repetitions (roleOf thread) := by
      intro thread
      obtain ⟨pc, -, reached⟩ := invariant.threads thread
      exact reached.lines_le
    have fits : linesAs s.vars.output .consumer ≤ linesAs s.vars.output .producer ∧
        linesAs s.vars.output .producer ≤ linesAs s.vars.output .consumer + capacity := by
      constructor <;> omega
    refine totals_of_left (by decide) agree bounded fits ?_ ?_
    · intro thread isRole unfinished
      have none := finished thread (by rwa [isRole])
      rw [isRole] at none
      change s.vars.empty = 0 at none
      omega
    · intro thread isRole unfinished
      have none := finished thread (by rwa [isRole])
      rw [isRole] at none
      change s.vars.full = 0 at none
      omega

end Runs

end SemTest

end Nachos
