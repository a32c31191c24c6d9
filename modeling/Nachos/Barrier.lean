import Nachos.MonitorRuns
import Mathlib.Algebra.Order.BigOperators.Group.Finset

/-!
# The barrier

`class Barrier` of `threads/synch.cc`.  `setBarrierNum` sets `remaining`, each call of
`enterBarrier` decrements it, and nothing sets it again: once it has got down to zero
no later call waits.  The barrier separates one round, and no second one.

How often each thread has called, has decremented `remaining` and has returned is
recorded beside the object; no code reads these numbers.
-/

namespace Nachos

open MesaMonitor TransitionRuns

/-- The numbers of `class Barrier` and the function that is called by the first thread to
leave.  `remaining` goes down by one in each call and is kept as an integer. -/
structure Barrier (World : Type) where
  barrierNum : Int
  remaining : Int
  processFunction : Option (Int → World → World)

namespace Barrier

/-- The points of `enterBarrier`, and of a thread that calls it again and again. -/
inductive Pc where
  | outside
  | acquire
  | decrement
  | test
  | wait
  | process
  | broadcast
  | release
  | returned
  deriving DecidableEq

/-- The barrier, what its function works on, and the record of the calls. -/
structure Vars (Thread World : Type) where
  barrier : Barrier World
  world : World
  calls : Thread → Nat
  arrivals : Thread → Nat
  returns : Thread → Nat

variable {Thread World : Type}

/-- `Barrier::Barrier`. -/
def new : Barrier World :=
  ⟨0, 0, none⟩

def setProcessFunction (barrier : Barrier World) (p : Option (Int → World → World)) :
    Barrier World :=
  { barrier with processFunction := p }

def setBarrierNum (barrier : Barrier World) (num : Int) : Barrier World :=
  { barrier with barrierNum := num, remaining := num }

/-- The call of `processFunction` and its reset. -/
def Vars.process (vars : Vars Thread World) : Vars Thread World :=
  { vars with
    barrier := { vars.barrier with processFunction := none }
    world :=
      match vars.barrier.processFunction with
      | none => vars.world
      | some processFunction => processFunction (-1) vars.world }

section Code

variable [DecidableEq Thread]

/-- The code of `enterBarrier`, called the given number of times by each thread. -/
def code (rounds : Nat) : Pc → Instr Thread (Vars Thread World) Pc Empty Unit Unit Unit Fault
  | .outside => .run fun thread _ vars =>
      if vars.calls thread < rounds then
        .ok ({ vars with
          calls := Function.update vars.calls thread (vars.calls thread + 1) }, .acquire)
      else .ok (vars, .outside)
  | .acquire => .acquire () .decrement
  | .decrement => .run fun thread _ vars => .ok ({ vars with
      barrier := { vars.barrier with remaining := vars.barrier.remaining - 1 }
      arrivals := Function.update vars.arrivals thread (vars.arrivals thread + 1) }, .test)
  | .test => .run fun _ _ vars =>
      .ok (vars, if vars.barrier.remaining > 0 then .wait else .process)
  | .wait => .wait () .test
  | .process => .run fun _ _ vars => .ok (vars.process, .broadcast)
  | .broadcast => .broadcast () .release
  | .release => .release () .returned
  | .returned => .run fun thread _ vars => .ok ({ vars with
      returns := Function.update vars.returns thread (vars.returns thread + 1) }, .outside)

def program (rounds : Nat) :
    FlowChart Thread (Vars Thread World) Pc Empty Unit Unit Unit Fault where
  code := code rounds
  lockOf := fun _ => ()
  interrupt := fun _ _ => none

end Code

/-- A barrier for the given number of threads that nobody has entered. -/
def Vars.new (num : Nat) (processFunction : Option (Int → World → World)) (world : World) :
    Vars Thread World where
  barrier := (Barrier.new.setProcessFunction processFunction).setBarrierNum num
  world := world
  calls := fun _ => 0
  arrivals := fun _ => 0
  returns := fun _ => 0

def boot (num : Nat) (processFunction : Option (Int → World → World)) (world : World) :
    SynchSystem Thread (Vars Thread World) Pc Empty Unit Unit :=
  .boot (.new num processFunction world) (fun sem => sem.elim) fun _ => .outside

/-- No thread has returned from a call of a round for which some thread has not called. -/
def Separated (vars : Vars Thread World) : Prop :=
  ∀ thread other, vars.returns thread ≤ vars.calls other

instance [Fintype Thread] (vars : Vars Thread World) : Decidable (Separated vars) :=
  inferInstanceAs (Decidable (∀ thread other, vars.returns thread ≤ vars.calls other))

/-- The points where the lock is held. -/
def critical : Pc → Option Unit
  | .outside | .acquire | .returned => none
  | _ => some ()

section Invariant

variable [DecidableEq Thread] {rounds : Nat}

theorem labelled :
    (program rounds : FlowChart Thread (Vars Thread World) _ _ _ _ _ _).Labelled critical := by
  intro pc
  cases pc with
  | outside =>
      intro thread input vars result done
      dsimp only at done
      split at done <;> cases done <;> rfl
  | decrement | process | returned =>
      intro thread input vars result done
      cases done
      rfl
  | test =>
      intro thread input vars result done
      cases done
      dsimp only
      split <;> rfl
  | acquire | wait | broadcast | release => exact ⟨rfl, rfl⟩

/-- The thread is in a call. -/
def busy : Stage Pc → Nat
  | .active .outside => 0
  | _ => 1

/-- The thread is in a call and has not decremented `remaining`. -/
def early : Stage Pc → Nat
  | .active .acquire | .active .decrement => 1
  | _ => 0

/-- The thread has found that it need not wait. -/
def passed : Stage Pc → Bool
  | .active .process | .active .broadcast | .active .release | .active .returned => true
  | _ => false

/-- What the record says about one thread. -/
structure ThreadOk (rounds : Nat) (vars : Vars Thread World) (thread : Thread)
    (stage : Stage Pc) : Prop where
  calls_le : vars.calls thread ≤ rounds
  arrivals : vars.arrivals thread + early stage ≤ vars.calls thread
  returns : vars.returns thread + busy stage ≤ vars.calls thread
  passed : passed stage = true ∨ 0 < vars.returns thread → vars.barrier.remaining ≤ 0

omit [DecidableEq Thread] in
/-- A thread whose record is unchanged, and that was perhaps notified. -/
theorem ThreadOk.mono {vars changed : Vars Thread World} {thread : Thread} {stage next : Stage Pc}
    (ok : ThreadOk rounds vars thread stage)
    (calls : changed.calls thread = vars.calls thread)
    (arrivals : changed.arrivals thread = vars.arrivals thread)
    (returns : changed.returns thread = vars.returns thread)
    (remaining : changed.barrier.remaining ≤ vars.barrier.remaining)
    (stages : next = stage ∨ next = stage.wake) : ThreadOk rounds changed thread next := by
  have kinds : busy next = busy stage ∧ early next = early stage ∧
      Barrier.passed next = Barrier.passed stage := by
    rcases stages with rfl | rfl
    · exact ⟨rfl, rfl, rfl⟩
    · cases stage <;> exact ⟨rfl, rfl, rfl⟩
  refine ⟨?_, ?_, ?_, fun late => ?_⟩
  · rw [calls]
    exact ok.calls_le
  · rw [calls, arrivals, kinds.2.1]
    exact ok.arrivals
  · rw [calls, returns, kinds.1]
    exact ok.returns
  · rw [returns, kinds.2.2] at late
    have bound := ok.passed late
    omega

variable [Fintype Thread]

theorem sum_update_succ (numbers : Thread → Nat) (thread : Thread) :
    ∑ other, Function.update numbers thread (numbers thread + 1) other =
      ∑ other, numbers other + 1 := by
  have changed := Finset.sum_update_of_mem (Finset.mem_univ thread) numbers (numbers thread + 1)
  have same := Finset.sum_update_of_mem (Finset.mem_univ thread) numbers (numbers thread)
  rw [Function.update_eq_self] at same
  omega

/-- The barrier counts the arrivals, and the record of each thread is in order. -/
structure Invariant (rounds : Nat)
    (s : State Thread (Vars Thread World) Pc Empty Unit Unit) : Prop where
  remaining : s.vars.barrier.remaining =
    Fintype.card Thread - ((∑ thread, s.vars.arrivals thread : Nat) : Int)
  threads : ∀ thread, ThreadOk rounds s.vars thread (s.stage thread)

variable {s next : State Thread (Vars Thread World) Pc Empty Unit Unit}

/-- A thread goes on and changes its own record only. -/
theorem Invariant.move (invariant : Invariant rounds s) {thread : Thread} {target : Stage Pc}
    {changed : Vars Thread World}
    (remaining : changed.barrier.remaining =
      Fintype.card Thread - ((∑ thread, changed.arrivals thread : Nat) : Int))
    (down : changed.barrier.remaining ≤ s.vars.barrier.remaining)
    (others : ∀ other, other ≠ thread → changed.calls other = s.vars.calls other ∧
      changed.arrivals other = s.vars.arrivals other ∧
      changed.returns other = s.vars.returns other)
    (ok : ThreadOk rounds changed thread target) :
    Invariant rounds
      { s with vars := changed, stage := Function.update s.stage thread target } where
  remaining := remaining
  threads other := by
    by_cases same : other = thread
    · subst same
      simpa using ok
    · obtain ⟨calls, arrivals, returns⟩ := others other same
      refine (invariant.threads other).mono calls arrivals returns down (Or.inl ?_)
      exact Function.update_of_ne same _ _

/-- A thread goes on without changing anything. -/
theorem Invariant.goto (invariant : Invariant rounds s) {thread : Thread}
    {source target : Stage Pc} (here : s.stage thread = source)
    (busySame : busy target = busy source) (earlySame : early target = early source)
    (late : passed target = true →
      passed source = true ∨ s.vars.barrier.remaining ≤ 0) :
    Invariant rounds { s with stage := Function.update s.stage thread target } := by
  have ok := invariant.threads thread
  rw [here] at ok
  obtain ⟨calls_le, arrivals, returns, passes⟩ := ok
  refine invariant.move invariant.remaining (le_refl _) (fun _ _ => ⟨rfl, rfl, rfl⟩)
    ⟨calls_le, by rwa [earlySame], by rwa [busySame], fun after => ?_⟩
  rcases after with after | after
  · rcases late after with before | done
    · exact passes (Or.inl before)
    · exact done
  · exact passes (Or.inr after)

theorem Invariant.run (invariant : Invariant rounds s) {thread : Thread} {pc target : Pc}
    {input : Unit} {changed : Vars Thread World}
    {body : Thread → Unit → Vars Thread World → Except Fault (Vars Thread World × Pc)}
    (here : s.stage thread = .active pc) (isRun : code rounds pc = .run body)
    (done : body thread input s.vars = .ok (changed, target)) :
    Invariant rounds
      { s with vars := changed, stage := Function.update s.stage thread (.active target) } := by
  have ok := invariant.threads thread
  rw [here] at ok
  obtain ⟨calls_le, arrivals, returns, passes⟩ := ok
  cases pc with
  | outside =>
      cases isRun
      dsimp only at done
      split at done
      next more =>
        cases done
        simp only [early, busy, Nat.add_zero] at arrivals returns
        refine invariant.move invariant.remaining (le_refl _) (fun other different => ?_)
          ⟨?_, ?_, ?_, fun late => ?_⟩
        · exact ⟨Function.update_of_ne different _ _, rfl, rfl⟩
        · simpa using Nat.succ_le_of_lt more
        · simpa [early] using arrivals
        · simpa [busy] using returns
        · exact passes (Or.inr (late.resolve_left nofun))
      next =>
        cases done
        exact invariant.goto here rfl rfl Or.inl
  | decrement =>
      cases isRun
      cases done
      simp only [early, busy] at arrivals returns
      refine invariant.move ?_ (Int.sub_le_self _ (by decide)) (fun other different => ?_)
        ⟨calls_le, ?_, returns, fun late => ?_⟩
      · dsimp only
        rw [invariant.remaining, sum_update_succ]
        omega
      · exact ⟨rfl, Function.update_of_ne different _ _, rfl⟩
      · simpa [early] using arrivals
      · have bound := passes (Or.inr (late.resolve_left nofun))
        dsimp only
        omega
  | test =>
      cases isRun
      cases done
      split
      · exact invariant.goto here rfl rfl nofun
      · next stop =>
        exact invariant.goto here rfl rfl fun _ => Or.inr (by omega)
  | process =>
      cases isRun
      cases done
      exact invariant.move invariant.remaining (le_refl _) (fun _ _ => ⟨rfl, rfl, rfl⟩)
        ⟨calls_le, arrivals, returns, fun _ => passes (Or.inl rfl)⟩
  | returned =>
      cases isRun
      cases done
      simp only [early, busy, Nat.add_zero] at arrivals returns
      refine invariant.move invariant.remaining (le_refl _) (fun other different => ?_)
        ⟨calls_le, arrivals, ?_, fun _ => passes (Or.inl rfl)⟩
      · exact ⟨rfl, rfl, Function.update_of_ne different _ _⟩
      · simpa [busy] using returns
  | acquire | wait | broadcast | release => cases isRun

theorem Invariant.step (invariant : Invariant rounds s) (step : Step (program rounds) s next) :
    Invariant rounds next := by
  cases step with
  | run here isRun done => exact invariant.run here isRun done
  | @p thread pc sem => exact sem.elim
  | @v thread pc sem => exact sem.elim
  | @acquire thread pc lock target here isAcquire free =>
      have moved : Invariant rounds
          { s with stage := Function.update s.stage thread (.active target) } := by
        cases pc <;> cases isAcquire
        exact invariant.goto here rfl rfl nofun
      exact ⟨moved.remaining, moved.threads⟩
  | @release thread pc lock target here isRelease held =>
      have moved : Invariant rounds
          { s with stage := Function.update s.stage thread (.active target) } := by
        cases pc <;> cases isRelease
        exact invariant.goto here rfl rfl fun _ => Or.inl rfl
      exact ⟨moved.remaining, moved.threads⟩
  | @wait thread pc cond target here isWait held =>
      have moved : Invariant rounds
          { s with stage := Function.update s.stage thread (.waiting pc) } := by
        cases pc <;> cases isWait
        exact invariant.goto here rfl rfl nofun
      exact ⟨moved.remaining, moved.threads⟩
  | @resume thread pc cond target here isWait free =>
      have moved : Invariant rounds
          { s with stage := Function.update s.stage thread (.active target) } := by
        cases pc <;> cases isWait
        exact invariant.goto here rfl rfl nofun
      exact ⟨moved.remaining, moved.threads⟩
  | @signal thread pc cond target here isSignal held => cases pc <;> cases isSignal
  | @broadcast thread pc cond target here isBroadcast held =>
      have woken : Invariant rounds { s with stage := wakeAll (s.queue cond) s.stage } := by
        refine ⟨invariant.remaining, fun other => ?_⟩
        apply (invariant.threads other).mono rfl rfl rfl (le_refl _)
        dsimp only [wakeAll]
        split
        · exact Or.inr rfl
        · exact Or.inl rfl
      have stays : wakeAll (s.queue cond) s.stage thread = .active pc := by
        unfold wakeAll
        split <;> simp [here]
      have moved : Invariant rounds { s with
          stage := Function.update (wakeAll (s.queue cond) s.stage) thread
            (.active target) } := by
        cases pc <;> cases isBroadcast
        exact woken.goto stays rfl rfl fun _ => Or.inl rfl
      exact ⟨moved.remaining, moved.threads⟩
  | interrupt pending => cases pending

end Invariant

section OneRound

variable [DecidableEq Thread] [Fintype Thread] {rounds : Nat}

omit [DecidableEq Thread] in
theorem Invariant.start (rounds : Nat) (processFunction : Option (Int → World → World))
    (world : World) :
    Invariant rounds (State.start (Vars.new (Fintype.card Thread) processFunction world)
      (fun sem => sem.elim) fun _ : Thread => .outside) where
  remaining := by
    simp [State.start, Vars.new, setBarrierNum]
  threads thread := by
    constructor <;> simp [State.start, Vars.new, early, busy, passed]

omit [DecidableEq Thread] in
/-- In the only round the count is used up when everybody has arrived. -/
theorem Invariant.arrived {s : State Thread (Vars Thread World) Pc Empty Unit Unit}
    (invariant : Invariant rounds s) (once : rounds ≤ 1)
    (last : s.vars.barrier.remaining ≤ 0) (thread : Thread) : 1 ≤ s.vars.arrivals thread := by
  by_contra missing
  have remaining := invariant.remaining
  have fewer : ∑ thread, s.vars.arrivals thread < ∑ _thread : Thread, 1 := by
    apply Finset.sum_lt_sum
    · intro member _
      have bound := (invariant.threads member).arrivals
      have calls := (invariant.threads member).calls_le
      omega
    · exact ⟨thread, Finset.mem_univ thread, by omega⟩
  rw [← Finset.card_eq_sum_ones, Finset.card_univ] at fewer
  omega

omit [DecidableEq Thread] in
/-- In the only round nobody leaves before everybody has arrived. -/
theorem Invariant.separated {s : State Thread (Vars Thread World) Pc Empty Unit Unit}
    (invariant : Invariant rounds s) (once : rounds ≤ 1) : Separated s.vars := by
  intro thread other
  by_contra early
  have left := invariant.threads thread
  have passed := left.passed (Or.inr (by omega))
  have arrived := invariant.arrived once passed other
  have bound := (invariant.threads other).arrivals
  have calls := left.calls_le
  have returns := left.returns
  omega

omit [DecidableEq Thread] in
theorem Invariant.separated_of_subsingleton [Subsingleton Thread]
    {s : State Thread (Vars Thread World) Pc Empty Unit Unit} (invariant : Invariant rounds s) :
    Separated s.vars := by
  intro thread other
  have returns := (invariant.threads thread).returns
  rw [Subsingleton.elim other thread]
  omega

end OneRound

section TwoRounds

variable {n rounds : Nat} {initial s : State (Fin n) (Vars (Fin n) World) Pc Empty Unit Unit}

/-- The barrier after a thread has called and has decremented `remaining`. -/
def Vars.arrive (vars : Vars (Fin n) World) (thread : Fin n) : Vars (Fin n) World :=
  { vars with
    barrier := { vars.barrier with remaining := vars.barrier.remaining - 1 }
    calls := Function.update vars.calls thread (vars.calls thread + 1)
    arrivals := Function.update vars.arrivals thread (vars.arrivals thread + 1) }

/-- The barrier after a thread has left. -/
def Vars.leave (vars : Vars (Fin n) World) (thread : Fin n) : Vars (Fin n) World :=
  { vars.process with
    returns := Function.update vars.returns thread (vars.returns thread + 1) }

theorem reachable_run (reached : Reachable (program rounds) initial s) {thread : Fin n}
    {pc target : Pc} {changed : Vars (Fin n) World}
    {body : Fin n → Unit → Vars (Fin n) World → Except Fault (Vars (Fin n) World × Pc)}
    (here : s.stage thread = .active pc) (isRun : code rounds pc = .run body)
    (done : body thread () s.vars = .ok (changed, target)) :
    Reachable (program rounds) initial
      { s with vars := changed, stage := Function.update s.stage thread (.active target) } :=
  reached.step (.run here isRun done)

/-- A thread can call `enterBarrier` and get to its loop. -/
theorem reachable_arrive (reached : Reachable (program rounds) initial s) {thread : Fin n}
    (here : s.stage thread = .active .outside) (more : s.vars.calls thread < rounds)
    (free : s.holder () = none) :
    ∃ next, Reachable (program rounds) initial next ∧ next.vars = s.vars.arrive thread ∧
      next.holder () = some thread ∧
      next.stage = Function.update s.stage thread (.active .test) := by
  have called := reachable_run reached here rfl (if_pos more)
  have acquired := called.step (.acquire (Function.update_self ..) rfl free)
  have arrived := reachable_run acquired (Function.update_self ..) rfl rfl
  exact ⟨_, arrived, rfl, by simp, by simp⟩

/-- If it is not the last one, it can wait. -/
theorem reachable_wait (reached : Reachable (program rounds) initial s) {thread : Fin n}
    (here : s.stage thread = .active .test) (others : s.vars.barrier.remaining > 0)
    (held : s.holder () = some thread) :
    ∃ next, Reachable (program rounds) initial next ∧ next.vars = s.vars ∧
      next.holder () = none ∧
      next.stage = Function.update s.stage thread (.waiting .wait) := by
  have tested := reachable_run reached here rfl rfl
  rw [if_pos others] at tested
  have waits := tested.step (.wait (Function.update_self ..) rfl held)
  exact ⟨_, waits, rfl, by simp [program], by simp⟩

/-- If `remaining` is used up, it can leave. -/
theorem reachable_leave (reached : Reachable (program rounds) initial s) {thread : Fin n}
    (here : s.stage thread = .active .test) (done : ¬ s.vars.barrier.remaining > 0)
    (held : s.holder () = some thread) :
    ∃ next, Reachable (program rounds) initial next ∧ next.vars = s.vars.leave thread ∧
      next.holder () = none ∧ next.stage thread = .active .outside := by
  have tested := reachable_run reached here rfl rfl
  rw [if_neg done] at tested
  have processed := reachable_run tested (Function.update_self ..) rfl rfl
  have notified := processed.step (.broadcast (Function.update_self ..) rfl held)
  have released := notified.step (.release (Function.update_self ..) rfl held)
  have returned := reachable_run released (Function.update_self ..) rfl rfl
  exact ⟨_, returned, rfl, by simp, by simp⟩

/-- The threads before the given one wait, the others have not called. -/
structure Gathered (count : Nat) (s : State (Fin n) (Vars (Fin n) World) Pc Empty Unit Unit) :
    Prop where
  free : s.holder () = none
  remaining : s.vars.barrier.remaining = n - count
  calls : ∀ thread, s.vars.calls thread = if thread.val < count then 1 else 0
  returns : ∀ thread, s.vars.returns thread = 0
  outside : ∀ thread, count ≤ thread.val → s.stage thread = .active .outside

/-- All threads but one can wait at once. -/
theorem reachable_gathered (processFunction : Option (Int → World → World)) (world : World)
    (once : 1 ≤ rounds) (count : Nat) (few : count < n) :
    ∃ s, Reachable (program rounds) (State.start (Vars.new n processFunction world)
      (fun sem => sem.elim) fun _ : Fin n => .outside) s ∧
      Gathered count s := by
  induction count with
  | zero =>
      refine ⟨_, .start, rfl, ?_, fun _ => rfl, fun _ => rfl, fun _ _ => rfl⟩
      simp [State.start, Vars.new, setBarrierNum]
  | succ count ih =>
      obtain ⟨s, reached, free, remaining, calls, returns, outside⟩ := ih (by omega)
      let thread : Fin n := ⟨count, by omega⟩
      obtain ⟨middle, entered, vars, held, stage⟩ :=
        reachable_arrive reached (outside thread (le_refl _)) (by simp [calls, thread]; omega)
          free
      have down : middle.vars.barrier.remaining = n - ((count + 1 : Nat) : Int) := by
        rw [vars]
        simp only [Vars.arrive, remaining]
        omega
      obtain ⟨next, waits, sameVars, nowFree, nextStage⟩ :=
        reachable_wait entered (by rw [stage, Function.update_self]) (by omega) held
      refine ⟨next, waits, nowFree, by rw [sameVars, down], fun other => ?_, fun other => ?_,
        fun other later => ?_⟩
      · rw [sameVars, vars]
        by_cases same : other = thread
        · subst same
          simp [Vars.arrive, calls, thread]
        · have different : other.val ≠ count := fun equal => same (Fin.ext equal)
          simp only [Vars.arrive, Function.update_of_ne same, calls]
          split_ifs <;> omega
      · rw [sameVars, vars]
        exact returns other
      · have different : other ≠ thread := fun equal => by
          rw [equal] at later
          exact absurd later (by simp [thread])
        rw [nextStage, Function.update_of_ne different, stage, Function.update_of_ne different]
        exact outside other (by omega)

/-- A thread that uses up `remaining`, or finds it used up, can go through a whole call. -/
theorem reachable_lap (reached : Reachable (program rounds) initial s) {thread : Fin n}
    (here : s.stage thread = .active .outside) (more : s.vars.calls thread < rounds)
    (last : s.vars.barrier.remaining ≤ 1) (free : s.holder () = none) :
    ∃ next, Reachable (program rounds) initial next ∧
      next.vars = (s.vars.arrive thread).leave thread ∧ next.holder () = none ∧
      next.stage thread = .active .outside := by
  obtain ⟨middle, entered, vars, held, stage⟩ := reachable_arrive reached here more free
  have done : ¬ middle.vars.barrier.remaining > 0 := by
    rw [vars]
    simp only [Vars.arrive]
    omega
  rw [← vars]
  exact reachable_leave entered (by rw [stage, Function.update_self]) done held

/-- The last thread to arrive can go through two rounds. -/
theorem reachable_not_separated (processFunction : Option (Int → World → World))
    (world : World) (threads : 2 ≤ n) (twice : 2 ≤ rounds) :
    ∃ s, Reachable (program rounds) (State.start (Vars.new n processFunction world)
      (fun sem => sem.elim) fun _ : Fin n => .outside) s ∧
      ¬ Separated s.vars := by
  obtain ⟨s, reached, free, remaining, calls, returns, outside⟩ :=
    reachable_gathered (n := n) processFunction world (by omega : 1 ≤ rounds) (n - 1)
      (by omega)
  let last : Fin n := ⟨n - 1, by omega⟩
  let first : Fin n := ⟨0, by omega⟩
  have different : first ≠ last := fun equal => by
    have values := congrArg Fin.val equal
    simp only [first, last] at values
    omega
  have fresh : s.vars.calls last = 0 := by
    rw [calls, if_neg (lt_irrefl _)]
  obtain ⟨middle, lap, middleVars, middleFree, middleHere⟩ :=
    reachable_lap reached (outside last (le_refl _)) (by omega) (by omega) free
  have once : middle.vars.calls last = 1 := by
    rw [middleVars]
    simp [Vars.leave, Vars.process, Vars.arrive, fresh]
  have used : middle.vars.barrier.remaining ≤ 1 := by
    rw [middleVars]
    simp only [Vars.leave, Vars.process, Vars.arrive]
    omega
  obtain ⟨final, secondLap, finalVars, -, -⟩ :=
    reachable_lap lap middleHere (by omega) used middleFree
  refine ⟨final, secondLap, fun separated => ?_⟩
  have bound := separated last first
  have waits : s.vars.calls first = 1 := by
    rw [calls, if_pos]
    change 0 < n - 1
    omega
  rw [finalVars, middleVars] at bound
  simp [Vars.leave, Vars.process, Vars.arrive, Function.update_of_ne different, waits,
    returns] at bound

/-- A barrier that is set up once separates the rounds of its threads, in every run,
exactly if there is at most one thread or at most one round. -/
theorem separates_rounds_iff (n rounds : Nat)
    (processFunction : Option (Int → World → World)) (world : World) :
    (∀ actions, AlongRun (SynchSystem.step (program rounds)) (fun s => Separated s.vars)
      (boot n processFunction world :
        SynchSystem (Fin n) (Vars (Fin n) World) Pc Empty Unit Unit) actions) ↔
      n ≤ 1 ∨ rounds ≤ 1 := by
  constructor
  · intro separated
    by_contra many
    obtain ⟨s, reached, broken⟩ := reachable_not_separated processFunction world
      (by omega : 2 ≤ n) (by omega : 2 ≤ rounds)
    obtain ⟨actions, final, done, equal, -, -⟩ := SynchSystem.exists_run_of_reachable
      (fun pc sem => sem.elim) (fun _ _ => rfl) reached
    have along := alongRun_last (separated actions) done
    rw [← equal] at broken
    exact broken along
  · intro few actions
    have start := @Invariant.start (Fin n) World _ rounds processFunction world
    rw [Fintype.card_fin] at start
    refine (SynchSystem.alongRun_of_monitor labelled (fun _ => rfl) start
      (fun _ _ _ _ invariant step => invariant.step step) actions).mono ?_
    rintro s ⟨-, -, invariant⟩
    rcases few with threads | once
    · have alone : Subsingleton (Fin n) := Fin.subsingleton_iff_le_one.mpr threads
      exact invariant.separated_of_subsingleton
    · exact invariant.separated once

/-- Two threads, two rounds: while the first thread still is in its first call, the
second one has left its second. -/
theorem second_round_not_separated :
    ¬ AlongRun (SynchSystem.step (program 2)) (fun s => Separated s.vars)
      (boot 2 none () : SynchSystem (Fin 2) (Vars (Fin 2) Unit) Pc Empty Unit Unit)
      ((List.replicate 5 (0 : Fin 2) ++ List.replicate 16 1).map
        fun thread => .thread thread ()) := by
  decide +kernel

end TwoRounds

end Barrier

end Nachos
