import Nachos.Barrier
import Nachos.SynchProgress

/-!
# One round of the barrier

Every thread that gets out of the loop in `enterBarrier` runs the rest of it: the call of
the process function if there still is one, the `Broadcast` and the `Release`.  The first
one to do so finds that all threads have arrived, calls the function and resets it, and
no thread has left before.  From the last arrival on, as long as some thread waits, the
thread that holds the lock is on its way to a `Broadcast`.
-/

namespace Nachos

open MesaMonitor TransitionRuns

namespace Barrier

variable {Thread World : Type}

/-- The thread is behind the call of the process function. -/
def processed : Stage Pc → Bool
  | .active .broadcast | .active .release | .active .returned => true
  | _ => false

/-- Unless it has to wait, the thread is on its way to the `Broadcast`. -/
def notifies : Stage Pc → Bool
  | .active .test | .active .process | .active .broadcast => true
  | _ => false

/-- The record of a thread fits the place where it is. -/
structure Recorded (vars : Vars Thread World) (thread : Thread) (stage : Stage Pc) :
    Prop where
  arrivals : vars.arrivals thread + early stage = vars.calls thread
  returns : vars.returns thread + busy stage = vars.calls thread

/-- The process function has not been called. -/
structure Uncalled (p : Int → World → World) (world : World) (vars : Vars Thread World)
    (stage : Thread → Stage Pc) : Prop where
  function : vars.barrier.processFunction = some p
  world : vars.world = world
  returns : ∀ thread, vars.returns thread = 0
  unprocessed : ∀ thread, processed (stage thread) = false

/-- The process function has been called, after the last arrival. -/
structure Called (p : Int → World → World) (world : World) (vars : Vars Thread World) :
    Prop where
  function : vars.barrier.processFunction = none
  world : vars.world = p (-1) world
  remaining : vars.barrier.remaining ≤ 0

/-- Some thread will notify those that wait. -/
def WillNotify (stage : Thread → Stage Pc) : Prop :=
  ∀ waiter pc, stage waiter = .waiting pc → ∃ thread, notifies (stage thread) = true

/-- What holds of the barrier and of the places of the threads in the first round. -/
structure Round (p : Int → World → World) (world : World) (vars : Vars Thread World)
    (stage : Thread → Stage Pc) : Prop where
  recorded : ∀ thread, Recorded vars thread (stage thread)
  function : Uncalled p world vars stage ∨ Called p world vars
  waits : ∀ thread, stage thread = .active .wait → 0 < vars.barrier.remaining
  notified : vars.barrier.remaining ≤ 0 → WillNotify stage

theorem Round.start (num : Nat) (p : Int → World → World) (world : World) :
    Round p world (Vars.new num (some p) world : Vars Thread World)
      fun _ => .active .outside where
  recorded _ := ⟨rfl, rfl⟩
  function := Or.inl ⟨rfl, rfl, fun _ => rfl, fun _ => rfl⟩
  waits := nofun
  notified _ := nofun

section Moves

variable [DecidableEq Thread] {p : Int → World → World} {world : World}
  {vars changed : Vars Thread World} {stage : Thread → Stage Pc} {thread : Thread}
  {target : Stage Pc}

/-- A thread that does not start to wait goes on, and is not kept from notifying. -/
theorem WillNotify.update (willNotify : WillNotify stage) (awake : ∀ pc, target ≠ .waiting pc)
    (onItsWay : notifies (stage thread) = true → notifies target = true) :
    WillNotify (Function.update stage thread target) := by
  intro waiter pc waits
  by_cases moved : waiter = thread
  · subst moved
    rw [Function.update_self] at waits
    exact absurd waits (awake pc)
  · rw [Function.update_of_ne moved] at waits
    obtain ⟨other, notifying⟩ := willNotify waiter pc waits
    by_cases same : other = thread
    · subst same
      exact ⟨other, by rw [Function.update_self]; exact onItsWay notifying⟩
    · exact ⟨other, by rwa [Function.update_of_ne same]⟩

/-- What holds when some thread waits, after a move of one thread. -/
theorem forall_waits_update {condition : Prop} (moved : target = .active .wait → condition)
    (others : ∀ other, other ≠ thread → stage other = .active .wait → condition) :
    ∀ other, Function.update stage thread target other = .active .wait → condition :=
  (Function.forall_update_iff stage fun _ place => place = .active .wait → condition).mpr
    ⟨moved, others⟩

/-- A thread goes on without touching the barrier. -/
theorem Round.advance (round : Round p world vars stage) (barrier : changed.barrier = vars.barrier)
    (sameWorld : changed.world = vars.world)
    (others : ∀ other, other ≠ thread → changed.calls other = vars.calls other ∧
      changed.arrivals other = vars.arrivals other ∧ changed.returns other = vars.returns other)
    (recorded : Recorded changed thread target)
    (unprocessed : processed (stage thread) = false →
      changed.returns = vars.returns ∧ processed target = false)
    (waits : target = .active .wait → 0 < vars.barrier.remaining)
    (notified : vars.barrier.remaining ≤ 0 → WillNotify (Function.update stage thread target)) :
    Round p world changed (Function.update stage thread target) where
  recorded other := by
    by_cases same : other = thread
    · subst same
      rwa [Function.update_self]
    · obtain ⟨calls, arrivals, returns⟩ := others other same
      have before := round.recorded other
      rw [Function.update_of_ne same]
      constructor
      · rw [calls, arrivals]
        exact before.arrivals
      · rw [calls, returns]
        exact before.returns
  function := by
    rcases round.function with uncalled | called
    · obtain ⟨returns, still⟩ := unprocessed (uncalled.unprocessed thread)
      left
      constructor
      · rw [barrier]
        exact uncalled.function
      · rw [sameWorld]
        exact uncalled.world
      · rw [returns]
        exact uncalled.returns
      · exact (Function.forall_update_iff stage fun _ place => processed place = false).mpr
          ⟨still, fun other _ => uncalled.unprocessed other⟩
    · right
      constructor
      · rw [barrier]
        exact called.function
      · rw [sameWorld]
        exact called.world
      · rw [barrier]
        exact called.remaining
  waits := by
    rw [barrier]
    exact forall_waits_update waits fun other _ => round.waits other
  notified done := by
    rw [barrier] at done
    exact notified done

/-- A thread goes on without changing anything. -/
theorem Round.goto (round : Round p world vars stage) {source : Stage Pc}
    (here : stage thread = source) (busySame : busy target = busy source)
    (earlySame : early target = early source)
    (unprocessed : processed source = false → processed target = false)
    (waits : target = .active .wait → 0 < vars.barrier.remaining)
    (notified : vars.barrier.remaining ≤ 0 →
      (∀ pc, target ≠ .waiting pc) ∧ (notifies source = true → notifies target = true)) :
    Round p world vars (Function.update stage thread target) := by
  have recorded := round.recorded thread
  rw [here] at recorded
  apply round.advance rfl rfl fun _ _ => ⟨rfl, rfl, rfl⟩
  · constructor
    · rw [earlySame]
      exact recorded.arrivals
    · rw [busySame]
      exact recorded.returns
  · rw [here]
    exact fun before => ⟨rfl, unprocessed before⟩
  · exact waits
  · intro done
    obtain ⟨awake, onItsWay⟩ := notified done
    exact (round.notified done).update awake (by rwa [here])

/-- The next thread arrives. -/
theorem Round.arrive (round : Round p world vars stage)
    (here : stage thread = .active .decrement)
    (alone : ∀ other, stage other ≠ .active .wait) :
    Round p world { vars with
        barrier := { vars.barrier with remaining := vars.barrier.remaining - 1 }
        arrivals := Function.update vars.arrivals thread (vars.arrivals thread + 1) }
      (Function.update stage thread (.active .test)) where
  recorded other := by
    have before := round.recorded other
    by_cases same : other = thread
    · subst same
      rw [here] at before
      obtain ⟨arrivals, returns⟩ := before
      rw [Function.update_self]
      constructor
      · simpa [early] using arrivals
      · exact returns
    · rw [Function.update_of_ne same]
      constructor
      · simpa [Function.update_of_ne same] using before.arrivals
      · exact before.returns
  function := by
    rcases round.function with uncalled | called
    · left
      refine ⟨uncalled.function, uncalled.world, uncalled.returns, ?_⟩
      exact (Function.forall_update_iff stage fun _ place => processed place = false).mpr
        ⟨rfl, fun other _ => uncalled.unprocessed other⟩
    · right
      refine ⟨called.function, called.world, ?_⟩
      have before := called.remaining
      dsimp only
      omega
  waits := forall_waits_update nofun fun other _ isWait => absurd isWait (alone other)
  notified _ := fun _ _ _ => ⟨thread, by rw [Function.update_self]; rfl⟩

/-- The process function is called if that has not been done. -/
theorem Round.process (round : Round p world vars stage) (here : stage thread = .active .process)
    (last : vars.barrier.remaining ≤ 0) :
    Round p world vars.process (Function.update stage thread (.active .broadcast)) where
  recorded other := by
    have before := round.recorded other
    by_cases same : other = thread
    · subst same
      rw [here] at before
      rw [Function.update_self]
      exact ⟨before.arrivals, before.returns⟩
    · rw [Function.update_of_ne same]
      exact ⟨before.arrivals, before.returns⟩
  function := by
    right
    rcases round.function with uncalled | called
    · exact ⟨rfl, by simp [Vars.process, uncalled.function, uncalled.world], last⟩
    · exact ⟨rfl, by simp [Vars.process, called.function, called.world], last⟩
  waits := forall_waits_update nofun fun other _ => round.waits other
  notified _ := fun _ _ _ => ⟨thread, by rw [Function.update_self]; rfl⟩

/-- The notified threads are where they were. -/
theorem Round.wake (round : Round p world vars stage) (woken : List Thread) :
    Round p world vars (wakeAll woken stage) := by
  have same : ∀ other, busy (wakeAll woken stage other) = busy (stage other) ∧
      early (wakeAll woken stage other) = early (stage other) ∧
      processed (wakeAll woken stage other) = processed (stage other) ∧
      notifies (wakeAll woken stage other) = notifies (stage other) := by
    intro other
    unfold wakeAll
    split
    · cases stage other <;> exact ⟨rfl, rfl, rfl, rfl⟩
    · exact ⟨rfl, rfl, rfl, rfl⟩
  constructor
  · intro other
    obtain ⟨arrivals, returns⟩ := round.recorded other
    constructor
    · rw [(same other).2.1]
      exact arrivals
    · rw [(same other).1]
      exact returns
  · apply round.function.imp_left
    intro uncalled
    refine ⟨uncalled.function, uncalled.world, uncalled.returns, ?_⟩
    intro other
    rw [(same other).2.2.1]
    exact uncalled.unprocessed other
  · intro other here
    apply round.waits other
    unfold wakeAll at here
    split at here
    · cases place : stage other <;> simp [place] at here
      rw [here]
    · exact here
  · intro done waiter pc here
    unfold wakeAll at here
    split at here
    · exact absurd here wake_eq_waiting
    · obtain ⟨other, notifying⟩ := round.notified done waiter pc here
      exact ⟨other, by rwa [(same other).2.2.2]⟩

end Moves

section Steps

variable [DecidableEq Thread] [Fintype Thread] {rounds : Nat} {p : Int → World → World}
  {world : World} {s next : State Thread (Vars Thread World) Pc Empty Unit Unit}

theorem Round.run (round : Round p world s.vars s.stage) (invariant : Invariant rounds s)
    (exclusive : Exclusive critical s) {thread : Thread} {pc target : Pc} {input : Unit}
    {changed : Vars Thread World}
    {body : Thread → Unit → Vars Thread World → Except Fault (Vars Thread World × Pc)}
    (here : s.stage thread = .active pc) (isRun : code rounds pc = .run body)
    (done : body thread input s.vars = .ok (changed, target)) :
    Round p world changed (Function.update s.stage thread (.active target)) := by
  have recorded := round.recorded thread
  rw [here] at recorded
  cases pc with
  | outside =>
      cases isRun
      dsimp only at done
      split at done
      next more =>
        cases done
        apply round.advance
        · rfl
        · rfl
        · exact fun other different => ⟨Function.update_of_ne different _ _, rfl, rfl⟩
        · constructor
          · simpa [early] using recorded.arrivals
          · simpa [busy] using recorded.returns
        · exact fun _ => ⟨rfl, rfl⟩
        · intro isWait
          cases isWait
        · intro last
          apply (round.notified last).update
          · intro pc isWaiting
            cases isWaiting
          · rw [here]
            intro notifying
            cases notifying
      next =>
        cases done
        refine round.goto here rfl rfl id ?_ fun _ => ⟨?_, ?_⟩
        · intro isWait
          cases isWait
        · intro pc isWaiting
          cases isWaiting
        · intro notifying
          cases notifying
  | decrement =>
      cases isRun
      cases done
      apply round.arrive here
      intro other isWait
      have within : inside critical (s.stage thread) = some () := by rw [here]; rfl
      have alsoWithin : inside critical (s.stage other) = some () := by rw [isWait]; rfl
      rw [exclusive.eq_of_inside alsoWithin within, here] at isWait
      cases isWait
  | test =>
      cases isRun
      cases done
      split
      · next more =>
        exact round.goto here rfl rfl (fun _ => rfl) (fun _ => more) fun last => by omega
      · refine round.goto here rfl rfl (fun _ => rfl) ?_ fun _ => ⟨?_, fun _ => rfl⟩
        · intro isWait
          cases isWait
        · intro pc isWaiting
          cases isWaiting
  | process =>
      cases isRun
      cases done
      apply round.process here
      apply (invariant.threads thread).passed
      rw [here]
      exact Or.inl rfl
  | returned =>
      cases isRun
      cases done
      apply round.advance
      · rfl
      · rfl
      · exact fun other different => ⟨rfl, rfl, Function.update_of_ne different _ _⟩
      · constructor
        · exact recorded.arrivals
        · simpa [busy] using recorded.returns
      · rw [here]
        intro unprocessed
        cases unprocessed
      · intro isWait
        cases isWait
      · intro last
        apply (round.notified last).update
        · intro pc isWaiting
          cases isWaiting
        · rw [here]
          intro notifying
          cases notifying
  | acquire | wait | broadcast | release => cases isRun

theorem Round.step (round : Round p world s.vars s.stage) (invariant : Invariant rounds s)
    (exclusive : Exclusive critical s) (queued : Queued (program rounds) s)
    (step : Step (program rounds) s next) : Round p world next.vars next.stage := by
  cases step with
  | run here isRun done => exact round.run invariant exclusive here isRun done
  | @p thread pc sem => exact sem.elim
  | @v thread pc sem => exact sem.elim
  | @acquire thread pc lock target here isAcquire free =>
      cases pc <;> cases isAcquire
      exact round.goto here rfl rfl (fun _ => rfl) nofun fun _ => ⟨nofun, nofun⟩
  | @release thread pc lock target here isRelease held =>
      cases pc <;> cases isRelease
      exact round.goto here rfl rfl nofun nofun fun _ => ⟨nofun, nofun⟩
  | @wait thread pc cond target here isWait held =>
      cases pc <;> cases isWait
      have more := round.waits thread here
      exact round.goto here rfl rfl (fun _ => rfl) nofun fun last => by omega
  | @resume thread pc cond target here isWait free =>
      cases pc <;> cases isWait
      exact round.goto here rfl rfl (fun _ => rfl) nofun fun _ => ⟨nofun, nofun⟩
  | @signal thread pc cond target here isSignal held => cases pc <;> cases isSignal
  | @broadcast thread pc cond target here isBroadcast held =>
      cases pc <;> cases isBroadcast
      have stays : wakeAll (s.queue ()) s.stage thread = .active .broadcast := by
        unfold wakeAll
        split <;> simp [here]
      -- After the notification nobody waits.
      have noneWaits : ∀ waiter place, wakeAll (s.queue ()) s.stage waiter ≠ .waiting place := by
        intro waiter place waits
        unfold wakeAll at waits
        split at waits
        · exact wake_eq_waiting waits
        · next absent =>
          obtain ⟨cond, target, code⟩ := queued.atWait waiter place (Or.inl waits)
          exact absent ((queued.mem_iff () waiter).mpr ⟨place, target, waits, code⟩)
      have recorded := (round.wake (s.queue ())).recorded thread
      rw [stays] at recorded
      apply (round.wake (s.queue ())).advance rfl rfl fun _ _ => ⟨rfl, rfl, rfl⟩
      · exact ⟨recorded.arrivals, recorded.returns⟩
      · rw [stays]
        exact nofun
      · exact nofun
      · intro last waiter place waits
        by_cases same : waiter = thread
        · subst same
          rw [Function.update_self] at waits
          cases waits
        · rw [Function.update_of_ne same] at waits
          exact absurd waits (noneWaits waiter place)
  | interrupt pending => cases pending

end Steps

section Runs

/-- When all threads have arrived the count is used up. -/
theorem Invariant.remaining_eq_zero [Fintype Thread]
    {s : State Thread (Vars Thread World) Pc Empty Unit Unit} (invariant : Invariant 1 s)
    (arrived : ∀ thread, s.vars.arrivals thread = 1) : s.vars.barrier.remaining = 0 := by
  have remaining := invariant.remaining
  have total : ∑ thread, s.vars.arrivals thread = Fintype.card Thread := by
    rw [Finset.sum_congr rfl fun thread _ => arrived thread, ← Finset.card_eq_sum_ones,
      Finset.card_univ]
  omega

variable [DecidableEq Thread]

theorem locksOnly (rounds : Nat) : SynchSystem.LocksOnly
    (program rounds : FlowChart Thread (Vars Thread World) _ _ _ _ _ _) where
  noP pc sem := sem.elim
  noV pc sem := sem.elim
  runs pc body thread input vars isRun := by
    cases pc with
    | outside =>
        cases isRun
        dsimp only
        split <;> exact ⟨_, rfl⟩
    | decrement | test | process | returned =>
        cases isRun
        exact ⟨_, rfl⟩
    | acquire | wait | broadcast | release => cases isRun

/-- The thread has made all its calls and has returned from the last. -/
def Ended (rounds : Nat) (s : SynchSystem Thread (Vars Thread World) Pc Empty Unit Unit)
    (thread : Thread) : Prop :=
  s.threads thread = ⟨.outside, .call⟩ ∧ s.vars.calls thread = rounds

/-- Only threads that have ended can still be dispatched. -/
def Stalled (rounds : Nat) (s : SynchSystem Thread (Vars Thread World) Pc Empty Unit Unit) :
    Prop :=
  ∀ thread, Ended rounds s thread ∨ ¬ SynchSystem.CanStep (program rounds) s thread

variable [Fintype Thread] {p : Int → World → World} {world : World}
  {s : SynchSystem Thread (Vars Thread World) Pc Empty Unit Unit}

/-- When nothing more can happen in the first round, nobody is left in it. -/
theorem Round.ended_of_stalled (round : Round p world s.vars s.monitor.stage)
    (invariant : Invariant 1 s.monitor) (sound : SynchSystem.Sound (program 1) s)
    (exclusive : Exclusive critical s.monitor)
    (fits : ∀ thread, SynchSystem.PhaseFits
      (program 1 : FlowChart Thread (Vars Thread World) _ _ _ _ _ _) (s.threads thread))
    {initial : SemRef Empty Unit → Int}
    (safe : SynchSystem.SemsSafe
      (program 1 : FlowChart Thread (Vars Thread World) _ _ _ _ _ _) initial s.sems s.threads
      s.history)
    (stalled : Stalled 1 s) (thread : Thread) : Ended 1 s thread := by
  have away : ∀ thread : Thread, Ended 1 s thread →
      (s.threads thread).phase = .call ∧ critical (s.threads thread).pc = none := by
    rintro thread ⟨here, -⟩
    rw [here]
    exact ⟨rfl, rfl⟩
  have places : ∀ thread : Thread, Ended 1 s thread ∨
      ∃ pc, s.monitor.stage thread = .waiting pc := by
    intro thread
    apply (sound.sleepWait_of_stuck exclusive labelled (locksOnly 1) fits safe away stalled
      thread).imp_right
    intro phase
    exact ⟨(s.threads thread).pc, by simp [SynchSystem.monitor, SynchSystem.stageOf, phase]⟩
  have outside : ∀ {thread : Thread}, Ended 1 s thread →
      s.monitor.stage thread = .active .outside := by
    rintro thread ⟨here, -⟩
    simp only [SynchSystem.monitor, here, SynchSystem.stageOf_call]
  by_contra left
  obtain ⟨pc, waits⟩ := (places thread).resolve_left left
  by_cases last : s.vars.barrier.remaining ≤ 0
  · obtain ⟨other, notifying⟩ := round.notified last thread pc waits
    rcases places other with ended | ⟨place, asleep⟩
    · rw [outside ended] at notifying
      cases notifying
    · rw [asleep] at notifying
      cases notifying
  · apply last
    apply Int.le_of_eq
    apply invariant.remaining_eq_zero
    intro other
    change s.vars.arrivals other = 1
    have recorded := round.recorded other
    have bound : s.vars.calls other ≤ 1 := (invariant.threads other).calls_le
    rcases places other with ended | ⟨place, asleep⟩
    · have arrivals := recorded.arrivals
      rw [outside ended] at arrivals
      simpa [early, ended.2] using arrivals
    · obtain ⟨arrivals, returns⟩ := recorded
      rw [asleep] at arrivals returns
      simp only [early, busy] at arrivals returns
      omega

/-- The invariants of the first round. -/
def RoundInvariant (p : Int → World → World) (world : World)
    (s : State Thread (Vars Thread World) Pc Empty Unit Unit) : Prop :=
  Invariant 1 s ∧ Round p world s.vars s.stage

/-- A process function that also keeps a record of its calls. -/
def logged (p : Int → World → World) : Int → World × List Int → World × List Int :=
  fun argument state => (p argument state.1, argument :: state.2)

/-- In every run of one round, from the first step on, either the process function has
not been called and nobody has returned, or it has been called once and everybody had
entered.  When no thread that has not ended can take a step, it has been called and all
threads have returned: nobody waits for the condition or the lock. -/
theorem enterBarrier_round (n : Nat) (positive : 1 ≤ n) (p : Int → World → World)
    (world : World) (actions : List (SynchSystem.Action (Fin n) Unit)) :
    AlongRun (SynchSystem.step (program 1)) (fun s =>
        (s.vars.world = (world, []) ∧ (∀ thread, s.vars.returns thread = 0) ∨
          s.vars.world = (p (-1) world, [-1]) ∧ ∀ thread, s.vars.arrivals thread = 1) ∧
        (Stalled 1 s → s.vars.world = (p (-1) world, [-1]) ∧
          (∀ thread, s.vars.returns thread = 1) ∧ (s.conds ()).waitCondQueue = [] ∧
          (s.sems (.locked ())).queue = []))
      (boot n (some (logged p)) (world, [])) actions := by
  have start : RoundInvariant (logged p) (world, []) (State.start
      (Vars.new n (some (logged p)) (world, [])) (fun sem => sem.elim)
      fun _ : Fin n => Pc.outside) := by
    constructor
    · have counted := @Invariant.start (Fin n) (World × List Int) _ 1 (some (logged p)) (world, [])
      rwa [Fintype.card_fin] at counted
    · exact Round.start n (logged p) (world, [])
  have monitor := SynchSystem.alongRun_of_monitor labelled (fun _ => rfl) start
    (fun _ _ exclusive queued ⟨invariant, round⟩ step =>
      ⟨invariant.step step, round.step invariant exclusive queued step⟩) actions
  have progress := @SynchSystem.alongRun_progress (Fin n) _ _ _ _ _ _ _ _ _ _ (program 1) _
    (Vars.new n (some (logged p)) (world, [])) (fun sem => sem.elim) (fun sem => sem.elim)
    (fun _ => .outside) actions
  apply (monitor.and progress).mono
  rintro s ⟨⟨sound, exclusive, invariant, round⟩, initial, -, safe, fits⟩
  have round : Round (logged p) (world, []) s.vars s.monitor.stage := round
  have called : s.vars.world = (world, []) ∧ (∀ thread, s.vars.returns thread = 0) ∨
      s.vars.world = (p (-1) world, [-1]) ∧ ∀ thread, s.vars.arrivals thread = 1 := by
    apply round.function.imp
    · intro uncalled
      exact ⟨uncalled.world, uncalled.returns⟩
    · intro called
      refine ⟨called.world, ?_⟩
      intro thread
      have arrived := invariant.arrived (le_refl 1) called.remaining thread
      have bound := (invariant.threads thread).arrivals
      have calls := (invariant.threads thread).calls_le
      change 1 ≤ s.vars.arrivals thread at arrived
      change s.vars.arrivals thread + _ ≤ s.vars.calls thread at bound
      change s.vars.calls thread ≤ 1 at calls
      omega
  refine ⟨called, ?_⟩
  intro stalled
  have ended := round.ended_of_stalled invariant sound exclusive fits safe stalled
  have returned : ∀ thread, s.vars.returns thread = 1 := by
    intro thread
    have returns := (round.recorded thread).returns
    have place : s.monitor.stage thread = .active .outside := by
      simp only [SynchSystem.monitor, (ended thread).1, SynchSystem.stageOf_call]
    rw [place] at returns
    simpa [busy, (ended thread).2] using returns
  refine ⟨?_, returned, ?_, ?_⟩
  · rcases called with ⟨-, none⟩ | ⟨world, -⟩
    · have first := returned ⟨0, positive⟩
      rw [none] at first
      cases first
    · exact world
  · apply List.eq_nil_iff_forall_not_mem.mpr
    intro thread member
    have asleep := sound.waiting member
    rw [(ended thread).1] at asleep
    cases asleep
  · apply List.eq_nil_iff_forall_not_mem.mpr
    intro thread member
    have asleep := sound.asleep member
    rw [(ended thread).1] at asleep
    cases asleep

/-- The first of two threads waits, the second one does not. -/
def twoThreads : List (SynchSystem.Action (Fin 2) Unit) :=
  (List.replicate 5 (0 : Fin 2) ++ List.replicate 8 1 ++ List.replicate 6 0).map
    fun thread => .thread thread ()

theorem enterBarrier_round_two :
    (run (SynchSystem.step (program 1)) (boot 2 (some (logged (· + ·))) (10, [])) twoThreads).map
        (fun s => s.vars.world) = .ok (9, [-1]) ∧
      AlongRun (SynchSystem.step (program 1)) (fun s =>
          (s.vars.world = (10, []) ∧ (∀ thread, s.vars.returns thread = 0) ∨
            s.vars.world = (-1 + 10, [-1]) ∧ ∀ thread, s.vars.arrivals thread = 1) ∧
          (Stalled 1 s → s.vars.world = (-1 + 10, [-1]) ∧
            (∀ thread, s.vars.returns thread = 1) ∧ (s.conds ()).waitCondQueue = [] ∧
            (s.sems (.locked ())).queue = []))
        (boot 2 (some (logged (· + ·))) (10, [])) twoThreads :=
  ⟨by rfl, enterBarrier_round 2 (by decide) (· + ·) 10 twoThreads⟩

end Runs

end Barrier

end Nachos
