import Nachos.ClockRange
import Nachos.Scheduler

/-!
# An idle machine with timers

`machine/timer.cc`: a timer schedules its next interrupt each time it expires.  Two timers
can be started, one by `Initialize` for the flag `-rs` and one by `SetSchedPolicy` for
round-robin scheduling.  `Thread::Sleep` lets the machine idle until a thread is ready, and
`CheckIfDue` has the machine halted when the interrupt of a timer is the only one on the
list.  With two timers there is always another one.
-/

namespace Nachos

open TransitionRuns CInt

def timerTicks : Nat := 100

/-- The handlers that timers call: `TimerInterruptHandler` and `SchedInterruptHandler`. -/
inductive TimerClient where
  | timerInterruptHandler
  | schedInterruptHandler
  deriving DecidableEq

/-- `class Timer`. -/
structure Timer where
  randomize : Bool
  handler : TimerClient
  deriving DecidableEq

/-- What the handlers of timers use: the numbers that `Random` returns with the number of
those that were drawn, the scheduler, and the time that the current thread has left. -/
structure TimerWorld (Thread : Type) where
  random : Nat → Nat
  drawn : Nat
  scheduler : Scheduler Thread
  timeLeft : CInt

/-- No thread is ready, and `Random` returns zeros. -/
def TimerWorld.start {Thread : Type} (policy : SchedPolicy) : TimerWorld Thread where
  random _ := 0
  drawn := 0
  scheduler := ⟨LinkedList.empty, LinkedList.empty, LinkedList.empty, LinkedList.empty, policy⟩
  timeLeft := 0

/-- The clock of a machine whose devices are timers. -/
abbrev TimerMachine (Thread : Type) := WrappingClock Timer (TimerWorld Thread)

namespace Timer

variable {Thread : Type}

/-- `Timer::TimeOfNextInterrupt`. -/
def timeOfNextInterrupt (timer : Timer) (world : TimerWorld Thread) :
    CInt × TimerWorld Thread :=
  if timer.randomize then
    (BitVec.ofNat 32 (1 + world.random world.drawn % (timerTicks * 2)),
      { world with drawn := world.drawn + 1 })
  else (BitVec.ofNat 32 (timerTicks / 2), world)

/-- What the handler of the timer does.  `CheckIfDue` has set `SystemMode`, so that
`getStatus` does not return `IdleMode`. -/
def callHandler (world : TimerWorld Thread) :
    TimerClient → TimerWorld Thread × List (DeviceCall Timer)
  | .timerInterruptHandler =>
      ({ world with timeLeft := world.timeLeft - 4 }, [.yieldOnReturn])
  | .schedInterruptHandler =>
      (world, if world.scheduler.policy = .rr then [.yieldOnReturn] else [])

/-- `Timer::TimerExpired`. -/
def timerExpired : DeviceHandlers Timer (TimerWorld Thread) := fun timer arg _ world =>
  let (fromNow, world) := timer.timeOfNextInterrupt world
  let (world, calls) := callHandler world timer.handler
  (world, .schedule timer arg fromNow .timer :: calls)

/-- `Timer::Timer`. -/
def create (timer : Timer) (s : TimerMachine Thread) : Except Abort (TimerMachine Thread) :=
  let (fromNow, world) := timer.timeOfNextInterrupt s.world
  { s with world := world }.schedule timer 0 fromNow .timer

end Timer

namespace TimerMachine

open WrappingClock

variable {Thread : Type}

/-- The loop of `Thread::Sleep` for at most the given number of iterations, each of them with
at most so many rounds of `CheckIfDue`: the thread to run next, if there is one. -/
def sleep (rounds : Nat) : Nat → TimerMachine Thread →
    Except Abort (Option Thread × TimerMachine Thread)
  | 0, s => .ok (none, s)
  | iterations + 1, s =>
      if s.halted then .ok (none, s)
      else match s.world.scheduler.findNextToRun with
        | (some nextThread, scheduler) =>
            .ok (some nextThread, { s with world := { s.world with scheduler := scheduler } })
        | (none, scheduler) => do
            let s ← { s with world := { s.world with scheduler := scheduler } }.idle
              Timer.timerExpired rounds
            sleep rounds iterations s

/-- No thread is ready, and only timers have interrupts scheduled. -/
structure Asleep (s : TimerMachine Thread) : Prop where
  level : s.level = .off
  running : s.halted = false
  ready : s.world.scheduler.ready = []
  timers : ∀ element ∈ s.pending.elements, element.item.type = .timer

/-- Two timers keep each other going. -/
structure Restless (s : TimerMachine Thread) : Prop where
  running : s.halted = false
  ready : s.world.scheduler.ready = []
  several : 2 ≤ s.pending.elements.length

section Handlers

variable {s after taken : TimerMachine Thread}

/-- Each time it expires, a timer schedules one interrupt and makes no thread ready. -/
theorem timerExpired_eq (timer : Timer) (arg totalTicks : CInt) (world : TimerWorld Thread) :
    ∃ fromNow calls, (Timer.timerExpired timer arg totalTicks world).2 =
        .schedule timer arg fromNow .timer :: calls ∧ (∀ call ∈ calls, call = .yieldOnReturn) ∧
      (Timer.timerExpired timer arg totalTicks world).1.scheduler = world.scheduler := by
  have sameScheduler : (timer.timeOfNextInterrupt world).2.scheduler = world.scheduler := by
    unfold Timer.timeOfNextInterrupt
    split <;> rfl
  unfold Timer.timerExpired
  dsimp only
  refine ⟨_, _, rfl, ?_, ?_⟩
  · cases timer.handler with
    | timerInterruptHandler => simp [Timer.callHandler]
    | schedInterruptHandler =>
        unfold Timer.callHandler
        dsimp only
        split <;> simp
  · cases timer.handler <;> exact sameScheduler

theorem perform_yields_fields {calls : List (DeviceCall Timer)}
    (yields : ∀ call ∈ calls, call = .yieldOnReturn) (done : s.perform calls = .ok after) :
    after.pending = s.pending ∧ after.world = s.world ∧ after.halted = s.halted := by
  induction calls generalizing s with
  | nil =>
      cases done
      exact ⟨rfl, rfl, rfl⟩
  | cons call calls ih =>
      obtain ⟨rfl, others⟩ := List.forall_mem_cons.mp yields
      obtain ⟨middle, first, rest⟩ := bind_eq_ok_iff.mp done
      cases requestYield_eq_ok first
      exact @ih { s with yieldOnReturn := true } others rest

theorem length_sortedInsert (list : LinkedList (Booking Timer)) (item : Booking Timer)
    (key : Int) : (list.sortedInsert item key).elements.length = list.elements.length + 1 :=
  (LinkedList.perm_insertElement _ _).length_eq

/-- A timer that fires is pending again. -/
theorem invoke_timerExpired {toOccur : Booking Timer}
    (done : s.invoke Timer.timerExpired toOccur = .ok after) :
    after.pending.elements.length = s.pending.elements.length + 1 ∧
      after.world.scheduler = s.world.scheduler ∧ after.halted = s.halted := by
  obtain ⟨performed, calls, finished⟩ := bind_eq_ok_iff.mp done
  cases finished
  obtain ⟨fromNow, yields, calls_eq, onlyYields, sameScheduler⟩ :=
    timerExpired_eq toOccur.handler toOccur.arg s.totalTicks s.world
  rw [calls_eq] at calls
  obtain ⟨scheduled, first, rest⟩ := bind_eq_ok_iff.mp calls
  obtain ⟨-, rfl⟩ := schedule_eq_ok first
  obtain ⟨pending, world, halted⟩ := perform_yields_fields onlyYields rest
  refine ⟨?_, ?_, halted⟩
  · dsimp only
    rw [pending]
    exact length_sortedInsert _ _ _
  · dsimp only
    rw [world]
    exact sameScheduler

/-- The interrupt that fires is taken off the list, and otherwise the list has as many as
before. -/
theorem takeDue_fields {advance : Bool} {due : Option (Booking Timer)}
    (done : s.takeDue advance = (due, taken)) :
    taken.pending.elements.length + due.toList.length = s.pending.elements.length ∧
      taken.world = s.world ∧ taken.halted = s.halted := by
  rcases takeDue_cases done with ⟨rfl, rfl⟩ | ⟨first, rest, pending, found⟩
  · exact ⟨rfl, rfl, rfl⟩
  · rw [pending]
    rcases found with ⟨-, -, found⟩ | ⟨rfl, rfl⟩ | ⟨-, found⟩
    · rcases unlessDone_cases found with ⟨rfl, rfl⟩ | ⟨rfl, rfl⟩
      · exact ⟨length_sortedInsert _ _ _, rfl, rfl⟩
      · exact ⟨rfl, rfl, rfl⟩
    · exact ⟨length_sortedInsert _ _ _, rfl, rfl⟩
    · rcases unlessDone_cases found with ⟨rfl, rfl⟩ | ⟨rfl, rfl⟩
      · exact ⟨length_sortedInsert _ _ _, rfl, rfl⟩
      · exact ⟨rfl, rfl, rfl⟩

/-- When there is more than one interrupt and the clock may be advanced, the first one
fires. -/
theorem takeDue_advance (several : 2 ≤ s.pending.elements.length) :
    ∃ toOccur taken, s.takeDue true = (some toOccur, taken) := by
  cases elements : s.pending.elements with
  | nil => simp [elements] at several
  | cons first rest =>
      cases rest with
      | nil => simp [elements] at several
      | cons second rest =>
          have filled : LinkedList.isEmpty
              (⟨second :: rest⟩ : LinkedList (Booking Timer)) = false := rfl
          by_cases later : first.key > s.totalTicks.toInt
          · refine ⟨first.item,
              { s with pending := ⟨second :: rest⟩ }.advanceClock first.key, ?_⟩
            simp [takeDue, LinkedList.sortedRemove, elements, later, unlessDone, advanceClock,
              filled]
          · refine ⟨first.item, { s with pending := ⟨second :: rest⟩ }, ?_⟩
            simp [takeDue, LinkedList.sortedRemove, elements, later, unlessDone, filled]

end Handlers

section Loops

variable {s after : TimerMachine Thread} {rounds : Nat}

/-- The two timers are still there after `CheckIfDue`. -/
theorem Restless.checkIfDue (restless : s.Restless) {advance fired : Bool}
    (done : s.checkIfDue Timer.timerExpired advance = .ok (fired, after)) :
    after.Restless ∧ (advance = true → fired = true) := by
  obtain ⟨running, ready, several⟩ := restless
  obtain ⟨-, ⟨rfl, isTaken⟩ | ⟨rfl, toOccur, taken, isTaken, invoking⟩⟩ :=
    checkIfDue_cases done
  · obtain ⟨length, world, halted⟩ := takeDue_fields isTaken
    refine ⟨⟨halted.trans running, by rw [world, ready], ?_⟩, ?_⟩
    · rw [← length] at several
      exact several
    · rintro rfl
      obtain ⟨toOccur, taken, fires⟩ := takeDue_advance several
      rw [fires] at isTaken
      cases isTaken
  · obtain ⟨length, world, halted⟩ := takeDue_fields isTaken
    obtain ⟨lengthAfter, scheduler, haltedAfter⟩ := invoke_timerExpired invoking
    refine ⟨⟨(haltedAfter.trans halted).trans running, by rw [scheduler, world, ready], ?_⟩,
      fun _ => rfl⟩
    rw [lengthAfter]
    exact several.trans_eq length.symm

theorem Restless.checkAll (restless : s.Restless)
    (done : checkAll Timer.timerExpired rounds s = .ok after) : after.Restless := by
  induction rounds generalizing s with
  | zero => cases done
  | succ rounds ih =>
      obtain ⟨⟨fired, middle⟩, checked, rest⟩ := bind_eq_ok_iff.mp done
      have next := (restless.checkIfDue checked).1
      dsimp only at rest
      split at rest
      · exact ih next rest
      · cases rest
        exact next

/-- The machine does not halt. -/
theorem Restless.idle (restless : s.Restless)
    (done : s.idle Timer.timerExpired rounds = .ok after) : after.Restless := by
  obtain ⟨⟨fired, checked⟩, first, finished⟩ := bind_eq_ok_iff.mp done
  have begun : Restless { s with status := .idle } :=
    ⟨restless.running, restless.ready, restless.several⟩
  obtain ⟨next, fires⟩ := begun.checkIfDue first
  dsimp only at finished
  rw [if_pos (fires rfl)] at finished
  obtain ⟨drained, loop, finished⟩ := bind_eq_ok_iff.mp finished
  cases finished
  have last := next.checkAll loop
  exact ⟨last.running, last.ready, last.several⟩

theorem findNextToRun_of_ready {scheduler : Scheduler Thread} (ready : scheduler.ready = []) :
    scheduler.findNextToRun = (none, scheduler) := by
  unfold Scheduler.ready at ready
  obtain ⟨empty, others⟩ := List.append_eq_nil_iff.mp ready
  obtain ⟨empty_1, empty_2⟩ := List.append_eq_nil_iff.mp others
  unfold Scheduler.findNextToRun
  rw [if_pos (LinkedList.isEmpty_eq_true_iff.mpr empty),
    if_pos (LinkedList.isEmpty_eq_true_iff.mpr empty_1),
    if_pos (LinkedList.isEmpty_eq_true_iff.mpr empty_2)]

theorem sleep_succ_of_ready (running : s.halted = false) (ready : s.world.scheduler.ready = [])
    (iterations : Nat) :
    TimerMachine.sleep rounds (iterations + 1) s = (do
      let s ← s.idle Timer.timerExpired rounds
      TimerMachine.sleep rounds iterations s) := by
  have awake : ¬ s.halted = true := by simp [running]
  rw [TimerMachine.sleep, if_neg awake, findNextToRun_of_ready ready]

/-- However long it sleeps, it does not halt. -/
theorem Restless.sleep (restless : s.Restless) {iterations : Nat} {found : Option Thread}
    (done : TimerMachine.sleep rounds iterations s = .ok (found, after)) : after.Restless := by
  induction iterations generalizing s with
  | zero =>
      cases done
      exact restless
  | succ iterations ih =>
      rw [sleep_succ_of_ready restless.running restless.ready] at done
      obtain ⟨next, idled, rest⟩ := bind_eq_ok_iff.mp done
      exact ih (restless.idle idled) rest

/-- Without another interrupt the first iteration halts the machine. -/
theorem Asleep.sleep (asleep : s.Asleep) (few : s.pending.elements.length ≤ 1) :
    ∃ after, TimerMachine.sleep 0 1 s = .ok (none, after) ∧ after.halted = true := by
  have quiet : ∃ back, takeDue { s with status := .idle } true = (none, back) := by
    cases elements : s.pending.elements with
    | nil => exact ⟨_, by simp [takeDue, LinkedList.sortedRemove, elements]; rfl⟩
    | cons first rest =>
        have timer := asleep.timers first (by rw [elements]; exact List.mem_cons_self)
        obtain rfl : rest = [] := by
          rw [elements, List.length_cons] at few
          exact List.eq_nil_of_length_eq_zero (by omega)
        have empty : LinkedList.isEmpty (⟨[]⟩ : LinkedList (Booking Timer)) = true := rfl
        by_cases later : first.key > s.totalTicks.toInt
        · simp [takeDue, LinkedList.sortedRemove, elements, later, unlessDone, advanceClock,
            timer, empty]
        · simp [takeDue, LinkedList.sortedRemove, elements, later, unlessDone, timer, empty]
  obtain ⟨back, isTaken⟩ := quiet
  have checked : WrappingClock.checkIfDue Timer.timerExpired { s with status := .idle } true =
      .ok (false, back) := by
    rw [WrappingClock.checkIfDue, if_pos asleep.level, isTaken]
  refine ⟨{ back with halted := true }, ?_, rfl⟩
  rw [sleep_succ_of_ready asleep.running asleep.ready, WrappingClock.idle, checked]
  rfl

end Loops

/-- With nothing but timers pending and no thread ready, `Thread::Sleep` has the machine
halted after finitely many iterations if and only if there is at most one timer. -/
theorem halts_iff (s : TimerMachine Thread) (asleep : s.Asleep) :
    (∃ rounds iterations after, sleep rounds iterations s = .ok (none, after) ∧
      after.halted = true) ↔ s.pending.elements.length ≤ 1 := by
  constructor
  · rintro ⟨rounds, iterations, after, done, halted⟩
    by_contra several
    have restless : s.Restless := ⟨asleep.running, asleep.ready, by omega⟩
    rw [(restless.sleep done).running] at halted
    cases halted
  · intro few
    obtain ⟨after, done, halted⟩ := asleep.sleep few
    exact ⟨0, 1, after, done, halted⟩

/-- The machine halts after a test of round-robin scheduling without `-rs`. -/
theorem halts_with_one_timer :
    ∃ s : TimerMachine Nat,
      Timer.create ⟨false, .schedInterruptHandler⟩ (new (TimerWorld.start .rr)) = .ok s ∧
        ∃ rounds iterations after, sleep rounds iterations s = .ok (none, after) ∧
          after.halted = true := by
  refine ⟨_, rfl, (halts_iff _ ⟨rfl, rfl, rfl, ?_⟩).mpr ?_⟩
  · decide
  · decide

/-- The timer of `-rs` and that of round-robin scheduling keep it running. -/
theorem not_halts_with_two_timers :
    ∃ s : TimerMachine Nat,
      (Timer.create ⟨true, .timerInterruptHandler⟩ (new (TimerWorld.start .rr)) >>= fun s =>
        Timer.create ⟨false, .schedInterruptHandler⟩ s) = .ok s ∧ s.Asleep ∧
      ∀ rounds iterations after, sleep rounds iterations s = .ok (none, after) →
        after.halted = false := by
  refine ⟨_, rfl, ⟨rfl, rfl, rfl, ?_⟩, ?_⟩
  · decide
  · intro rounds iterations after done
    refine (Restless.sleep ?_ done).running
    exact ⟨rfl, rfl, by decide⟩

end TimerMachine

end Nachos
