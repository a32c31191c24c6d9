import Nachos.MonitorRuns
import Nachos.SemaphoreSafety

/-!
# Threads that cannot go on

A thread that makes a call can complete it or go to sleep in it.  When no thread can
take a step, nobody is left who was woken and has not run, a lock that somebody sleeps
for has no holder who could release it, and `V` has woken nobody for it.  In a program
of locks and condition variables that leaves the threads that sleep in `Wait`.
-/

namespace Nachos

open MesaMonitor TransitionRuns ThreadCounting

namespace SynchSystem

variable {Thread Vars Pc Sem Lock Cond Input : Type}

section Phases

theorem pc_stageOf (activity : Activity Pc) : (stageOf activity).pc = activity.pc := by
  unfold stageOf
  split <;> rfl

/-- A thread in the middle of a `P` is at a point that calls `P`. -/
def PhaseFits (program : FlowChart Thread Vars Pc Sem Lock Cond Input Fault)
    (activity : Activity Pc) : Prop :=
  activity.phase = .sleepP ∨ activity.phase = .retryP → pSem program activity.pc ≠ none

variable {program : FlowChart Thread Vars Pc Sem Lock Cond Input Fault}

theorem phaseFits_call (pc : Pc) : PhaseFits program ⟨pc, .call⟩ :=
  nofun

theorem PhaseFits.ready {activity : Activity Pc} (fits : PhaseFits program activity) :
    PhaseFits program { activity with phase := activity.phase.ready } := by
  intro inP
  apply fits
  cases phase : activity.phase <;> simp_all [Phase.ready]

theorem Tests.phaseFits {activity : Activity Pc} {sem : SemRef Sem Lock} {asleep : Phase}
    (tests : Tests program activity sem asleep) :
    PhaseFits program { activity with phase := asleep } := by
  cases tests with
  | p code phase => exact fun _ => by simp [pSem, code]
  | acquire code phase => exact fun _ => by simp [pSem, code]
  | wait code phase =>
      rintro (isSleep | isRetry)
      · cases isSleep
      · cases isRetry

theorem ready_of_wokenOn {activity : Activity Pc} {sem : SemRef Sem Lock}
    (woken : wokenOn program activity = some sem) :
    activity.phase = .retryP ∨ activity.phase = .reacquire ∨
      activity.phase = .retryReacquire := by
  cases phase : activity.phase <;> simp [wokenOn, phase] at woken ⊢

variable [DecidableEq Thread] {threads : Thread → Activity Pc}

theorem phaseFits_update (fits : ∀ thread, PhaseFits program (threads thread))
    {thread : Thread} {target : Activity Pc} (fit : PhaseFits program target) :
    ∀ other, PhaseFits program (Function.update threads thread target other) := by
  intro other
  by_cases same : other = thread
  · subst same
    rwa [Function.update_self]
  · rw [Function.update_of_ne same]
    exact fits other

theorem phaseFits_readyAll (fits : ∀ thread, PhaseFits program (threads thread))
    (woken : List Thread) : ∀ other, PhaseFits program (readyAll woken threads other) := by
  intro other
  by_cases member : other ∈ woken
  · rw [readyAll_of_mem member]
    exact (fits other).ready
  · rw [readyAll_of_notMem member]
    exact fits other

variable [DecidableEq Sem] [DecidableEq Lock]
  {s next : SynchSystem Thread Vars Pc Sem Lock Cond}

theorem phaseFits_vAll (fits : ∀ thread, PhaseFits program (s.threads thread)) {sems : List Sem}
    (done : s.vAll sems = .ok next) : ∀ thread, PhaseFits program (next.threads thread) := by
  induction sems generalizing s with
  | nil =>
      cases done
      exact fits
  | cons sem sems ih =>
      obtain ⟨middle, given, rest⟩ := bind_eq_ok_iff.mp done
      obtain ⟨-, rfl⟩ := v_eq_ok_iff.mp given
      exact ih (phaseFits_readyAll fits _) rest

variable [DecidableEq Cond]

theorem Transition.phaseFits (step : Transition program s next)
    (fits : ∀ thread, PhaseFits program (s.threads thread)) :
    ∀ thread, PhaseFits program (next.threads thread) := by
  cases step with
  | run code phase done => exact phaseFits_update fits (phaseFits_call _)
  | block tests zero => exact phaseFits_update fits tests.phaseFits
  | p code tests available => exact phaseFits_update fits (phaseFits_call _)
  | v code phase => exact phaseFits_update (phaseFits_readyAll fits _) (phaseFits_call _)
  | acquire code tests available => exact phaseFits_update fits (phaseFits_call _)
  | release code phase held =>
      exact phaseFits_update (phaseFits_readyAll fits _) (phaseFits_call _)
  | wait code phase held => exact phaseFits_update (phaseFits_readyAll fits _) nofun
  | reacquire code tests available => exact phaseFits_update fits (phaseFits_call _)
  | signal code phase held =>
      exact phaseFits_update (phaseFits_readyAll fits _) (phaseFits_call _)
  | broadcast code phase held =>
      exact phaseFits_update (phaseFits_readyAll fits _) (phaseFits_call _)
  | @interrupt input vars sems target pending done =>
      exact @phaseFits_vAll _ _ _ _ _ _ _ _ _ _ _ { s with vars := vars } _ fits _ done

end Phases

section Moves

variable {program : FlowChart Thread Vars Pc Sem Lock Cond Input Fault}

/-- The instruction of a thread at a point leaves it there or leads it to another point, and
only straight-line code changes the variables. -/
def Leads (thread : Thread) (input : Input) (vars : Vars) (pc : Pc) (after : Vars) (reached : Pc) :
    Instr Thread Vars Pc Sem Lock Cond Input Fault → Prop
  | .run body => body thread input vars = .ok (after, reached)
  | .p _ next | .v _ next | .acquire _ next | .release _ next | .wait _ next |
    .signal _ next | .broadcast _ next => after = vars ∧ (reached = pc ∨ reached = next)

variable [DecidableEq Thread] [DecidableEq Sem] [DecidableEq Lock] [DecidableEq Cond]
  {s next : SynchSystem Thread Vars Pc Sem Lock Cond} {thread : Thread} {input : Input}

/-- A step of a thread takes it along its instruction, and may make others ready. -/
theorem stepThread_threads (done : s.stepThread program thread input = .ok next) :
    ∃ woken activity, next.threads = Function.update (readyAll woken s.threads) thread activity ∧
      Leads thread input s.vars (s.threads thread).pc next.vars activity.pc
        (program.code (s.threads thread).pc) := by
  -- A thread that finds a semaphore taken stays where it is.
  have stays : ∀ sem asleep, (s.afterBlock sem thread asleep).threads =
      Function.update (readyAll [] s.threads) thread
        { s.threads thread with phase := asleep } := by
    intro sem asleep
    rw [readyAll_nil]
    rfl
  cases code : program.code (s.threads thread).pc with
  | run body =>
      cases phase : (s.threads thread).phase <;>
        simp only [stepThread, code, phase, reduceCtorEq] at done
      split at done
      next vars target ran =>
        cases done
        exact ⟨[], ⟨target, .call⟩, by rw [readyAll_nil]; rfl, ran⟩
      next => cases done
  | p sem target =>
      have result : s.p (.named sem) thread .sleepP (fun s => s.goto thread target) = next := by
        cases phase : (s.threads thread).phase <;>
          simp only [stepThread, code, phase, reduceCtorEq, Except.ok.injEq] at done <;>
          exact done
      subst result
      rcases p_cases s (.named sem) thread .sleepP fun s => s.goto thread target with
        ⟨-, equal⟩ | ⟨-, equal⟩
      · rw [equal]
        exact ⟨[], _, stays _ _, rfl, Or.inl rfl⟩
      · rw [equal]
        exact ⟨[], ⟨target, .call⟩, by rw [readyAll_nil]; rfl, rfl, Or.inr rfl⟩
  | v sem target =>
      cases phase : (s.threads thread).phase <;>
        simp only [stepThread, code, phase, reduceCtorEq] at done
      obtain ⟨middle, given, finished⟩ := bind_eq_ok_iff.mp done
      obtain ⟨-, rfl⟩ := v_eq_ok_iff.mp given
      cases finished
      exact ⟨_, ⟨target, .call⟩, rfl, rfl, Or.inr rfl⟩
  | acquire lock target =>
      have result : s.acquire lock thread .sleepP (fun s => s.goto thread target) = next := by
        cases phase : (s.threads thread).phase <;>
          simp only [stepThread, code, phase, reduceCtorEq, Except.ok.injEq] at done <;>
          exact done
      subst result
      rcases p_cases s (.locked lock) thread .sleepP _ with ⟨-, equal⟩ | ⟨-, equal⟩
      · rw [acquire, equal]
        exact ⟨[], _, stays _ _, rfl, Or.inl rfl⟩
      · rw [acquire, equal]
        exact ⟨[], ⟨target, .call⟩, by rw [readyAll_nil]; rfl, rfl, Or.inr rfl⟩
  | release lock target =>
      cases phase : (s.threads thread).phase <;>
        simp only [stepThread, code, phase, reduceCtorEq] at done
      obtain ⟨-, -, rfl⟩ := release_bind_eq_ok_iff.mp done
      exact ⟨_, ⟨target, .call⟩, rfl, rfl, Or.inr rfl⟩
  | wait cond target =>
      by_cases phase : (s.threads thread).phase = .call
      · simp only [stepThread, code, phase] at done
        obtain ⟨-, -, -, rfl⟩ := wait_eq_ok_iff.mp done
        exact ⟨_, _, rfl, rfl, Or.inl (readyAll_pc _ _)⟩
      have result : s.acquire (program.lockOf cond) thread .sleepReacquire (fun s =>
          { s with history := .returned cond thread :: s.history }.goto thread target) =
          next := by
        cases other : (s.threads thread).phase <;>
          simp only [stepThread, code, other, reduceCtorEq, Except.ok.injEq] at done <;>
          first | exact absurd other phase | exact done
      subst result
      rcases p_cases s (.locked (program.lockOf cond)) thread .sleepReacquire _ with
        ⟨-, equal⟩ | ⟨-, equal⟩
      · rw [acquire, equal]
        exact ⟨[], _, stays _ _, rfl, Or.inl rfl⟩
      · rw [acquire, equal]
        exact ⟨[], ⟨target, .call⟩, by rw [readyAll_nil]; rfl, rfl, Or.inr rfl⟩
  | signal cond target =>
      cases phase : (s.threads thread).phase <;>
        simp only [stepThread, code, phase, reduceCtorEq] at done
      obtain ⟨middle, signalled, finished⟩ := bind_eq_ok_iff.mp done
      obtain ⟨-, -, rfl⟩ := signal_eq_ok_iff.mp signalled
      cases finished
      exact ⟨_, ⟨target, .call⟩, rfl, rfl, Or.inr rfl⟩
  | broadcast cond target =>
      cases phase : (s.threads thread).phase <;>
        simp only [stepThread, code, phase, reduceCtorEq] at done
      obtain ⟨middle, signalled, finished⟩ := bind_eq_ok_iff.mp done
      obtain ⟨-, -, rfl⟩ := broadcast_eq_ok signalled
      cases finished
      exact ⟨_, ⟨target, .call⟩, rfl, rfl, Or.inr rfl⟩

/-- What the step of a thread does to the variables and to the points of the threads. -/
theorem stepThread_leads (done : s.stepThread program thread input = .ok next) :
    (∀ other, other ≠ thread → (next.threads other).pc = (s.threads other).pc) ∧
      Leads thread input s.vars (s.threads thread).pc next.vars (next.threads thread).pc
        (program.code (s.threads thread).pc) := by
  obtain ⟨woken, activity, threads, leads⟩ := stepThread_threads done
  rw [threads]
  refine ⟨fun other different => ?_, by rwa [Function.update_self]⟩
  rw [Function.update_of_ne different, readyAll_pc]

/-- A thread at straight-line code that completes can go on. -/
theorem stepThread_of_completes {body : Thread → Input → Vars → Except Fault (Vars × Pc)}
    {vars : Vars} {pc : Pc} (isRun : program.code (s.threads thread).pc = .run body)
    (phase : (s.threads thread).phase = .call)
    (completes : body thread input s.vars = .ok (vars, pc)) :
    s.stepThread program thread input = .ok ({ s with vars := vars }.goto thread pc) := by
  rw [stepThread, isRun, phase]
  dsimp only
  rw [completes]

omit [DecidableEq Cond] in
/-- The interrupt handlers move no thread. -/
theorem vAll_pc {sems : List Sem} (done : s.vAll sems = .ok next) :
    next.vars = s.vars ∧ ∀ thread, (next.threads thread).pc = (s.threads thread).pc := by
  induction sems generalizing s with
  | nil =>
      cases done
      exact ⟨rfl, fun _ => rfl⟩
  | cons sem sems ih =>
      obtain ⟨middle, given, rest⟩ := bind_eq_ok_iff.mp done
      obtain ⟨-, rfl⟩ := v_eq_ok_iff.mp given
      obtain ⟨vars, points⟩ := ih rest
      exact ⟨vars, fun thread => (points thread).trans (readyAll_pc _ _)⟩

end Moves

section Stuck

variable [DecidableEq Thread] [DecidableEq Sem] [DecidableEq Lock] [DecidableEq Cond]
  {program : FlowChart Thread Vars Pc Sem Lock Cond Input Fault} {critical : Pc → Option Lock}
  {s : SynchSystem Thread Vars Pc Sem Lock Cond} {thread : Thread}

/-- The thread can take a step. -/
def CanStep (program : FlowChart Thread Vars Pc Sem Lock Cond Input Fault)
    (s : SynchSystem Thread Vars Pc Sem Lock Cond) (thread : Thread) : Prop :=
  ∃ input next, s.stepThread program thread input = .ok next

/-- The program calls no operation on the semaphores that it names, and its
straight-line code does not fail. -/
structure LocksOnly (program : FlowChart Thread Vars Pc Sem Lock Cond Input Fault) : Prop where
  noP : ∀ pc sem next, program.code pc ≠ .p sem next
  noV : ∀ pc sem next, program.code pc ≠ .v sem next
  runs : ∀ pc body thread input vars, program.code pc = .run body →
    ∃ result, body thread input vars = .ok result

/-- A thread that is about to make a call can do so, if it does not give a unit to a
semaphore and the straight-line code there completes. -/
theorem Sound.canStep_of_completes [Inhabited Input] (sound : Sound program s)
    (exclusive : Exclusive critical s.monitor) (labelled : program.Labelled critical)
    (noV : ∀ sem next, program.code (s.threads thread).pc ≠ .v sem next)
    (completes : ∀ body, program.code (s.threads thread).pc = .run body →
      ∃ input result, body thread input s.vars = .ok result)
    (phase : (s.threads thread).phase = .call) : CanStep program s thread := by
  have label := labelled (s.threads thread).pc
  unfold CanStep stepThread
  cases code : program.code (s.threads thread).pc with
  | run body =>
      obtain ⟨input, result, done⟩ := completes body code
      exact ⟨input, _, by simp only [phase, done]; rfl⟩
  | p sem target => exact ⟨default, _, by simp only [phase]; rfl⟩
  | v sem target => exact absurd code (noV _ _)
  | acquire lock target => exact ⟨default, _, by simp only [phase]; rfl⟩
  | release lock target =>
      rw [code] at label
      have held := holder_eq exclusive phase label.1
      have released := release_eq_ok_iff.mpr ⟨held, sound.locked_lt lock, rfl⟩
      exact ⟨default, _, by simp only [phase, released]; rfl⟩
  | wait cond target =>
      rw [code] at label
      have held := holder_eq exclusive phase label.1
      have waits := wait_eq_ok_iff.mpr ⟨held, sound.tied cond, sound.locked_lt _, rfl⟩
      exact ⟨default, _, by simp only [phase, waits]; rfl⟩
  | signal cond target =>
      rw [code] at label
      have held := holder_eq exclusive phase label.1
      have signalled := signal_eq_ok_iff.mpr ⟨held, sound.tied cond, rfl⟩
      exact ⟨default, _, by simp only [phase, signalled]; rfl⟩
  | broadcast cond target =>
      rw [code] at label
      have held := holder_eq exclusive phase label.1
      have signalled := broadcast_ok held (sound.tied cond)
      exact ⟨default, _, by simp only [phase, signalled]; rfl⟩

/-- A thread that was woken in a `P`, or notified, tests the semaphore. -/
theorem Sound.canStep_of_ready [Inhabited Input] (sound : Sound program s)
    (fits : PhaseFits program (s.threads thread))
    (phase : (s.threads thread).phase = .retryP ∨ (s.threads thread).phase = .reacquire ∨
      (s.threads thread).phase = .retryReacquire) : CanStep program s thread := by
  have atWait := sound.queued.atWait thread (s.threads thread).pc
  unfold CanStep stepThread
  rcases phase with phase | phase | phase
  · have calls := fits (Or.inr phase)
    cases code : program.code (s.threads thread).pc with
    | p sem target => exact ⟨default, _, by simp only [phase]; rfl⟩
    | acquire lock target => exact ⟨default, _, by simp only [phase]; rfl⟩
    | _ => simp [pSem, code] at calls
  · obtain ⟨cond, target, code⟩ := atWait (Or.inr (by simp [monitor, stageOf, phase]))
    exact ⟨default, _, by simp only [code, phase]; rfl⟩
  · obtain ⟨cond, target, code⟩ := atWait (Or.inr (by simp [monitor, stageOf, phase]))
    exact ⟨default, _, by simp only [code, phase]; rfl⟩

omit [DecidableEq Thread] [DecidableEq Sem] [DecidableEq Lock] [DecidableEq Cond] in
/-- A thread inside of a lock is about to make a call: it holds no lock while it is in
the `P` of one. -/
theorem phase_of_inside (labelled : program.Labelled critical)
    (noP : ∀ pc sem next, program.code pc ≠ .p sem next) {activity : Activity Pc}
    (fits : PhaseFits program activity) {lock : Lock}
    (within : inside critical (stageOf activity) = some lock) :
    activity.phase = .call ∧ critical activity.pc = some lock := by
  have outside : pSem program activity.pc ≠ none → critical activity.pc = none := by
    intro calls
    have label := labelled activity.pc
    cases code : program.code activity.pc with
    | p sem target => exact absurd code (noP _ _ _)
    | acquire target next =>
        rw [code] at label
        exact label.1
    | _ => simp [pSem, code] at calls
  cases phase : activity.phase with
  | call => simpa [stageOf, phase, inside] using within
  | sleepP | retryP =>
      have free := outside (fits (by simp [phase]))
      simp [stageOf, phase, inside, free] at within
  | sleepWait | reacquire | sleepReacquire | retryReacquire =>
      simp [stageOf, phase, inside] at within

variable [Fintype Thread] {initial : SemRef Sem Lock → Int}

/-- When all threads have ended or cannot take a step, nobody is left who was woken by a
`V`. -/
theorem Sound.noneWoken_of_stuck [Inhabited Input] (sound : Sound program s)
    (fits : ∀ thread, PhaseFits program (s.threads thread)) {ended : Thread → Prop}
    (away : ∀ thread, ended thread → (s.threads thread).phase = .call)
    (stuck : ∀ thread, ended thread ∨ ¬ CanStep program s thread) (sem : SemRef Sem Lock) :
    count (isWoken program sem) s.threads = 0 := by
  rw [count_eq_zero_iff]
  intro other
  apply decide_eq_false
  intro woken
  have ready := ready_of_wokenOn woken
  rcases stuck other with isEnded | blocked
  · rw [away other isEnded] at ready
    simp at ready
  · exact blocked (sound.canStep_of_ready (fits other) ready)

/-- When all threads have ended or cannot take a step, those that have not ended sleep
in `Wait`, if their straight-line code completes. -/
theorem Sound.sleepWait_of_completes [Inhabited Input] (sound : Sound program s)
    (exclusive : Exclusive critical s.monitor) (labelled : program.Labelled critical)
    (noP : ∀ pc sem next, program.code pc ≠ .p sem next)
    (noV : ∀ pc sem next, program.code pc ≠ .v sem next)
    (completes : ∀ thread body, program.code (s.threads thread).pc = .run body →
      ∃ input result, body thread input s.vars = .ok result)
    (fits : ∀ thread, PhaseFits program (s.threads thread))
    (safe : SemsSafe program initial s.sems s.threads s.history) {ended : Thread → Prop}
    (away : ∀ thread, ended thread →
      (s.threads thread).phase = .call ∧ critical (s.threads thread).pc = none)
    (stuck : ∀ thread, ended thread ∨ ¬ CanStep program s thread) (thread : Thread) :
    ended thread ∨ (s.threads thread).phase = .sleepWait := by
  have noneWoken : ∀ sem, count (isWoken program sem) s.threads = 0 :=
    sound.noneWoken_of_stuck fits (fun thread isEnded => (away thread isEnded).1) stuck
  have canStep : ∀ {thread}, (s.threads thread).phase = .call → CanStep program s thread :=
    fun phase => sound.canStep_of_completes exclusive labelled (noV _) (completes _) phase
  -- Hence nobody is inside of a lock, and nobody sleeps for one.
  have free : ∀ lock, s.holder lock = none := by
    intro lock
    cases held : s.holder lock with
    | none => rfl
    | some other =>
        obtain ⟨phase, within⟩ := phase_of_inside labelled noP (fits other)
          ((exclusive lock other).mp held)
        rcases stuck other with isEnded | blocked
        · rw [(away other isEnded).2] at within
          cases within
        · exact absurd (canStep phase) blocked
  have awake : ∀ lock, asleepOn program (s.threads thread) ≠ some (.locked lock) := by
    intro lock asleep
    have queued := (sound.semQueues.mem_iff (.locked lock) thread).mpr asleep
    have units := (safe (.locked lock)).2.2 (List.ne_nil_of_mem queued)
    rw [noneWoken] at units
    have available := (sound.free_iff lock).mpr (free lock)
    have nonneg := (safe (.locked lock)).1
    omega
  rcases stuck thread with isEnded | blocked
  · exact Or.inl isEnded
  right
  cases phase : (s.threads thread).phase with
  | call => exact absurd (canStep phase) blocked
  | sleepWait => rfl
  | retryP | reacquire | retryReacquire =>
      exact absurd (sound.canStep_of_ready (fits thread) (by simp [phase])) blocked
  | sleepP =>
      have calls := fits thread (Or.inl phase)
      cases code : program.code (s.threads thread).pc with
      | p sem target => exact absurd code (noP _ _ _)
      | acquire lock target => exact absurd (by simp [asleepOn, phase, pSem, code]) (awake lock)
      | _ => simp [pSem, code] at calls
  | sleepReacquire =>
      obtain ⟨cond, target, code⟩ := sound.queued.atWait thread (s.threads thread).pc
        (Or.inr (by simp [monitor, stageOf, phase]))
      exact absurd (by simp [asleepOn, phase, waitSem, code]) (awake (program.lockOf cond))

/-- When all threads have ended or cannot take a step, those that have not ended sleep
in `Wait`. -/
theorem Sound.sleepWait_of_stuck [Inhabited Input] (sound : Sound program s)
    (exclusive : Exclusive critical s.monitor) (labelled : program.Labelled critical)
    (locksOnly : LocksOnly program) (fits : ∀ thread, PhaseFits program (s.threads thread))
    (safe : SemsSafe program initial s.sems s.threads s.history) {ended : Thread → Prop}
    (away : ∀ thread, ended thread →
      (s.threads thread).phase = .call ∧ critical (s.threads thread).pc = none)
    (stuck : ∀ thread, ended thread ∨ ¬ CanStep program s thread) (thread : Thread) :
    ended thread ∨ (s.threads thread).phase = .sleepWait :=
  sound.sleepWait_of_completes exclusive labelled locksOnly.noP locksOnly.noV
    (fun thread body code => ⟨default, locksOnly.runs _ body thread default s.vars code⟩) fits
    safe away stuck thread

/-- The program uses nothing but semaphores, and its straight-line code does not fail. -/
inductive SemsOnly (program : FlowChart Thread Vars Pc Sem Lock Cond Input Fault) (pc : Pc) :
    Prop where
  | run (body) (code : program.code pc = .run body)
      (completes : ∀ thread input vars, ∃ result, body thread input vars = .ok result)
  | p (sem next) (code : program.code pc = .p sem next)
  | v (sem next) (code : program.code pc = .v sem next)

omit [Fintype Thread] in
/-- A step of a program of semaphores does not fail while their values are in range. -/
theorem step_error_of_semsOnly (semsOnly : ∀ pc, SemsOnly program pc)
    (quiet : ∀ input vars, program.interrupt input vars = none)
    (small : ∀ sem, (s.sems (.named sem)).value < 2 ^ 31 - 1) {action : Action Thread Input}
    {stop : Stop} (failed : step program s action = .error stop) : stop = .notRunnable := by
  cases action with
  | interrupt input =>
      simp only [step, quiet] at failed
      cases failed
      rfl
  | thread thread input =>
      change s.stepThread program thread input = _ at failed
      cases semsOnly (s.threads thread).pc with
      | run body code completes =>
          obtain ⟨result, done⟩ := completes thread input s.vars
          cases phase : (s.threads thread).phase <;> simp [stepThread, code, phase, done] at failed
          all_goals exact failed.symm
      | p sem next code =>
          cases phase : (s.threads thread).phase <;> simp [stepThread, code, phase] at failed
          all_goals exact failed.symm
      | v sem next code =>
          have given := v_eq_ok_iff.mpr ⟨small sem, rfl⟩
          cases phase : (s.threads thread).phase <;>
            simp [stepThread, code, phase, given] at failed
          all_goals exact failed.symm

/-- When all threads have ended or cannot take a step, those that have not ended sleep in
`P` of semaphores with no unit. -/
theorem Sound.sleepP_of_stuck [Inhabited Input] (sound : Sound program s)
    (semsOnly : ∀ pc, SemsOnly program pc) (fits : ∀ thread, PhaseFits program (s.threads thread))
    (safe : SemsSafe program initial s.sems s.threads s.history)
    (small : ∀ sem, (s.sems (.named sem)).value < 2 ^ 31 - 1) {ended : Thread → Prop}
    (away : ∀ thread, ended thread → (s.threads thread).phase = .call)
    (stuck : ∀ thread, ended thread ∨ ¬ CanStep program s thread) (thread : Thread) :
    ended thread ∨ ∃ sem next, program.code (s.threads thread).pc = .p sem next ∧
      (s.sems (.named sem)).value = 0 := by
  rcases stuck thread with isEnded | blocked
  · exact Or.inl isEnded
  right
  have atWait := sound.queued.atWait thread (s.threads thread).pc
  have noWait : ∀ cond next, program.code (s.threads thread).pc ≠ .wait cond next := by
    intro cond next isWait
    cases semsOnly (s.threads thread).pc with
    | run body code | p sem next code | v sem next code =>
        rw [code] at isWait
        cases isWait
  cases phase : (s.threads thread).phase with
  | call =>
      exfalso
      apply blocked
      unfold CanStep stepThread
      cases semsOnly (s.threads thread).pc with
      | run body code completes =>
          obtain ⟨result, done⟩ := completes thread default s.vars
          exact ⟨default, _, by simp only [code, phase, done]; rfl⟩
      | p sem next code => exact ⟨default, _, by simp only [code, phase]; rfl⟩
      | v sem next code =>
          have given := v_eq_ok_iff.mpr ⟨small sem, rfl⟩
          exact ⟨default, _, by simp only [code, phase, given]; rfl⟩
  | retryP => exact absurd (sound.canStep_of_ready (fits thread) (Or.inl phase)) blocked
  | sleepP =>
      have calls := fits thread (Or.inl phase)
      cases semsOnly (s.threads thread).pc with
      | run body code | v sem next code => simp [pSem, code] at calls
      | p sem next code =>
          have asleep : asleepOn program (s.threads thread) = some (.named sem) := by
            simp [asleepOn, phase, pSem, code]
          have queued := (sound.semQueues.mem_iff (.named sem) thread).mpr asleep
          obtain ⟨nonneg, -, units⟩ := safe (.named sem)
          have few := units (List.ne_nil_of_mem queued)
          rw [sound.noneWoken_of_stuck fits away stuck] at few
          exact ⟨sem, next, code, by omega⟩
  | sleepWait | reacquire | sleepReacquire | retryReacquire =>
      obtain ⟨cond, next, isWait⟩ := atWait (by simp [monitor, stageOf, phase])
      exact absurd isWait (noWait cond next)

/-- What holds in every state of a run from the start, besides what the monitor gives. -/
theorem alongRun_progress (vars : Vars) {value : Sem → Int} (units : ∀ sem, 0 ≤ value sem)
    (entry : Thread → Pc) (actions : List (Action Thread Input)) :
    AlongRun (step program) (fun s => ∃ initial, Sound program s ∧
      SemsSafe program initial s.sems s.threads s.history ∧
      ∀ thread, PhaseFits program (s.threads thread)) (boot vars value entry) actions := by
  apply alongRun_of_preserved
  · rintro s action next ⟨initial, sound, safe, fits⟩ done
    have step := step_transition done
    exact ⟨initial, step.sound sound, step.semsSafe sound safe, step.phaseFits fits⟩
  · let start : SynchSystem Thread Vars Pc Sem Lock Cond := boot vars value entry
    refine ⟨fun sem => (start.sems sem).value, sound_boot program vars _ entry, ?_,
      fun thread => phaseFits_call _⟩
    intro sem
    cases sem with
    | named sem => simpa [start, boot, numV, numP] using units sem
    | locked lock => simp [start, boot, numV, numP]

end Stuck

end SynchSystem

end Nachos
