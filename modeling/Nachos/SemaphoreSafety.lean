import Nachos.SynchInvariant

/-!
# Semaphores lose no unit and no wake-up

Whatever the threads and the interrupt handlers do, the value of a semaphore is its
initial value plus the units given by `V` minus those taken by completed `P`s.  A `V`
wakes one thread but reserves nothing for it: any thread may take the unit first.  If
threads are left on the queue then each unit is still matched by a thread that was
woken and has not looked at the value yet.
-/

namespace Nachos

open MesaMonitor TransitionRuns ThreadCounting

namespace SynchSystem

variable {Thread Vars Pc Sem Lock Cond Input : Type}
variable [DecidableEq Sem] [DecidableEq Lock]

section Counts

/-- The number of calls of `V` in a history. -/
def numV (sem : SemRef Sem Lock) (history : List (Event Thread Sem Lock Cond)) : Nat :=
  history.countP fun
    | .v other => decide (other = sem)
    | _ => false

/-- The number of completed calls of `P` in a history. -/
def numP (sem : SemRef Sem Lock) (history : List (Event Thread Sem Lock Cond)) : Nat :=
  history.countP fun
    | .p other _ => decide (other = sem)
    | _ => false

variable (program : FlowChart Thread Vars Pc Sem Lock Cond Input Fault)

/-- The thread was made ready by a `V` of the semaphore and has not tested it since. -/
def isWoken (sem : SemRef Sem Lock) (activity : Activity Pc) : Bool :=
  decide (wokenOn program activity = some sem)

variable [Fintype Thread]

/-- What the value, the queue and the woken threads of each semaphore have to do with
each other. -/
def SemsSafe (initial : SemRef Sem Lock → Int) (sems : SemRef Sem Lock → Semaphore Thread)
    (threads : Thread → Activity Pc) (history : List (Event Thread Sem Lock Cond)) : Prop :=
  ∀ sem, 0 ≤ (sems sem).value ∧
    (sems sem).value = initial sem + numV sem history - numP sem history ∧
    ((sems sem).queue ≠ [] → (sems sem).value ≤ count (isWoken program sem) threads)

end Counts

section Operations

variable [Fintype Thread] [DecidableEq Thread]
  {program : FlowChart Thread Vars Pc Sem Lock Cond Input Fault}
  {initial : SemRef Sem Lock → Int} {sems : SemRef Sem Lock → Semaphore Thread}
  {threads : Thread → Activity Pc} {history : List (Event Thread Sem Lock Cond)}

/-- A thread goes on that was not woken by a `V`, or has no business with semaphores. -/
theorem SemsSafe.move (safe : SemsSafe program initial sems threads history) {thread : Thread}
    {target : Activity Pc} (before : wokenOn program (threads thread) = none)
    (after : wokenOn program target = none) :
    SemsSafe program initial sems (Function.update threads thread target) history := by
  intro sem
  rw [count_update_same (by simp [isWoken, before, after])]
  exact safe sem

theorem SemsSafe.block (safe : SemsSafe program initial sems threads history) {thread : Thread}
    {sem : SemRef Sem Lock} {asleep : Phase} (tests : Tests program (threads thread) sem asleep)
    (zero : (sems sem).value = 0) :
    SemsSafe program initial
      (Function.update sems sem { sems sem with queue := (sems sem).queue ++ [thread] })
      (Function.update threads thread { threads thread with phase := asleep }) history := by
  intro other
  obtain ⟨nonneg, total, enough⟩ := safe other
  by_cases same : other = sem
  · subst same
    rw [Function.update_self]
    refine ⟨nonneg, total, fun _ => ?_⟩
    simp only [zero]
    omega
  · rw [Function.update_of_ne same, count_update_same]
    · exact ⟨nonneg, total, enough⟩
    · rcases tests.wokenOn_eq with woken | woken <;>
        simp [isWoken, tests.wokenOn_sleep, woken, Ne.symm same]

/-- A completed `P` takes a unit, and perhaps a woken thread. -/
theorem SemsSafe.p (safe : SemsSafe program initial sems threads history) {thread : Thread}
    {sem : SemRef Sem Lock} {asleep : Phase} (tests : Tests program (threads thread) sem asleep)
    (available : (sems sem).value ≠ 0) (target : Pc) :
    SemsSafe program initial
      (Function.update sems sem { sems sem with value := (sems sem).value - 1 })
      (Function.update threads thread ⟨target, .call⟩) (.p sem thread :: history) := by
  intro other
  obtain ⟨nonneg, total, enough⟩ := safe other
  have moved := count_update (isWoken program other) threads thread ⟨target, .call⟩
  simp only [isWoken, wokenOn_call] at moved
  by_cases same : other = sem
  · subst same
    have counts : numP other (.p other thread :: history) = numP other history + 1 := by
      simp [numP]
    have others : numV other (.p other thread :: history) = numV other history := by
      simp [numV]
    rw [Function.update_self, counts, others]
    refine ⟨by dsimp only; omega, by dsimp only; omega, fun nonempty => ?_⟩
    have bound := enough nonempty
    have atMost := Bool.toNat_le (isWoken program other (threads thread))
    simp only [isWoken] at bound atMost ⊢
    simp only [reduceCtorEq, decide_false, Bool.toNat_false] at moved
    omega
  · have counts : numP other (.p sem thread :: history) = numP other history := by
      simp [numP, Ne.symm same]
    have others : numV other (.p sem thread :: history) = numV other history := by
      simp [numV]
    rw [Function.update_of_ne same, counts, others, count_update_same]
    · exact ⟨nonneg, total, enough⟩
    · rcases tests.wokenOn_eq with woken | woken <;>
        simp [isWoken, woken, Ne.symm same]

/-- A `V` gives a unit, and wakes a thread if one is queued. -/
theorem SemsSafe.v (safe : SemsSafe program initial sems threads history)
    (queues : SemQueues program sems threads) (sem : SemRef Sem Lock) :
    SemsSafe program initial
      (Function.update sems sem ⟨(sems sem).value + 1, (sems sem).queue.tail⟩)
      (readyAll ((sems sem).queue.take 1) threads) (.v sem :: history) := by
  intro other
  obtain ⟨nonneg, total, enough⟩ := safe other
  have counts : numP other (.v sem :: history) = numP other history := by simp [numP]
  have woken : ∀ first rest, (sems sem).queue = first :: rest →
      count (isWoken program other) (readyAll [first] threads) =
        count (isWoken program other) threads + (decide (sem = other)).toNat := by
    intro first rest queue
    have isAsleep : asleepOn program (threads first) = some sem :=
      (queues.mem_iff sem first).mp (by simp [queue])
    obtain ⟨-, before, after⟩ := ready_of_asleepOn isAsleep
    have moved := count_update (isWoken program other) threads first
      { threads first with phase := (threads first).phase.ready }
    rw [readyAll_singleton]
    simpa [isWoken, before, after] using moved
  by_cases same : other = sem
  · subst same
    have others : numV other (.v other :: history) = numV other history + 1 := by simp [numV]
    rw [Function.update_self, counts, others]
    refine ⟨by dsimp only; omega, by dsimp only; omega, fun nonempty => ?_⟩
    cases queue : (sems other).queue with
    | nil => simp [queue] at nonempty
    | cons first rest =>
        have bound := enough (by simp [queue])
        have more := woken first rest queue
        simp only [decide_true, Bool.toNat_true] at more
        simp only [List.take_succ_cons, List.take_zero, more]
        omega
  · have others : numV other (.v sem :: history) = numV other history := by
      simp [numV, Ne.symm same]
    rw [Function.update_of_ne same, counts, others]
    refine ⟨nonneg, total, fun nonempty => ?_⟩
    have bound := enough nonempty
    cases queue : (sems sem).queue with
    | nil => simpa using bound
    | cons first rest =>
        have more := woken first rest queue
        simp only [List.take_succ_cons, List.take_zero]
        omega

/-- Waiters of a condition variable are not woken by a `V`. -/
theorem SemsSafe.readyAll_waiting (safe : SemsSafe program initial sems threads history)
    {woken : List Thread} (waiting : ∀ thread ∈ woken, (threads thread).phase = .sleepWait) :
    SemsSafe program initial sems (readyAll woken threads) history := by
  intro sem
  have same : count (isWoken program sem) (readyAll woken threads) =
      count (isWoken program sem) threads := by
    apply count_congr
    intro thread
    by_cases member : thread ∈ woken
    · rw [readyAll_of_mem member]
      simp [isWoken, wokenOn, waiting thread member, Phase.ready]
    · rw [readyAll_of_notMem member]
  rw [same]
  exact safe sem

omit [DecidableEq Thread] in
/-- Events of locks and condition variables are not counted. -/
theorem SemsSafe.of_counts (safe : SemsSafe program initial sems threads history)
    {longer : List (Event Thread Sem Lock Cond)}
    (sameV : ∀ sem, numV sem longer = numV sem history)
    (sameP : ∀ sem, numP sem longer = numP sem history) :
    SemsSafe program initial sems threads longer := by
  intro sem
  rw [sameV, sameP]
  exact safe sem

end Operations

section Runs

variable [Fintype Thread] [DecidableEq Thread]
  {program : FlowChart Thread Vars Pc Sem Lock Cond Input Fault}
  {initial : SemRef Sem Lock → Int} {s next : SynchSystem Thread Vars Pc Sem Lock Cond}

/-- A thread that makes a call gives a unit and goes on. -/
theorem SemsSafe.afterV (sound : Sound program s)
    (safe : SemsSafe program initial s.sems s.threads s.history) (sem : SemRef Sem Lock)
    {thread : Thread} {target : Activity Pc} (phase : (s.threads thread).phase = .call)
    (after : wokenOn program target = none) :
    SemsSafe program initial
      (Function.update s.sems sem ⟨(s.sems sem).value + 1, (s.sems sem).queue.tail⟩)
      (Function.update (readyAll ((s.sems sem).queue.take 1) s.threads) thread target)
      (.v sem :: s.history) := by
  refine (safe.v sound.semQueues sem).move ?_ after
  rw [sound.readyAll_woken sem (asleepOn_of_call phase), wokenOn_of_call phase]

theorem SemsSafe.vAll (sound : Sound program s)
    (safe : SemsSafe program initial s.sems s.threads s.history) {sems : List Sem}
    (done : s.vAll sems = .ok next) :
    SemsSafe program initial next.sems next.threads next.history := by
  induction sems generalizing s with
  | nil =>
      cases done
      exact safe
  | cons sem sems ih =>
      obtain ⟨middle, given, rest⟩ := bind_eq_ok_iff.mp done
      obtain ⟨-, rfl⟩ := v_eq_ok_iff.mp given
      exact ih (sound.afterV sem) (safe.v sound.semQueues (.named sem)) rest

/-- A thread that makes a call notifies waiters and goes on. -/
theorem SemsSafe.afterRemoval (sound : Sound program s)
    (safe : SemsSafe program initial s.sems s.threads s.history) {cond : Cond}
    {woken : List Thread} (front : woken ⊆ (s.conds cond).waitCondQueue) {thread : Thread}
    (phase : (s.threads thread).phase = .call) (target : Pc) :
    SemsSafe program initial s.sems
      (Function.update (readyAll woken s.threads) thread ⟨target, .call⟩)
      ((woken.map (.removed cond)).reverse ++ s.history) := by
  have waiting : ∀ waiter ∈ woken, (s.threads waiter).phase = .sleepWait :=
    fun waiter member => sound.waiting (front member)
  have awake : thread ∉ woken := fun member => by
    rw [waiting thread member] at phase
    cases phase
  refine SemsSafe.of_counts ((safe.readyAll_waiting waiting).move ?_ (wokenOn_call target))
    (fun sem => ?_) fun sem => ?_
  · rw [readyAll_of_notMem awake, wokenOn_of_call phase]
  · simp [numV, List.countP_append, List.countP_eq_zero]
  · simp [numP, List.countP_append, List.countP_eq_zero]

variable [DecidableEq Cond]

theorem Transition.semsSafe (step : Transition program s next) (sound : Sound program s)
    (safe : SemsSafe program initial s.sems s.threads s.history) :
    SemsSafe program initial next.sems next.threads next.history := by
  cases step with
  | @run thread body input vars target code phase done =>
      exact safe.move (wokenOn_of_call phase) (wokenOn_call _)
  | @block thread sem asleep tests zero => exact safe.block tests zero
  | @p thread sem target code tests available => exact safe.p tests available target
  | @v thread sem target code phase =>
      exact safe.afterV sound (.named sem) phase (wokenOn_call _)
  | @acquire thread lock target code tests available =>
      refine SemsSafe.of_counts (safe.p tests available target) (fun sem => ?_) fun sem => ?_
      · simp [numV, goto, afterAcquire]
      · simp [numP, goto, afterAcquire]
  | @release thread lock target code phase held =>
      refine SemsSafe.of_counts (safe.afterV sound (.locked lock) phase (wokenOn_call target))
        (fun sem => ?_) fun sem => ?_
      · simp [numV, goto, afterRelease, SynchSystem.afterV, List.countP_cons]
      · simp [numP, goto, afterRelease, SynchSystem.afterV]
  | @wait thread cond target code phase held =>
      refine SemsSafe.of_counts (safe.afterV sound (.locked (program.lockOf cond)) phase ?_)
        (fun sem => ?_) fun sem => ?_
      · rfl
      · simp [numV, SynchSystem.sleep, afterRelease, SynchSystem.afterV, List.countP_cons]
      · simp [numP, SynchSystem.sleep, afterRelease, SynchSystem.afterV]
  | @reacquire thread cond target code tests available =>
      refine SemsSafe.of_counts (safe.p tests available target) (fun sem => ?_) fun sem => ?_
      · simp [numV, goto, afterAcquire]
      · simp [numP, goto, afterAcquire]
  | @signal thread cond target code phase held =>
      exact safe.afterRemoval sound (List.take_subset 1 _) phase target
  | @broadcast thread cond target code phase held =>
      exact safe.afterRemoval sound (List.Subset.refl _) phase target
  | @interrupt input vars sems target pending done =>
      exact SemsSafe.vAll (sound.withVars vars) safe done

/-- The initial value of a semaphore; the one inside a lock starts with one unit. -/
def initialValue (value : Sem → Nat) : SemRef Sem Lock → Int
  | .named sem => value sem
  | .locked _ => 1

/-- In every state that a run reaches, the value of each semaphore is non-negative and
accounts for all `V`s and all completed `P`s, and if threads are queued then it is at
most the number of threads that were woken and have yet to test it. -/
theorem semaphores_safe (program : FlowChart Thread Vars Pc Sem Lock Cond Input Fault)
    (vars : Vars) (value : Sem → Nat) (entry : Thread → Pc)
    (actions : List (Action Thread Input)) :
    AlongRun (step program) (fun s => ∀ sem : SemRef Sem Lock,
      0 ≤ (s.sems sem).value ∧
      (s.sems sem).value =
        initialValue value sem + numV sem s.history - numP sem s.history ∧
      ((s.sems sem).queue ≠ [] →
        (s.sems sem).value ≤ count (isWoken program sem) s.threads))
      (boot vars (fun sem => (value sem : Int)) entry) actions := by
  have safe : AlongRun (step program) (fun s => Sound program s ∧
      SemsSafe program (initialValue value) s.sems s.threads s.history)
      (boot vars (fun sem => (value sem : Int)) entry) actions := by
    refine alongRun_of_preserved ?_ ⟨sound_boot program vars _ entry, fun sem => ?_⟩
    · rintro s action next ⟨sound, safe⟩ done
      have step := step_transition done
      exact ⟨step.sound sound, step.semsSafe sound safe⟩
    · cases sem <;> simp [boot, initialValue, numV, numP]
  exact safe.mono fun s holds => holds.2

end Runs

end SynchSystem

end Nachos
