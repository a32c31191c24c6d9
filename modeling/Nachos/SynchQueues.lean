import Nachos.Synch

/-!
# The queues of the semaphores

What the operations of `threads/synch.cc` do, in closed form, and the invariant of
the semaphores' queues: a thread is on the queue of a semaphore exactly while it
sleeps in a `P` of that semaphore.
-/

namespace Nachos

open MesaMonitor TransitionRuns

namespace Phase

@[simp]
theorem ready_ready (phase : Phase) : phase.ready.ready = phase.ready := by
  cases phase <;> rfl

end Phase

namespace SynchSystem

variable {Thread Vars Pc Sem Lock Cond Input : Type}

/-- The listed threads are put on the ready list. -/
def readyAll [DecidableEq Thread] (woken : List Thread) (threads : Thread → Activity Pc) :
    Thread → Activity Pc :=
  fun thread =>
    if thread ∈ woken then { threads thread with phase := (threads thread).phase.ready }
    else threads thread

section ReadyAll

variable [DecidableEq Thread] {threads : Thread → Activity Pc}

@[simp]
theorem readyAll_nil : readyAll [] threads = threads := by
  ext thread
  simp [readyAll]

theorem readyAll_of_notMem {woken : List Thread} {thread : Thread} (absent : thread ∉ woken) :
    readyAll woken threads thread = threads thread := by
  simp [readyAll, absent]

theorem readyAll_of_mem {woken : List Thread} {thread : Thread} (member : thread ∈ woken) :
    readyAll woken threads thread =
      { threads thread with phase := (threads thread).phase.ready } := by
  simp [readyAll, member]

@[simp]
theorem readyAll_pc (woken : List Thread) (thread : Thread) :
    (readyAll woken threads thread).pc = (threads thread).pc := by
  unfold readyAll
  split <;> rfl

theorem readyAll_singleton (thread : Thread) :
    readyAll [thread] threads =
      Function.update threads thread
        { threads thread with phase := (threads thread).phase.ready } := by
  ext other
  by_cases same : other = thread
  · subst same
    simp [readyAll]
  · simp [readyAll, same]

/-- Threads that are put on the ready list one after the other. -/
theorem readyAll_cons (first : Thread) (woken : List Thread) :
    readyAll woken (readyAll [first] threads) = readyAll (first :: woken) threads := by
  ext thread
  by_cases isFirst : thread = first <;> by_cases member : thread ∈ woken <;>
    simp [readyAll, isFirst, member]

end ReadyAll

section Removal

variable [DecidableEq Thread] [DecidableEq Cond]

/-- The state after waiters at the front of a queue were taken off it. -/
def afterRemoval (s : SynchSystem Thread Vars Pc Sem Lock Cond) (cond : Cond)
    (woken rest : List Thread) : SynchSystem Thread Vars Pc Sem Lock Cond :=
  { s with
    conds := Function.update s.conds cond ⟨rest, (s.conds cond).lock⟩
    threads := readyAll woken s.threads
    history := (woken.map (.removed cond)).reverse ++ s.history }

variable {s next : SynchSystem Thread Vars Pc Sem Lock Cond} {thread : Thread} {lock : Lock}
  {cond : Cond}

/-- Two removals in a row. -/
theorem afterRemoval_afterRemoval (first : Thread) (woken rest : List Thread) :
    (s.afterRemoval cond [first] (woken ++ rest)).afterRemoval cond woken rest =
      s.afterRemoval cond (first :: woken) rest := by
  simp [afterRemoval, readyAll_cons]

variable [DecidableEq Lock]

theorem signal_eq_ok_iff :
    s.signal cond lock thread = .ok next ↔
      s.holder lock = some thread ∧
        ((s.conds cond).waitCondQueue ≠ [] → (s.conds cond).lock = some lock) ∧
        next = s.afterRemoval cond ((s.conds cond).waitCondQueue.take 1)
          (s.conds cond).waitCondQueue.tail := by
  unfold signal
  by_cases held : s.holder lock = some thread
  · simp only [held, if_true, true_and]
    cases queue : (s.conds cond).waitCondQueue with
    | nil =>
        have same : (⟨[], (s.conds cond).lock⟩ : Condition Thread Lock) = s.conds cond := by
          rw [← queue]
        simp only [afterRemoval, List.take_nil, List.tail_nil, same, Function.update_eq_self,
          readyAll_nil, List.map_nil, List.reverse_nil, List.nil_append, ne_eq,
          not_true_eq_false, false_implies, true_and, Except.ok.injEq]
        exact eq_comm
    | cons first rest =>
        by_cases tied : (s.conds cond).lock = some lock
        · simp [tied, afterRemoval, readyToRun, readyAll_singleton, eq_comm]
        · simp [tied]
  · simp [held]

theorem signalAll_eq_ok (held : s.holder lock = some thread) {queue : List Thread}
    (isQueue : (s.conds cond).waitCondQueue = queue)
    (done : s.signalAll cond lock thread queue.length = .ok next) :
    (queue ≠ [] → (s.conds cond).lock = some lock) ∧ next = s.afterRemoval cond queue [] := by
  induction queue generalizing s with
  | nil =>
      have same : (⟨[], (s.conds cond).lock⟩ : Condition Thread Lock) = s.conds cond := by
        rw [← isQueue]
      cases done
      simp [afterRemoval, same]
  | cons first rest ih =>
      simp only [List.length_cons, signalAll, isQueue, reduceCtorEq, if_false] at done
      obtain ⟨middle, signalled, rounds⟩ := bind_eq_ok_iff.mp done
      obtain ⟨-, tied, equal⟩ := signal_eq_ok_iff.mp signalled
      rw [isQueue, List.take_succ_cons, List.take_zero, List.tail_cons] at equal
      subst equal
      have stillHeld : (s.afterRemoval cond [first] rest).holder lock = some thread := held
      obtain ⟨-, rfl⟩ := ih stillHeld (by simp [afterRemoval]) rounds
      refine ⟨fun _ => tied (by simp [isQueue]), ?_⟩
      have merged : (s.afterRemoval cond [first] (rest ++ [])).afterRemoval cond rest [] =
          s.afterRemoval cond (first :: rest) [] := afterRemoval_afterRemoval first rest []
      rwa [List.append_nil] at merged

theorem broadcast_eq_ok (done : s.broadcast cond lock thread = .ok next) :
    s.holder lock = some thread ∧
      ((s.conds cond).waitCondQueue ≠ [] → (s.conds cond).lock = some lock) ∧
      next = s.afterRemoval cond (s.conds cond).waitCondQueue [] := by
  unfold broadcast at done
  split at done
  next held =>
    obtain ⟨tied, equal⟩ := signalAll_eq_ok held rfl done
    exact ⟨held, tied, equal⟩
  next => cases done

end Removal

section Release

variable [DecidableEq Thread] [DecidableEq Sem] [DecidableEq Lock]

/-- The state after a `V` that does not overflow. -/
def afterV (s : SynchSystem Thread Vars Pc Sem Lock Cond) (sem : SemRef Sem Lock) :
    SynchSystem Thread Vars Pc Sem Lock Cond :=
  { s with
    sems := Function.update s.sems sem ⟨(s.sems sem).value + 1, (s.sems sem).queue.tail⟩
    threads := readyAll ((s.sems sem).queue.take 1) s.threads
    history := .v sem :: s.history }

/-- The state after `Release`. -/
def afterRelease (s : SynchSystem Thread Vars Pc Sem Lock Cond) (lock : Lock)
    (thread : Thread) : SynchSystem Thread Vars Pc Sem Lock Cond :=
  { s with
    holder := Function.update s.holder lock none
    history := .released lock thread :: s.history }.afterV (.locked lock)

variable {s next : SynchSystem Thread Vars Pc Sem Lock Cond} {thread : Thread} {lock : Lock}
  {cond : Cond} {sem : SemRef Sem Lock}

theorem v_eq_ok_iff :
    s.v sem = .ok next ↔ (s.sems sem).value < 2 ^ 31 - 1 ∧ next = s.afterV sem := by
  unfold v afterV
  by_cases overflow : 2 ^ 31 - 1 ≤ (s.sems sem).value
  · simp only [overflow, if_true]
    constructor
    · exact nofun
    · rintro ⟨below, -⟩
      omega
  · have below : (s.sems sem).value < 2 ^ 31 - 1 := by omega
    simp only [overflow, if_false, below, true_and]
    cases queue : (s.sems sem).queue with
    | nil => simp [eq_comm]
    | cons first rest => simp [readyToRun, readyAll_singleton, eq_comm]

theorem release_eq_ok_iff :
    s.release lock thread = .ok next ↔
      s.holder lock = some thread ∧ (s.sems (.locked lock)).value < 2 ^ 31 - 1 ∧
        next = s.afterRelease lock thread := by
  unfold release
  by_cases held : s.holder lock = some thread
  · simp only [held, if_true, true_and, v_eq_ok_iff]
    rfl
  · simp [held]

theorem release_bind_eq_ok_iff
    {finish : SynchSystem Thread Vars Pc Sem Lock Cond →
      SynchSystem Thread Vars Pc Sem Lock Cond} :
    (s.release lock thread >>= fun s => .ok (finish s)) = .ok next ↔
      s.holder lock = some thread ∧ (s.sems (.locked lock)).value < 2 ^ 31 - 1 ∧
        next = finish (s.afterRelease lock thread) := by
  rw [bind_eq_ok_iff]
  constructor
  · rintro ⟨middle, released, finished⟩
    obtain ⟨held, below, rfl⟩ := release_eq_ok_iff.mp released
    cases finished
    exact ⟨held, below, rfl⟩
  · rintro ⟨held, below, rfl⟩
    exact ⟨_, release_eq_ok_iff.mpr ⟨held, below, rfl⟩, rfl⟩

variable [DecidableEq Cond]

theorem wait_eq_ok_iff :
    s.wait cond lock thread = .ok next ↔
      s.holder lock = some thread ∧
        ((s.conds cond).waitCondQueue ≠ [] → (s.conds cond).lock = some lock) ∧
        (s.sems (.locked lock)).value < 2 ^ 31 - 1 ∧
        next = ({ s with
          conds := Function.update s.conds cond
            ⟨(s.conds cond).waitCondQueue ++ [thread], some lock⟩
          history := .queued cond thread :: s.history }.afterRelease lock thread).sleep thread
            .sleepWait := by
  unfold wait
  by_cases held : s.holder lock = some thread
  · simp only [held, if_true, true_and]
    by_cases empty : (s.conds cond).waitCondQueue = []
    · simp only [empty, if_true, ne_eq, not_true_eq_false, false_implies, true_and]
      exact release_bind_eq_ok_iff.trans (by simp [held])
    · by_cases tied : (s.conds cond).lock = some lock
      · simp only [empty, tied, if_true, if_false, implies_true, true_and]
        exact release_bind_eq_ok_iff.trans (by simp [held])
      · simp [empty, tied]
  · simp [held]

end Release

section Transitions

variable [DecidableEq Thread] [DecidableEq Sem] [DecidableEq Lock] [DecidableEq Cond]

/-- The thread is about to test the `value` of a semaphore, and sleeps in the given
phase if it is 0. -/
inductive Tests (program : FlowChart Thread Vars Pc Sem Lock Cond Input Fault) :
    Activity Pc → SemRef Sem Lock → Phase → Prop
  | p {activity sem next} (code : program.code activity.pc = .p sem next)
      (phase : activity.phase = .call ∨ activity.phase = .retryP) :
      Tests program activity (.named sem) .sleepP
  | acquire {activity lock next} (code : program.code activity.pc = .acquire lock next)
      (phase : activity.phase = .call ∨ activity.phase = .retryP) :
      Tests program activity (.locked lock) .sleepP
  | wait {activity cond next} (code : program.code activity.pc = .wait cond next)
      (phase : activity.phase = .reacquire ∨ activity.phase = .retryReacquire) :
      Tests program activity (.locked (program.lockOf cond)) .sleepReacquire

/-- The thread queues itself on a semaphore and sleeps. -/
def afterBlock (s : SynchSystem Thread Vars Pc Sem Lock Cond) (sem : SemRef Sem Lock)
    (thread : Thread) (asleep : Phase) : SynchSystem Thread Vars Pc Sem Lock Cond :=
  { s with
    sems := Function.update s.sems sem
      { s.sems sem with queue := (s.sems sem).queue ++ [thread] } }.sleep thread asleep

/-- The thread gets a unit of a semaphore. -/
def afterP (s : SynchSystem Thread Vars Pc Sem Lock Cond) (sem : SemRef Sem Lock)
    (thread : Thread) : SynchSystem Thread Vars Pc Sem Lock Cond :=
  { s with
    sems := Function.update s.sems sem { s.sems sem with value := (s.sems sem).value - 1 }
    history := .p sem thread :: s.history }

/-- The thread gets a lock. -/
def afterAcquire (s : SynchSystem Thread Vars Pc Sem Lock Cond) (lock : Lock)
    (thread : Thread) : SynchSystem Thread Vars Pc Sem Lock Cond :=
  { s.afterP (.locked lock) thread with
    holder := Function.update s.holder lock (some thread)
    history := .acquired lock thread :: .p (.locked lock) thread :: s.history }

/-- The completed steps of a system, in closed form. -/
inductive Transition (program : FlowChart Thread Vars Pc Sem Lock Cond Input Fault)
    (s : SynchSystem Thread Vars Pc Sem Lock Cond) :
    SynchSystem Thread Vars Pc Sem Lock Cond → Prop
  | run {thread body input vars next}
      (code : program.code (s.threads thread).pc = .run body)
      (phase : (s.threads thread).phase = .call)
      (done : body thread input s.vars = .ok (vars, next)) :
      Transition program s ({ s with vars := vars }.goto thread next)
  | block {thread sem asleep} (tests : Tests program (s.threads thread) sem asleep)
      (zero : (s.sems sem).value = 0) :
      Transition program s (s.afterBlock sem thread asleep)
  | p {thread sem next} (code : program.code (s.threads thread).pc = .p sem next)
      (tests : Tests program (s.threads thread) (.named sem) .sleepP)
      (available : (s.sems (.named sem)).value ≠ 0) :
      Transition program s ((s.afterP (.named sem) thread).goto thread next)
  | v {thread sem next} (code : program.code (s.threads thread).pc = .v sem next)
      (phase : (s.threads thread).phase = .call) :
      Transition program s ((s.afterV (.named sem)).goto thread next)
  | acquire {thread lock next}
      (code : program.code (s.threads thread).pc = .acquire lock next)
      (tests : Tests program (s.threads thread) (.locked lock) .sleepP)
      (available : (s.sems (.locked lock)).value ≠ 0) :
      Transition program s ((s.afterAcquire lock thread).goto thread next)
  | release {thread lock next}
      (code : program.code (s.threads thread).pc = .release lock next)
      (phase : (s.threads thread).phase = .call) (held : s.holder lock = some thread) :
      Transition program s ((s.afterRelease lock thread).goto thread next)
  | wait {thread cond next} (code : program.code (s.threads thread).pc = .wait cond next)
      (phase : (s.threads thread).phase = .call)
      (held : s.holder (program.lockOf cond) = some thread) :
      Transition program s
        (({ s with
          conds := Function.update s.conds cond
            ⟨(s.conds cond).waitCondQueue ++ [thread], some (program.lockOf cond)⟩
          history := .queued cond thread :: s.history }.afterRelease (program.lockOf cond)
            thread).sleep thread .sleepWait)
  | reacquire {thread cond next}
      (code : program.code (s.threads thread).pc = .wait cond next)
      (tests : Tests program (s.threads thread) (.locked (program.lockOf cond))
        .sleepReacquire)
      (available : (s.sems (.locked (program.lockOf cond))).value ≠ 0) :
      Transition program s
        ({ s.afterAcquire (program.lockOf cond) thread with
          history := .returned cond thread ::
            (s.afterAcquire (program.lockOf cond) thread).history }.goto thread next)
  | signal {thread cond next} (code : program.code (s.threads thread).pc = .signal cond next)
      (phase : (s.threads thread).phase = .call)
      (held : s.holder (program.lockOf cond) = some thread) :
      Transition program s
        ((s.afterRemoval cond ((s.conds cond).waitCondQueue.take 1)
          (s.conds cond).waitCondQueue.tail).goto thread next)
  | broadcast {thread cond next}
      (code : program.code (s.threads thread).pc = .broadcast cond next)
      (phase : (s.threads thread).phase = .call)
      (held : s.holder (program.lockOf cond) = some thread) :
      Transition program s
        ((s.afterRemoval cond (s.conds cond).waitCondQueue []).goto thread next)
  | interrupt {input vars sems next}
      (pending : program.interrupt input s.vars = some (.ok (vars, sems)))
      (done : { s with vars := vars }.vAll sems = .ok next) : Transition program s next

variable {program : FlowChart Thread Vars Pc Sem Lock Cond Input Fault}
  {s next : SynchSystem Thread Vars Pc Sem Lock Cond}

omit [DecidableEq Cond] in
theorem p_cases (s : SynchSystem Thread Vars Pc Sem Lock Cond) (sem : SemRef Sem Lock)
    (thread : Thread) (asleep : Phase)
    (finish : SynchSystem Thread Vars Pc Sem Lock Cond →
      SynchSystem Thread Vars Pc Sem Lock Cond) :
    ((s.sems sem).value = 0 ∧ s.p sem thread asleep finish = s.afterBlock sem thread asleep) ∨
      ((s.sems sem).value ≠ 0 ∧ s.p sem thread asleep finish = finish (s.afterP sem thread)) := by
  by_cases zero : (s.sems sem).value = 0
  · exact Or.inl ⟨zero, if_pos zero⟩
  · exact Or.inr ⟨zero, if_neg zero⟩

theorem stepThread_transition {thread : Thread} {input : Input}
    (done : s.stepThread program thread input = .ok next) : Transition program s next := by
  cases code : program.code (s.threads thread).pc with
  | run body =>
      cases phase : (s.threads thread).phase <;>
        simp only [stepThread, code, phase, reduceCtorEq] at done
      split at done
      next vars target ran =>
        cases done
        exact .run code phase ran
      next => cases done
  | p sem target =>
      have tests : (s.threads thread).phase = .call ∨ (s.threads thread).phase = .retryP := by
        cases phase : (s.threads thread).phase <;>
          simp only [stepThread, code, phase, reduceCtorEq] at done <;> simp
      have result : s.p (.named sem) thread .sleepP (fun s => s.goto thread target) = next := by
        rcases tests with phase | phase <;>
          simpa only [stepThread, code, phase, Except.ok.injEq] using done
      subst result
      rcases p_cases s (.named sem) thread .sleepP fun s => s.goto thread target with
        ⟨zero, equal⟩ | ⟨available, equal⟩
      · rw [equal]
        exact .block (.p code tests) zero
      · rw [equal]
        exact .p code (.p code tests) available
  | v sem target =>
      cases phase : (s.threads thread).phase <;>
        simp only [stepThread, code, phase, reduceCtorEq] at done
      obtain ⟨middle, given, finished⟩ := bind_eq_ok_iff.mp done
      obtain ⟨-, rfl⟩ := v_eq_ok_iff.mp given
      cases finished
      exact .v code phase
  | acquire lock target =>
      have tests : (s.threads thread).phase = .call ∨ (s.threads thread).phase = .retryP := by
        cases phase : (s.threads thread).phase <;>
          simp only [stepThread, code, phase, reduceCtorEq] at done <;> simp
      have result : s.acquire lock thread .sleepP (fun s => s.goto thread target) = next := by
        rcases tests with phase | phase <;>
          simpa only [stepThread, code, phase, Except.ok.injEq] using done
      subst result
      rcases p_cases s (.locked lock) thread .sleepP _ with
        ⟨zero, equal⟩ | ⟨available, equal⟩
      · rw [acquire, equal]
        exact .block (.acquire code tests) zero
      · rw [acquire, equal]
        exact .acquire code (.acquire code tests) available
  | release lock target =>
      cases phase : (s.threads thread).phase <;>
        simp only [stepThread, code, phase, reduceCtorEq] at done
      obtain ⟨held, -, rfl⟩ := release_bind_eq_ok_iff.mp done
      exact .release code phase held
  | wait cond target =>
      by_cases phase : (s.threads thread).phase = .call
      · simp only [stepThread, code, phase] at done
        obtain ⟨held, -, -, rfl⟩ := wait_eq_ok_iff.mp done
        exact .wait code phase held
      have tests : (s.threads thread).phase = .reacquire ∨
          (s.threads thread).phase = .retryReacquire := by
        cases other : (s.threads thread).phase <;>
          simp only [stepThread, code, other, reduceCtorEq] at done <;>
          first | exact absurd other phase | simp
      have result : s.acquire (program.lockOf cond) thread .sleepReacquire (fun s =>
          { s with history := .returned cond thread :: s.history }.goto thread target) =
          next := by
        rcases tests with phase | phase <;>
          simpa only [stepThread, code, phase, Except.ok.injEq] using done
      subst result
      rcases p_cases s (.locked (program.lockOf cond)) thread .sleepReacquire _ with
        ⟨zero, equal⟩ | ⟨available, equal⟩
      · rw [acquire, equal]
        exact .block (.wait code tests) zero
      · rw [acquire, equal]
        exact .reacquire code (.wait code tests) available
  | signal cond target =>
      cases phase : (s.threads thread).phase <;>
        simp only [stepThread, code, phase, reduceCtorEq] at done
      obtain ⟨middle, signalled, finished⟩ := bind_eq_ok_iff.mp done
      obtain ⟨held, -, rfl⟩ := signal_eq_ok_iff.mp signalled
      cases finished
      exact .signal code phase held
  | broadcast cond target =>
      cases phase : (s.threads thread).phase <;>
        simp only [stepThread, code, phase, reduceCtorEq] at done
      obtain ⟨middle, signalled, finished⟩ := bind_eq_ok_iff.mp done
      obtain ⟨held, -, rfl⟩ := broadcast_eq_ok signalled
      cases finished
      exact .broadcast code phase held

/-- Every completed step is one of the transitions. -/
theorem step_transition {action : Action Thread Input}
    (done : s.step program action = .ok next) : Transition program s next := by
  cases action with
  | thread thread input => exact stepThread_transition done
  | interrupt input =>
      simp only [step] at done
      split at done
      next => cases done
      next => cases done
      next vars sems pending => exact .interrupt pending done

end Transitions

end SynchSystem

end Nachos
