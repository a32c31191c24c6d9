import Nachos.SynchInvariant

/-!
# Progress of the system

Every step of `threads/synch.cc` refines the idealised monitor.  This file is about what
the system can do.  In a program whose points are labelled with the locks held there no
assertion of the operations fails.  And for programs of locks and condition variables
the system can do what the monitor can do, by a schedule in which no thread finds a lock
taken.
-/

namespace Nachos

open MesaMonitor TransitionRuns

namespace SynchSystem

variable {Thread Vars Pc Sem Lock Cond Input : Type}

section Progress

variable [DecidableEq Thread] [DecidableEq Lock] [DecidableEq Cond]
  {s : SynchSystem Thread Vars Pc Sem Lock Cond} {thread : Thread} {lock : Lock} {cond : Cond}

/-- The loop of `Broadcast` completes. -/
theorem signalAll_ok (held : s.holder lock = some thread)
    (tied : (s.conds cond).waitCondQueue ≠ [] → (s.conds cond).lock = some lock)
    (rounds : Nat) : ∃ next, s.signalAll cond lock thread rounds = .ok next := by
  induction rounds generalizing s with
  | zero => exact ⟨s, rfl⟩
  | succ rounds ih =>
      by_cases empty : (s.conds cond).waitCondQueue = []
      · exact ⟨s, by simp [signalAll, empty]⟩
      · have signalled : s.signal cond lock thread = .ok (s.afterRemoval cond
            ((s.conds cond).waitCondQueue.take 1) (s.conds cond).waitCondQueue.tail) :=
          signal_eq_ok_iff.mpr ⟨held, tied, rfl⟩
        obtain ⟨next, rest⟩ := ih (s := s.afterRemoval cond
            ((s.conds cond).waitCondQueue.take 1) (s.conds cond).waitCondQueue.tail) held
          fun _ => by simpa [afterRemoval] using tied empty
        refine ⟨next, ?_⟩
        rw [signalAll, if_neg empty, signalled]
        exact rest

theorem broadcast_ok (held : s.holder lock = some thread)
    (tied : (s.conds cond).waitCondQueue ≠ [] → (s.conds cond).lock = some lock) :
    s.broadcast cond lock thread = .ok (s.afterRemoval cond (s.conds cond).waitCondQueue []) := by
  obtain ⟨next, done⟩ := signalAll_ok held tied (s.conds cond).waitCondQueue.length
  have completes : s.broadcast cond lock thread = .ok next := by
    rw [broadcast, if_pos held, done]
  obtain ⟨-, -, rfl⟩ := broadcast_eq_ok completes
  exact completes

end Progress

section Faults

theorem Sound.locked_lt {program : FlowChart Thread Vars Pc Sem Lock Cond Input Fault}
    {s : SynchSystem Thread Vars Pc Sem Lock Cond} (sound : Sound program s) (lock : Lock) :
    (s.sems (.locked lock)).value < 2 ^ 31 - 1 := by
  rcases sound.locked lock with ⟨-, value⟩ | ⟨-, value⟩ <;> rw [value] <;> decide

variable [DecidableEq Thread] [DecidableEq Sem] [DecidableEq Lock]
  {s : SynchSystem Thread Vars Pc Sem Lock Cond} {reason : Fault}

theorem v_ne_fault (sem : SemRef Sem Lock) : s.v sem ≠ .error (.fault reason) := by
  unfold v
  split
  · exact nofun
  · cases (s.sems sem).queue <;> exact nofun

theorem vAll_ne_fault (sems : List Sem) : s.vAll sems ≠ .error (.fault reason) := by
  induction sems generalizing s with
  | nil => exact nofun
  | cons sem sems ih =>
      intro failed
      rcases bind_eq_error_iff.mp failed with failed | ⟨middle, -, failed⟩
      · exact v_ne_fault _ failed
      · exact ih failed

theorem release_ne_fault {lock : Lock} {thread : Thread} (held : s.holder lock = some thread) :
    s.release lock thread ≠ .error (.fault reason) := by
  rw [release, if_pos held]
  exact v_ne_fault _

variable [DecidableEq Cond] {program : FlowChart Thread Vars Pc Sem Lock Cond Input Fault}
  {critical : Pc → Option Lock}

omit [DecidableEq Thread] [DecidableEq Sem] [DecidableEq Lock] [DecidableEq Cond] in
/-- A thread that makes a call holds the lock that the label of its point names. -/
theorem holder_eq (exclusive : Exclusive critical s.monitor) {thread : Thread} {lock : Lock}
    (phase : (s.threads thread).phase = .call)
    (held : critical (s.threads thread).pc = some lock) : s.holder lock = some thread := by
  apply (exclusive lock thread).mpr
  rw [show s.monitor.stage thread = .active (s.threads thread).pc from stageOf_of_call phase]
  exact held

/-- No assertion of the operations on locks and condition variables fails: if a step
fails then straight-line code or an interrupt handler does. -/
theorem Sound.step_fault (sound : Sound program s) (exclusive : Exclusive critical s.monitor)
    (labelled : program.Labelled critical) {action : Action Thread Input}
    (failed : step program s action = .error (.fault reason)) :
    (∃ thread input body, action = .thread thread input ∧
      program.code (s.threads thread).pc = .run body ∧
      (s.threads thread).phase = .call ∧ body thread input s.vars = .error reason) ∨
    ∃ input, program.interrupt input s.vars = some (.error reason) := by
  cases action with
  | interrupt input =>
      simp only [step] at failed
      split at failed
      · cases failed
      · next pending =>
        cases failed
        exact Or.inr ⟨input, pending⟩
      · exact absurd failed (vAll_ne_fault _)
  | thread thread input =>
      change s.stepThread program thread input = _ at failed
      have label := labelled (s.threads thread).pc
      cases code : program.code (s.threads thread).pc with
      | run body =>
          cases phase : (s.threads thread).phase with
          | call =>
              simp only [stepThread, code, phase] at failed
              split at failed
              · cases failed
              · next error =>
                cases failed
                exact Or.inl ⟨thread, input, body, rfl, code, phase, error⟩
          | _ => simp [stepThread, code, phase] at failed
      | p sem target | acquire lock target =>
          cases phase : (s.threads thread).phase <;> simp [stepThread, code, phase] at failed
      | v sem target =>
          cases phase : (s.threads thread).phase with
          | call =>
              simp only [stepThread, code, phase] at failed
              rcases bind_eq_error_iff.mp failed with failed | ⟨middle, -, failed⟩
              · exact absurd failed (v_ne_fault _)
              · cases failed
          | _ => simp [stepThread, code, phase] at failed
      | release lock target =>
          rw [code] at label
          cases phase : (s.threads thread).phase with
          | call =>
              simp only [stepThread, code, phase] at failed
              rcases bind_eq_error_iff.mp failed with failed | ⟨middle, -, failed⟩
              · exact absurd failed (release_ne_fault (holder_eq exclusive phase label.1))
              · cases failed
          | _ => simp [stepThread, code, phase] at failed
      | wait cond target =>
          rw [code] at label
          cases phase : (s.threads thread).phase with
          | call =>
              have held := holder_eq exclusive phase label.1
              simp only [stepThread, code, phase] at failed
              have done := wait_eq_ok_iff.mpr
                ⟨held, sound.tied cond, sound.locked_lt (program.lockOf cond), rfl⟩
              rw [done] at failed
              cases failed
          | _ => simp [stepThread, code, phase] at failed
      | signal cond target =>
          rw [code] at label
          cases phase : (s.threads thread).phase with
          | call =>
              have held := holder_eq exclusive phase label.1
              simp only [stepThread, code, phase] at failed
              rw [signal_eq_ok_iff.mpr ⟨held, sound.tied cond, rfl⟩] at failed
              cases failed
          | _ => simp [stepThread, code, phase] at failed
      | broadcast cond target =>
          rw [code] at label
          cases phase : (s.threads thread).phase with
          | call =>
              have held := holder_eq exclusive phase label.1
              simp only [stepThread, code, phase] at failed
              rw [broadcast_ok held (sound.tied cond)] at failed
              cases failed
          | _ => simp [stepThread, code, phase] at failed

end Faults

section Calm

variable {program : FlowChart Thread Vars Pc Sem Lock Cond Input Fault}

/-- No thread is in the middle of a `P`. -/
def Calm (threads : Thread → Activity Pc) : Prop :=
  ∀ thread, (threads thread).phase = .call ∨ (threads thread).phase = .sleepWait ∨
    (threads thread).phase = .reacquire

variable {s next : SynchSystem Thread Vars Pc Sem Lock Cond}

theorem Calm.active {threads : Thread → Activity Pc} (calm : Calm threads) {thread : Thread}
    {pc : Pc} (here : stageOf (threads thread) = .active pc) :
    threads thread = ⟨pc, .call⟩ := by
  rcases calm thread with phase | phase | phase
  · simp only [stageOf, phase, Stage.active.injEq] at here
    rw [← here, ← phase]
  · simp [stageOf, phase] at here
  · simp [stageOf, phase] at here

theorem Calm.signalled {threads : Thread → Activity Pc} (calm : Calm threads) {thread : Thread}
    {pc : Pc} (here : stageOf (threads thread) = .signalled pc) :
    threads thread = ⟨pc, .reacquire⟩ := by
  rcases calm thread with phase | phase | phase
  · simp [stageOf, phase] at here
  · simp [stageOf, phase] at here
  · simp only [stageOf, phase, Stage.signalled.injEq] at here
    rw [← here, ← phase]

variable [DecidableEq Thread]

theorem Calm.update {threads : Thread → Activity Pc} (calm : Calm threads) (thread : Thread)
    {target : Activity Pc} (phase : target.phase = .call ∨ target.phase = .sleepWait ∨
      target.phase = .reacquire) : Calm (Function.update threads thread target) := by
  intro other
  by_cases same : other = thread
  · subst same
    rwa [Function.update_self]
  · rw [Function.update_of_ne same]
    exact calm other

theorem Calm.readyAll {threads : Thread → Activity Pc} (calm : Calm threads)
    (woken : List Thread) : Calm (readyAll woken threads) := by
  intro thread
  unfold SynchSystem.readyAll
  split
  · rcases calm thread with phase | phase | phase <;> simp [phase, Phase.ready]
  · exact calm thread

variable [DecidableEq Sem] [DecidableEq Lock] [DecidableEq Cond] [Inhabited Input]

/-- A step of the monitor at a point that does not give units to a semaphore is a step
of the system. -/
theorem Calm.realize (calm : Calm s.threads) (sound : Sound program s)
    (noUnits : ∀ pc sem target, program.code pc ≠ .v sem target)
    (noInterrupt : ∀ input vars, program.interrupt input vars = none)
    {target : State Thread Vars Pc Sem Lock Cond} (step : Step program s.monitor target) :
    ∃ action next, SynchSystem.step program s action = .ok next ∧ next.monitor = target ∧
      Calm next.threads := by
  cases step with
  | @run thread pc body input vars goal here code done =>
      have isHere := calm.active here
      refine ⟨.thread thread input, { s with vars := vars }.goto thread goal, ?_,
        monitor_run s thread vars goal, calm.update thread (Or.inl rfl)⟩
      have done : body thread input s.vars = .ok (vars, goal) := done
      simp [SynchSystem.step, stepThread, isHere, code, done]
  | @p thread pc sem goal here code available =>
      have isHere := calm.active here
      refine ⟨.thread thread default, (s.afterP (.named sem) thread).goto thread goal, ?_,
        monitor_p s thread sem goal, calm.update thread (Or.inl rfl)⟩
      have available : (s.sems (.named sem)).value ≠ 0 := available
      simp [SynchSystem.step, stepThread, isHere, code, p, available, afterP]
  | v here code => exact absurd code (noUnits _ _ _)
  | @acquire thread pc lock goal here code free =>
      have isHere := calm.active here
      refine ⟨.thread thread default, (s.afterAcquire lock thread).goto thread goal, ?_,
        monitor_acquire s thread lock goal, calm.update thread (Or.inl rfl)⟩
      have available := (sound.free_iff lock).mpr free
      simp [SynchSystem.step, stepThread, isHere, code, acquire, p, available, afterAcquire,
        afterP]
  | @release thread pc lock goal here code held =>
      have isHere := calm.active here
      refine ⟨.thread thread default, (s.afterRelease lock thread).goto thread goal, ?_,
        sound.monitor_release thread lock goal, (calm.readyAll _).update thread (Or.inl rfl)⟩
      have released := release_eq_ok_iff.mpr ⟨held, sound.locked_lt lock, rfl⟩
      simp [SynchSystem.step, stepThread, isHere, code, released]
  | @wait thread pc cond goal here code held =>
      have isHere := calm.active here
      refine ⟨.thread thread default, _, ?_, (sound.monitor_wait thread cond).trans ?_,
        (calm.readyAll _).update thread (Or.inr (Or.inl rfl))⟩
      · simp only [SynchSystem.step, stepThread, isHere, code]
        exact wait_eq_ok_iff.mpr ⟨held, sound.tied cond, sound.locked_lt _, rfl⟩
      · rw [isHere]
  | @resume thread pc cond goal here code free =>
      have isHere := calm.signalled here
      refine ⟨.thread thread default, _, ?_,
        monitor_reacquire s thread (program.lockOf cond) cond goal,
        calm.update thread (Or.inl rfl)⟩
      have available := (sound.free_iff (program.lockOf cond)).mpr free
      simp [SynchSystem.step, stepThread, isHere, code, acquire, p, available, afterAcquire,
        afterP]
  | @signal thread pc cond goal here code held =>
      have isHere := calm.active here
      refine ⟨.thread thread default, _, ?_, sound.monitor_signal thread cond goal,
        (calm.readyAll _).update thread (Or.inl rfl)⟩
      have signalled := signal_eq_ok_iff.mpr ⟨held, sound.tied cond, rfl⟩
      simp [SynchSystem.step, stepThread, isHere, code, signalled]
  | @broadcast thread pc cond goal here code held =>
      have isHere := calm.active here
      refine ⟨.thread thread default, _, ?_, sound.monitor_broadcast thread cond goal,
        (calm.readyAll _).update thread (Or.inl rfl)⟩
      have signalled := broadcast_ok held (sound.tied cond)
      simp [SynchSystem.step, stepThread, isHere, code, signalled]
  | interrupt pending =>
      rw [noInterrupt] at pending
      cases pending

/-- Each state that the monitor reaches from its start is reached by the system. -/
theorem exists_run_of_reachable
    (noUnits : ∀ pc sem target, program.code pc ≠ .v sem target)
    (noInterrupt : ∀ input vars, program.interrupt input vars = none)
    {vars : Vars} {value : Sem → Int} {entry : Thread → Pc}
    {target : State Thread Vars Pc Sem Lock Cond}
    (reached : Reachable program (State.start vars value entry) target) :
    ∃ actions last, run (SynchSystem.step program) (boot vars value entry) actions = .ok last ∧
      last.monitor = target ∧ Calm last.threads ∧ Sound program last := by
  induction reached with
  | start =>
      exact ⟨[], boot vars value entry, rfl, rfl, fun _ => Or.inl rfl,
        sound_boot program vars value entry⟩
  | @step middle final reached step ih =>
      obtain ⟨actions, s, done, rfl, calm, sound⟩ := ih
      obtain ⟨action, next, stepped, equal, stillCalm⟩ :=
        calm.realize sound noUnits noInterrupt step
      refine ⟨actions ++ [action], next, ?_, equal, stillCalm,
        (step_transition stepped).sound sound⟩
      exact run_append_eq_ok_iff.mpr ⟨s, done, by rw [run_cons_of_ok stepped, run_nil]⟩

end Calm

end SynchSystem

end Nachos
