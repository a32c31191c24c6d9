import Nachos.SynchInvariant

/-!
# Locks and condition variables have Mesa semantics

The history of a run tells what each thread has done with the locks and condition
variables.  Read against it, at most one thread is inside a lock, `holder` names it,
and each thread that returns from `Wait` was taken off the queue exactly once since it
queued itself.  A queue is served in the order in which threads joined it.
-/

namespace Nachos

open MesaMonitor TransitionRuns

namespace SynchSystem

variable {Thread Vars Pc Sem Lock Cond Input : Type}

section Histories

variable [DecidableEq Thread]

/-- Since it last acquired the lock the thread has not released it.  `Wait` releases
the lock when it is called and has acquired it when it returns. -/
def isInside [DecidableEq Lock] (lock : Lock) (thread : Thread) :
    List (Event Thread Sem Lock Cond) → Bool
  | [] => false
  | .acquired otherLock other :: history =>
      if otherLock = lock ∧ other = thread then true else isInside lock thread history
  | .released otherLock other :: history =>
      if otherLock = lock ∧ other = thread then false else isInside lock thread history
  | _ :: history => isInside lock thread history

/-- What happened to the calls of `Wait` of a thread, the newest event first. -/
def waitsOf (thread : Thread) (history : List (Event Thread Sem Lock Cond)) :
    List (Event Thread Sem Lock Cond) :=
  history.filter fun
    | .queued _ other | .removed _ other | .returned _ other => decide (other = thread)
    | _ => false

/-- Each return from `Wait` follows a removal from the queue that was joined before, and
a thread joins a queue only after it has returned from its last `Wait`. -/
def Rounds : List (Event Thread Sem Lock Cond) → Prop
  | [] => True
  | .queued _ thread :: earlier =>
      (∀ event ∈ earlier.head?, ∃ cond, event = .returned cond thread) ∧ Rounds earlier
  | .removed cond thread :: earlier =>
      earlier.head? = some (.queued cond thread) ∧ Rounds earlier
  | .returned cond thread :: earlier =>
      earlier.head? = some (.removed cond thread) ∧ Rounds earlier
  | _ => False

/-- When a call of `Wait` returned, its thread was inside the lock. -/
def ReturnsInside [DecidableEq Lock] (lockOf : Cond → Lock) :
    List (Event Thread Sem Lock Cond) → Prop
  | [] => True
  | .returned cond thread :: earlier =>
      isInside (lockOf cond) thread earlier = true ∧ ReturnsInside lockOf earlier
  | _ :: earlier => ReturnsInside lockOf earlier

variable [DecidableEq Cond]

/-- The threads that joined the queue of a condition variable, in order. -/
def queuedOn (cond : Cond) (history : List (Event Thread Sem Lock Cond)) : List Thread :=
  (history.filterMap fun
    | .queued other thread => if other = cond then some thread else none
    | _ => none).reverse

/-- The threads that were taken off the queue of a condition variable, in order. -/
def removedOn (cond : Cond) (history : List (Event Thread Sem Lock Cond)) : List Thread :=
  (history.filterMap fun
    | .removed other thread => if other = cond then some thread else none
    | _ => none).reverse

end Histories

section Inside

variable [DecidableEq Thread] [DecidableEq Lock]

theorem isInside_removed (cond : Cond) (woken : List Thread) (lock : Lock) (thread : Thread)
    (history : List (Event Thread Sem Lock Cond)) :
    isInside lock thread ((woken.map (.removed cond)).reverse ++ history) =
      isInside lock thread history := by
  induction woken generalizing history with
  | nil => rfl
  | cons first woken ih =>
      rw [List.map_cons, List.reverse_cons, List.append_assoc]
      exact ih _

/-- The holder is the thread that the history shows inside. -/
def InsideMatches (holder : Lock → Option Thread)
    (history : List (Event Thread Sem Lock Cond)) : Prop :=
  ∀ lock thread, isInside lock thread history = true ↔ holder lock = some thread

theorem InsideMatches.acquired {holder : Lock → Option Thread}
    {history : List (Event Thread Sem Lock Cond)} (inside : InsideMatches holder history)
    {lock : Lock} (free : holder lock = none) (thread : Thread) :
    InsideMatches (Function.update holder lock (some thread))
      (.acquired lock thread :: history) := by
  intro other waiter
  have before := inside other waiter
  by_cases same : other = lock
  · subst same
    rw [free] at before
    by_cases isThread : waiter = thread
    · subst isThread
      simp [isInside]
    · simp [isInside, Ne.symm isThread, before]
  · simp [isInside, Ne.symm same, before, Function.update_of_ne same]

theorem InsideMatches.released {holder : Lock → Option Thread}
    {history : List (Event Thread Sem Lock Cond)} (inside : InsideMatches holder history)
    {lock : Lock} {thread : Thread} (held : holder lock = some thread) :
    InsideMatches (Function.update holder lock none) (.released lock thread :: history) := by
  intro other waiter
  have before := inside other waiter
  by_cases same : other = lock
  · subst same
    rw [held] at before
    by_cases isThread : waiter = thread
    · subst isThread
      simp [isInside]
    · simp [isInside, Ne.symm isThread, before]
  · simp [isInside, Ne.symm same, before, Function.update_of_ne same]

variable [DecidableEq Sem] {program : FlowChart Thread Vars Pc Sem Lock Cond Input Fault}
  {s next : SynchSystem Thread Vars Pc Sem Lock Cond}

theorem holder_vAll {sems : List Sem} (done : s.vAll sems = .ok next) :
    next.holder = s.holder ∧ next.conds = s.conds ∧
      ∃ given : List Sem, next.history = (given.map fun sem => .v (.named sem)) ++ s.history := by
  induction sems generalizing s with
  | nil =>
      cases done
      exact ⟨rfl, rfl, [], rfl⟩
  | cons sem sems ih =>
      obtain ⟨middle, given, rest⟩ := bind_eq_ok_iff.mp done
      obtain ⟨-, rfl⟩ := v_eq_ok_iff.mp given
      obtain ⟨holder, conds, later, history⟩ := ih rest
      refine ⟨holder, conds, later ++ [sem], ?_⟩
      rw [history]
      simp [afterV]

variable [DecidableEq Cond]

theorem Transition.insideMatches (step : Transition program s next) (sound : Sound program s)
    (inside : InsideMatches s.holder s.history) : InsideMatches next.holder next.history := by
  cases step with
  | run code phase done => exact inside
  | block tests zero => exact inside
  | p code tests available => exact inside
  | v code phase => exact inside
  | @acquire thread lock target code tests available =>
      exact inside.acquired ((sound.free_iff lock).mp available) thread
  | release code phase held => exact inside.released held
  | wait code phase held => exact inside.released held
  | @reacquire thread cond target code tests available =>
      exact inside.acquired ((sound.free_iff _).mp available) thread
  | signal code phase held =>
      intro lock thread
      exact (Bool.eq_iff_iff.mp (isInside_removed _ _ lock thread _)).trans (inside lock thread)
  | broadcast code phase held =>
      intro lock thread
      exact (Bool.eq_iff_iff.mp (isInside_removed _ _ lock thread _)).trans (inside lock thread)
  | @interrupt input vars sems target pending done =>
      obtain ⟨holder, -, given, history⟩ := holder_vAll done
      intro lock thread
      rw [holder, history, ← inside]
      clear history
      induction given with
      | nil => rfl
      | cons sem given ih => exact ih

omit [DecidableEq Sem] [DecidableEq Cond] in
theorem returnsInside_removed (lockOf : Cond → Lock) (cond : Cond) (woken : List Thread)
    (history : List (Event Thread Sem Lock Cond)) :
    ReturnsInside lockOf ((woken.map (.removed cond)).reverse ++ history) =
      ReturnsInside lockOf history := by
  induction woken generalizing history with
  | nil => rfl
  | cons first woken ih =>
      rw [List.map_cons, List.reverse_cons, List.append_assoc]
      exact ih _

theorem Transition.returnsInside (step : Transition program s next)
    (returns : ReturnsInside program.lockOf s.history) :
    ReturnsInside program.lockOf next.history := by
  cases step with
  | run code phase done => exact returns
  | block tests zero => exact returns
  | p code tests available => exact returns
  | v code phase => exact returns
  | acquire code tests available => exact returns
  | release code phase held => exact returns
  | wait code phase held => exact returns
  | reacquire code tests available => exact ⟨by simp [afterAcquire, isInside], returns⟩
  | signal code phase held => exact (returnsInside_removed _ _ _ _).mpr returns
  | broadcast code phase held => exact (returnsInside_removed _ _ _ _).mpr returns
  | @interrupt input vars sems target pending done =>
      obtain ⟨-, -, given, history⟩ := holder_vAll done
      rw [history]
      clear history
      induction given with
      | nil => exact returns
      | cons sem given ih => exact ih

end Inside

section Order

variable [DecidableEq Cond]

/-- A queue holds the threads that joined it and were not taken off, in order. -/
def Fifo (conds : Cond → Condition Thread Lock)
    (history : List (Event Thread Sem Lock Cond)) : Prop :=
  ∀ cond, queuedOn cond history = removedOn cond history ++ (conds cond).waitCondQueue

theorem Fifo.queued {conds : Cond → Condition Thread Lock}
    {history : List (Event Thread Sem Lock Cond)} (fifo : Fifo conds history) (cond : Cond)
    (thread : Thread) (lock : Option Lock) :
    Fifo (Function.update conds cond ⟨(conds cond).waitCondQueue ++ [thread], lock⟩)
      (.queued cond thread :: history) := by
  intro other
  have before := fifo other
  by_cases same : other = cond
  · subst same
    simp only [queuedOn, removedOn] at before
    simp [queuedOn, removedOn, before]
  · simp only [queuedOn, removedOn] at before
    simp [queuedOn, removedOn, before, Ne.symm same, Function.update_of_ne same]

theorem queuedOn_removed (other cond : Cond) (woken : List Thread)
    (history : List (Event Thread Sem Lock Cond)) :
    queuedOn other ((woken.map (.removed cond)).reverse ++ history) = queuedOn other history := by
  simp [queuedOn, List.filterMap_append, List.filterMap_reverse, List.filterMap_map]

theorem removedOn_removed (cond : Cond) (woken : List Thread)
    (history : List (Event Thread Sem Lock Cond)) :
    removedOn cond ((woken.map (.removed cond)).reverse ++ history) =
      removedOn cond history ++ woken := by
  simp [removedOn, List.filterMap_append, List.filterMap_reverse, List.filterMap_map]

theorem removedOn_removed_of_ne {other cond : Cond} (different : other ≠ cond)
    (woken : List Thread) (history : List (Event Thread Sem Lock Cond)) :
    removedOn other ((woken.map (.removed cond)).reverse ++ history) =
      removedOn other history := by
  simp [removedOn, List.filterMap_append, List.filterMap_reverse, List.filterMap_map,
    Ne.symm different]

theorem Fifo.removed {conds : Cond → Condition Thread Lock}
    {history : List (Event Thread Sem Lock Cond)} (fifo : Fifo conds history) {cond : Cond}
    {woken rest : List Thread} (split : (conds cond).waitCondQueue = woken ++ rest)
    (lock : Option Lock) :
    Fifo (Function.update conds cond ⟨rest, lock⟩)
      ((woken.map (.removed cond)).reverse ++ history) := by
  intro other
  rw [queuedOn_removed, fifo other]
  by_cases same : other = cond
  · subst same
    rw [removedOn_removed, Function.update_self, split, List.append_assoc]
  · rw [removedOn_removed_of_ne same, Function.update_of_ne same]

theorem take_one_append_tail (queue : List Thread) : queue = queue.take 1 ++ queue.tail := by
  rw [← List.drop_one, List.take_append_drop]

variable [DecidableEq Thread] [DecidableEq Lock] [DecidableEq Sem]
  {program : FlowChart Thread Vars Pc Sem Lock Cond Input Fault}
  {s next : SynchSystem Thread Vars Pc Sem Lock Cond}

theorem Transition.fifo (step : Transition program s next) (fifo : Fifo s.conds s.history) :
    Fifo next.conds next.history := by
  cases step with
  | run code phase done => exact fifo
  | block tests zero => exact fifo
  | p code tests available => exact fifo
  | v code phase => exact fifo
  | acquire code tests available => exact fifo
  | release code phase held => exact fifo
  | @wait thread cond target code phase held => exact fifo.queued cond thread _
  | reacquire code tests available => exact fifo
  | @signal thread cond target code phase held =>
      exact fifo.removed (take_one_append_tail _) _
  | @broadcast thread cond target code phase held =>
      exact fifo.removed (List.append_nil _).symm _
  | @interrupt input vars sems target pending done =>
      obtain ⟨-, conds, given, history⟩ := holder_vAll done
      intro cond
      rw [conds, history]
      have before := fifo cond
      simp only [queuedOn, removedOn] at before ⊢
      simpa [List.filterMap_append, List.filterMap_map, Function.comp_def] using before

end Order

section Waits

variable {program : FlowChart Thread Vars Pc Sem Lock Cond Input Fault}

/-- The last thing that happened to a call of `Wait`, for each place where its thread can
be. -/
def LastWait (program : FlowChart Thread Vars Pc Sem Lock Cond Input Fault) (thread : Thread) :
    Stage Pc → Option (Event Thread Sem Lock Cond) → Prop
  | .active _, last => ∀ event ∈ last, ∃ cond, event = .returned cond thread
  | .waiting pc, last => ∃ cond next, program.code pc = .wait cond next ∧
      last = some (.queued cond thread)
  | .signalled pc, last => ∃ cond next, program.code pc = .wait cond next ∧
      last = some (.removed cond thread)

variable [DecidableEq Thread]

/-- The calls of `Wait` in the history fit the places of the threads. -/
def WaitsMatch (program : FlowChart Thread Vars Pc Sem Lock Cond Input Fault)
    (stage : Thread → Stage Pc) (history : List (Event Thread Sem Lock Cond)) : Prop :=
  ∀ thread, Rounds (waitsOf thread history) ∧
    LastWait program thread (stage thread) (waitsOf thread history).head?

variable {stage : Thread → Stage Pc} {history : List (Event Thread Sem Lock Cond)}

/-- A thread goes on, and nothing happens to a `Wait`. -/
theorem WaitsMatch.move (waits : WaitsMatch program stage history)
    {later : List (Event Thread Sem Lock Cond)}
    (same : ∀ thread, waitsOf thread later = waitsOf thread history) {thread : Thread}
    {pc : Pc} (here : stage thread = .active pc) (target : Pc) :
    WaitsMatch program (Function.update stage thread (.active target)) later := by
  intro other
  obtain ⟨rounds, last⟩ := waits other
  rw [same]
  refine ⟨rounds, ?_⟩
  by_cases moved : other = thread
  · subst moved
    rw [Function.update_self]
    rw [here] at last
    exact last
  · rwa [Function.update_of_ne moved]

theorem WaitsMatch.queued (waits : WaitsMatch program stage history) {thread : Thread}
    {pc next : Pc} {cond : Cond} (here : stage thread = .active pc)
    (code : program.code pc = .wait cond next) {later : List (Event Thread Sem Lock Cond)}
    (own : waitsOf thread later = .queued cond thread :: waitsOf thread history)
    (others : ∀ other, other ≠ thread → waitsOf other later = waitsOf other history) :
    WaitsMatch program (Function.update stage thread (.waiting pc)) later := by
  intro other
  obtain ⟨rounds, last⟩ := waits other
  by_cases moved : other = thread
  · subst moved
    rw [here] at last
    rw [own, Function.update_self]
    exact ⟨⟨last, rounds⟩, cond, next, code, rfl⟩
  · rw [others other moved, Function.update_of_ne moved]
    exact ⟨rounds, last⟩

theorem WaitsMatch.returned (waits : WaitsMatch program stage history) {thread : Thread}
    {pc next : Pc} {cond : Cond} (here : stage thread = .signalled pc)
    (code : program.code pc = .wait cond next) {later : List (Event Thread Sem Lock Cond)}
    (own : waitsOf thread later = .returned cond thread :: waitsOf thread history)
    (others : ∀ other, other ≠ thread → waitsOf other later = waitsOf other history)
    (target : Pc) :
    WaitsMatch program (Function.update stage thread (.active target)) later := by
  intro other
  obtain ⟨rounds, last⟩ := waits other
  by_cases moved : other = thread
  · subst moved
    rw [here] at last
    obtain ⟨otherCond, otherNext, otherCode, isRemoved⟩ := last
    rw [code] at otherCode
    cases otherCode
    rw [own, Function.update_self]
    refine ⟨⟨isRemoved, rounds⟩, ?_⟩
    rintro event ⟨⟩
    exact ⟨cond, rfl⟩
  · rw [others other moved, Function.update_of_ne moved]
    exact ⟨rounds, last⟩

theorem waitsOf_removed {woken : List Thread} (distinct : woken.Nodup) (cond : Cond)
    (thread : Thread) (history : List (Event Thread Sem Lock Cond)) :
    waitsOf thread ((woken.map (.removed cond)).reverse ++ history) =
      if thread ∈ woken then .removed cond thread :: waitsOf thread history
      else waitsOf thread history := by
  induction woken generalizing history with
  | nil => simp
  | cons first woken ih =>
      obtain ⟨absent, rest⟩ := List.nodup_cons.mp distinct
      rw [List.map_cons, List.reverse_cons, List.append_assoc, ih rest]
      by_cases isFirst : thread = first
      · subst isFirst
        simp [absent, waitsOf]
      · simp [isFirst, Ne.symm isFirst, waitsOf]

theorem WaitsMatch.removed (waits : WaitsMatch program stage history) {woken : List Thread}
    (distinct : woken.Nodup) {cond : Cond}
    (queued : ∀ thread ∈ woken, ∃ pc next, stage thread = .waiting pc ∧
      program.code pc = .wait cond next) :
    WaitsMatch program (wakeAll woken stage)
      ((woken.map (.removed cond)).reverse ++ history) := by
  intro thread
  obtain ⟨rounds, last⟩ := waits thread
  rw [waitsOf_removed distinct]
  by_cases member : thread ∈ woken
  · obtain ⟨pc, next, here, code⟩ := queued thread member
    rw [here] at last
    obtain ⟨otherCond, otherNext, otherCode, isQueued⟩ := last
    rw [code] at otherCode
    cases otherCode
    simp only [wakeAll, member, if_true, here, Stage.wake_waiting]
    exact ⟨⟨isQueued, rounds⟩, cond, next, code, rfl⟩
  · simp only [wakeAll, member, if_false]
    exact ⟨rounds, last⟩

variable [DecidableEq Lock] [DecidableEq Sem] [DecidableEq Cond]
  {s next : SynchSystem Thread Vars Pc Sem Lock Cond}

theorem Transition.waitsMatch (step : Transition program s next) (sound : Sound program s)
    (waits : WaitsMatch program (fun thread => stageOf (s.threads thread)) s.history) :
    WaitsMatch program (fun thread => stageOf (next.threads thread)) next.history := by
  cases step with
  | @run thread body input vars target code phase done =>
      simp only [goto, stageOf_update, stageOf_call]
      exact waits.move (fun _ => rfl) (stageOf_of_call phase) target
  | @block thread sem asleep tests zero =>
      simp only [afterBlock, SynchSystem.sleep, stageOf_update, tests.stageOf_sleep,
        Function.update_eq_self]
      exact waits
  | @p thread sem target code tests available =>
      simp only [goto, afterP, stageOf_update, stageOf_call]
      exact waits.move (fun _ => rfl) tests.stageOf_sleepP target
  | @v thread sem target code phase =>
      simp only [goto, afterV, stageOf_update, stageOf_call, sound.stageOf_woken]
      exact waits.move (fun _ => rfl) (stageOf_of_call phase) target
  | @acquire thread lock target code tests available =>
      simp only [goto, afterAcquire, afterP, stageOf_update, stageOf_call]
      exact waits.move (fun _ => rfl) tests.stageOf_sleepP target
  | @release thread lock target code phase held =>
      simp only [goto, afterRelease, afterV, stageOf_update, stageOf_call, sound.stageOf_woken]
      exact waits.move (fun _ => rfl) (stageOf_of_call phase) target
  | @wait thread cond target code phase held =>
      simp only [SynchSystem.sleep, afterRelease, afterV, stageOf_update, sound.stageOf_woken,
        readyAll_pc]
      refine waits.queued (stageOf_of_call phase) code ?_ fun other different => ?_
      · simp [waitsOf]
      · simp [waitsOf, Ne.symm different]
  | @reacquire thread cond target code tests available =>
      simp only [goto, afterAcquire, afterP, stageOf_update, stageOf_call]
      refine waits.returned tests.stageOf_sleepReacquire code ?_ (fun other different => ?_) target
      · simp [waitsOf]
      · simp [waitsOf, Ne.symm different]
  | @signal thread cond target code phase held =>
      have front := List.take_subset 1 (s.conds cond).waitCondQueue
      have here : wakeAll ((s.conds cond).waitCondQueue.take 1)
          (fun thread => stageOf (s.threads thread)) thread = .active (s.threads thread).pc := by
        simp only [wakeAll, stageOf_of_call phase, Stage.wake_active, ite_self]
      simp only [goto, afterRemoval, stageOf_update, stageOf_call, sound.stageOf_removed front]
      refine WaitsMatch.move (waits.removed ?_ fun waiter member => ?_) (fun _ => rfl) here target
      · exact (sound.queued.nodup cond).sublist (List.take_sublist 1 _)
      · exact (sound.queued.mem_iff cond waiter).mp (front member)
  | @broadcast thread cond target code phase held =>
      have here : wakeAll (s.conds cond).waitCondQueue
          (fun thread => stageOf (s.threads thread)) thread = .active (s.threads thread).pc := by
        simp only [wakeAll, stageOf_of_call phase, Stage.wake_active, ite_self]
      simp only [goto, afterRemoval, stageOf_update, stageOf_call,
        sound.stageOf_removed (List.Subset.refl _)]
      refine WaitsMatch.move (waits.removed (sound.queued.nodup cond) fun waiter member => ?_)
        (fun _ => rfl) here target
      exact (sound.queued.mem_iff cond waiter).mp member
  | @interrupt input vars sems target pending done =>
      have stages : (fun thread => stageOf (next.threads thread)) =
          fun thread => stageOf (s.threads thread) :=
        congrArg State.stage ((sound.withVars vars).vAll done).2
      obtain ⟨-, -, given, history⟩ := holder_vAll done
      rw [stages, history]
      intro thread
      have same : waitsOf thread ((given.map fun sem => .v (.named sem)) ++ s.history) =
          waitsOf thread s.history := by
        simp [waitsOf, List.filter_append]
      rw [same]
      exact waits thread

end Waits

section Semantics

variable [DecidableEq Thread] [DecidableEq Lock] [DecidableEq Sem] [DecidableEq Cond]
  {s next : SynchSystem Thread Vars Pc Sem Lock Cond}

/-- The threads that a step puts on the ready list from their sleep in a `Wait`, and the
queue of a condition variable after the step. -/
def Notifies (s next : SynchSystem Thread Vars Pc Sem Lock Cond) (cond : Cond)
    (woken rest : List Thread) : Prop :=
  (s.conds cond).waitCondQueue = woken ++ rest ∧ (next.conds cond).waitCondQueue = rest ∧
    ∀ thread, ((s.threads thread).phase = .sleepWait ∧
      (next.threads thread).phase ≠ .sleepWait) ↔ thread ∈ woken

/-- What is promised about locks and condition variables in a state. -/
structure MesaSemantics (program : FlowChart Thread Vars Pc Sem Lock Cond Input Fault)
    (s : SynchSystem Thread Vars Pc Sem Lock Cond) : Prop where
  /-- At most one thread is inside a lock. -/
  exclusive : ∀ lock first second, isInside lock first s.history = true →
    isInside lock second s.history = true → first = second
  /-- It is the one recorded in `holder`. -/
  holder : ∀ lock thread, isInside lock thread s.history = true ↔
    s.holder lock = some thread
  /-- `holder` is `NULL` exactly when the inner semaphore is 1 and nobody is inside. -/
  free : ∀ lock, s.holder lock = none ↔
    (s.sems (.locked lock)).value = 1 ∧ ∀ thread, isInside lock thread s.history = false
  /-- Each return from `Wait` happened with the lock held. -/
  returned : ReturnsInside program.lockOf s.history
  /-- Each return from `Wait` has one removal from the queue after it was joined. -/
  rounds : ∀ thread, Rounds (waitsOf thread s.history)
  /-- The queues are first in, first out. -/
  fifo : ∀ cond, queuedOn cond s.history =
    removedOn cond s.history ++ (s.conds cond).waitCondQueue
  /-- `Signal` wakes the first waiter, if there is one. -/
  signal : ∀ thread input next cond target,
    program.code (s.threads thread).pc = .signal cond target →
    s.stepThread program thread input = .ok next →
    Notifies s next cond ((s.conds cond).waitCondQueue.take 1)
      (s.conds cond).waitCondQueue.tail
  /-- `Broadcast` wakes all waiters. -/
  broadcast : ∀ thread input next cond target,
    program.code (s.threads thread).pc = .broadcast cond target →
    s.stepThread program thread input = .ok next →
    Notifies s next cond (s.conds cond).waitCondQueue []

variable {program : FlowChart Thread Vars Pc Sem Lock Cond Input Fault}

omit [DecidableEq Lock] [DecidableEq Sem] in
theorem Sound.notifies (sound : Sound program s) {thread : Thread}
    (phase : (s.threads thread).phase = .call) {cond : Cond} {woken rest : List Thread}
    (split : (s.conds cond).waitCondQueue = woken ++ rest) (target : Pc) :
    Notifies s ((s.afterRemoval cond woken rest).goto thread target) cond woken rest := by
  refine ⟨split, by simp [afterRemoval, goto], fun other => ?_⟩
  have waiting : other ∈ woken → (s.threads other).phase = .sleepWait := fun member =>
    sound.waiting (by rw [split]; exact List.mem_append_left rest member)
  simp only [goto, afterRemoval]
  by_cases moved : other = thread
  · subst moved
    rw [phase] at waiting ⊢
    simpa using waiting
  · rw [Function.update_of_ne moved]
    by_cases member : other ∈ woken
    · rw [readyAll_of_mem member]
      simp [member, waiting member, Phase.ready]
    · rw [readyAll_of_notMem member]
      simp [member]

theorem Sound.mesaSemantics (sound : Sound program s)
    (inside : InsideMatches s.holder s.history)
    (returns : ReturnsInside program.lockOf s.history) (fifo : Fifo s.conds s.history)
    (waits : WaitsMatch program (fun thread => stageOf (s.threads thread)) s.history) :
    MesaSemantics program s where
  exclusive lock first second firstInside secondInside := by
    have firstHolds := (inside lock first).mp firstInside
    rw [(inside lock second).mp secondInside] at firstHolds
    exact (Option.some.inj firstHolds).symm
  holder := inside
  free lock := by
    constructor
    · intro free
      refine ⟨?_, fun thread => ?_⟩
      · rcases sound.locked lock with ⟨-, one⟩ | ⟨taken, -⟩
        · exact one
        · exact absurd free taken
      · have outside := inside lock thread
        rw [free] at outside
        simpa using outside
    · rintro ⟨one, -⟩
      rcases sound.locked lock with ⟨free, -⟩ | ⟨-, zero⟩
      · exact free
      · omega
  returned := returns
  rounds thread := (waits thread).1
  fifo := fifo
  signal thread input next cond target code done := by
    cases phase : (s.threads thread).phase <;>
      simp only [stepThread, code, phase, reduceCtorEq] at done
    obtain ⟨middle, signalled, finished⟩ := bind_eq_ok_iff.mp done
    obtain ⟨-, -, rfl⟩ := signal_eq_ok_iff.mp signalled
    cases finished
    exact sound.notifies phase (take_one_append_tail _) target
  broadcast thread input next cond target code done := by
    cases phase : (s.threads thread).phase <;>
      simp only [stepThread, code, phase, reduceCtorEq] at done
    obtain ⟨middle, signalled, finished⟩ := bind_eq_ok_iff.mp done
    obtain ⟨-, -, rfl⟩ := broadcast_eq_ok signalled
    cases finished
    exact sound.notifies phase (List.append_nil _).symm target

/-- Locks and condition variables have Mesa semantics in every state that a run of any
program reaches. -/
theorem mesa_semantics (program : FlowChart Thread Vars Pc Sem Lock Cond Input Fault)
    (vars : Vars) (value : Sem → Int) (entry : Thread → Pc)
    (actions : List (Action Thread Input)) :
    AlongRun (step program) (MesaSemantics program) (boot vars value entry) actions := by
  have invariant : AlongRun (step program) (fun s => Sound program s ∧
      InsideMatches s.holder s.history ∧ ReturnsInside program.lockOf s.history ∧
      Fifo s.conds s.history ∧
      WaitsMatch program (fun thread => stageOf (s.threads thread)) s.history)
      (boot vars value entry) actions := by
    refine alongRun_of_preserved ?_ ⟨sound_boot program vars value entry, ?_, trivial, ?_, ?_⟩
    · rintro s action next ⟨sound, inside, returns, fifo, waits⟩ done
      have step := step_transition done
      exact ⟨step.sound sound, step.insideMatches sound inside, step.returnsInside returns,
        step.fifo fifo, step.waitsMatch sound waits⟩
    · intro lock thread
      simp [boot, isInside]
    · intro cond
      simp [boot, queuedOn, removedOn]
    · intro thread
      exact ⟨trivial, by simp [boot, waitsOf, LastWait]⟩
  apply invariant.mono
  rintro s ⟨sound, inside, returns, fifo, waits⟩
  exact sound.mesaSemantics inside returns fifo waits

end Semantics

end SynchSystem

end Nachos
