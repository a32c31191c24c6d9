import Nachos.YieldOrder

/-!
# Yield under the scheduling policies

`ReadyToRun` and `FindNextToRun` know all the policies of `SchedPolicy`, but
`Thread::Yield` has code for `SCHED_RR` and `SCHED_PRIO_P` only.  Under the others it
returns without looking at the ready lists.

This is the scheduler with the threads as far as all policies need them.  Time slices are
left out, as the choice of a thread does not depend on them.  A thread that is blocked may
be woken at any time.
-/

namespace Nachos

open TransitionRuns CInt

/-- The threads and their scheduler under any policy. -/
structure Dispatcher (Thread : Type) where
  scheduler : Scheduler Thread
  threadID : Thread → Int
  info : Thread → ThreadInfo
  status : Thread → ThreadStatus
  currentThread : Thread
  mode : Mode

namespace Dispatcher

variable {Thread : Type}

inductive Action (Thread : Type) where
  | fork (thread : Thread)
  /-- Called by the current thread, or for it at the end of `OneTick`. -/
  | yield
  | sleep
  /-- `ReadyToRun` for a blocked thread. -/
  | wake (thread : Thread)
  /-- The loop of `Sleep` finds a thread. -/
  | dispatch
  /-- `Run` returns, or the thread starts. -/
  | proceed
  | suspend (thread : Thread) (t : Option Thread)
  | resume (thread : Thread) (t : Option Thread)
  | setInfo (thread : Thread) (info : ThreadInfo)
  | setSchedPolicy (policy : SchedPolicy)

/-- `Scheduler::FindNextToRun`. -/
def findNextToRun (s : Dispatcher Thread) : Option Thread × Dispatcher Thread :=
  (s.scheduler.findNextToRun.1, { s with scheduler := s.scheduler.findNextToRun.2 })

variable [DecidableEq Thread]

/-- `Scheduler::ReadyToRun`. -/
def readyToRun (s : Dispatcher Thread) (thread : Thread) :
    Except Stop (Dispatcher Thread) := do
  let scheduler ← s.scheduler.readyToRun thread (s.info thread)
  return { s with
    scheduler := scheduler
    status := Function.update s.status thread .ready }

/-- `Scheduler::Run`. -/
def run (s : Dispatcher Thread) (nextThread : Thread) : Dispatcher Thread :=
  { s with
    currentThread := nextThread
    status := Function.update s.status nextThread .running
    mode := .resumed }

/-- `Thread::setPriority`. -/
def setPriority (s : Dispatcher Thread) (thread : Thread) (prio : Int) : Dispatcher Thread :=
  { s with info := Function.update s.info thread { s.info thread with priority := prio } }

theorem info_setPriority (s : Dispatcher Thread) (thread : Thread) (prio : Int) :
    (s.setPriority thread prio).info =
      Function.update s.info thread { s.info thread with priority := prio } :=
  rfl

/-- `Thread::Yield`. -/
def yield (s : Dispatcher Thread) : Except Stop (Dispatcher Thread) :=
  let this := s.currentThread
  if s.scheduler.policy = .rr then
    match s.findNextToRun with
    | (none, s) => .ok s
    | (some nextThread, s) => do
        let s ← s.readyToRun this
        return s.run nextThread
  else if s.scheduler.policy = .prioP then
    let tmppriority := (s.info this).priority
    let priority := tmppriority - Scheduler.maxPriority + s.threadID this
    if Fits (tmppriority - Scheduler.maxPriority) ∧ Fits priority then
      match (s.setPriority this priority).findNextToRun with
      | (none, s) => .ok s
      | (some nextThread, s) =>
          if (s.info this).priority ≤ (s.info nextThread).priority then do
            let s ← s.readyToRun this
            return s.run nextThread
          else s.readyToRun nextThread
    else .error .overflow
  else .ok s

/-- `Thread::Fork`.  A thread without an ID is deleted. -/
def fork (s : Dispatcher Thread) (thread : Thread) : Except Stop (Dispatcher Thread) :=
  if s.status thread = .justCreated then
    if s.threadID thread = -1 then .ok s
    else do
      let s ← s.readyToRun thread
      if s.scheduler.shouldISwitch (s.info s.currentThread) (s.info thread) then s.yield
      else return s
  else .error .notRunnable

/-- `Thread::Suspend`, with the value of `t` in `Scheduler::Suspend` on entry. -/
def suspend (s : Dispatcher Thread) (thread : Thread) (t : Option Thread) :
    Dispatcher Thread :=
  { s with
    scheduler := s.scheduler.suspend thread t
    status :=
      if (s.scheduler.readyList.takeOut thread t).2 then
        Function.update s.status thread .suspended
      else s.status }

/-- `Thread::Resume`, with the value of `t` in `Scheduler::Resume` on entry. -/
def resume (s : Dispatcher Thread) (thread : Thread) (t : Option Thread) :
    Except Stop (Dispatcher Thread) :=
  if thread = s.currentThread then .error (.fault .assertion)
  else
    .ok { s with
      scheduler := s.scheduler.resume thread t
      status :=
        if (s.scheduler.suspendedList.takeOut thread t).2 then
          Function.update s.status thread .ready
        else s.status }

/-- The current thread acts in user mode; in the loop of `Sleep` only devices wake threads,
and the first one that is ready is dispatched. -/
def step (s : Dispatcher Thread) : Action Thread → Except Stop (Dispatcher Thread)
  | .fork thread => if s.mode = .user then s.fork thread else .error .notRunnable
  | .yield => if s.mode = .user then s.yield else .error .notRunnable
  | .sleep =>
      if s.mode = .user then
        .ok { s with
          status := Function.update s.status s.currentThread .blocked
          mode := .asleep }
      else .error .notRunnable
  | .wake thread =>
      if s.mode ≠ .resumed ∧ s.status thread = .blocked then s.readyToRun thread
      else .error .notRunnable
  | .dispatch =>
      if s.mode = .asleep then
        match s.findNextToRun with
        | (none, _) => .error .notRunnable
        | (some nextThread, s) => .ok (s.run nextThread)
      else .error .notRunnable
  | .proceed =>
      if s.mode = .resumed then .ok { s with mode := .user } else .error .notRunnable
  | .suspend thread t =>
      if s.mode = .user then .ok (s.suspend thread t) else .error .notRunnable
  | .resume thread t => if s.mode = .user then s.resume thread t else .error .notRunnable
  | .setInfo thread info =>
      if s.mode = .user then .ok { s with info := Function.update s.info thread info }
      else .error .notRunnable
  | .setSchedPolicy policy =>
      if s.mode = .user then .ok { s with scheduler := { s.scheduler with policy := policy } }
      else .error .notRunnable

/-- The main thread is running, with the policy that the constructor of the scheduler sets. -/
def boot (main : Thread) (threadID : Thread → Int) (info : Thread → ThreadInfo) :
    Dispatcher Thread where
  scheduler := ⟨LinkedList.empty, LinkedList.empty, LinkedList.empty, LinkedList.empty, .prioP⟩
  threadID := threadID
  info := info
  status := Function.update (fun _ => .justCreated) main .running
  currentThread := main
  mode := .user

/-- Another thread should get the processor: one is ready, and under the policies that look
at priorities its priority is at least that of the current thread. -/
def SomeoneToRun (s : Dispatcher Thread) : Prop :=
  match s.scheduler.policy with
  | .prioP | .prioNP | .mlq =>
      ∃ thread ∈ s.scheduler.ready,
        (s.info s.currentThread).priority ≤ (s.info thread).priority
  | .fcfs | .rr | .sjf | .srtn | .mlfq => s.scheduler.ready ≠ []

/-- `Yield` hands the current thread to `ReadyToRun` and switches to the thread that
`FindNextToRun` selects. -/
def Relinquishes (s : Dispatcher Thread) : Prop :=
  ∃ nextThread taken inserted next,
    s.scheduler.findNextToRun = (some nextThread, taken) ∧ s.yield = .ok next ∧
    taken.readyToRun s.currentThread (next.info s.currentThread) = .ok inserted ∧
    next.scheduler = inserted ∧ next.currentThread = nextThread ∧ next.mode = .resumed ∧
    next.status = Function.update (Function.update s.status s.currentThread .ready)
      nextThread .running

/-- The priority that `Yield` gives to the current thread. -/
def loweredPriority (s : Dispatcher Thread) : Int :=
  (s.info s.currentThread).priority - Scheduler.maxPriority + s.threadID s.currentThread

/-- The policy is `SCHED_RR`, or it is `SCHED_PRIO_P` and the first ready thread has at least
the priority that the current thread will have, which is to be an `int` and have one for its
key. -/
def Switches (s : Dispatcher Thread) : Prop :=
  s.scheduler.policy = .rr ∨
  s.scheduler.policy = .prioP ∧
    Fits ((s.info s.currentThread).priority - Scheduler.maxPriority) ∧
    Fits s.loweredPriority ∧ Fits (Scheduler.maxPriority - s.loweredPriority) ∧
    ∀ first ∈ s.scheduler.findNextToRun.1,
      first = s.currentThread ∨ s.loweredPriority ≤ (s.info first).priority

variable {s next : Dispatcher Thread} {nextThread : Thread} {taken : Scheduler Thread}

omit [DecidableEq Thread] in
theorem SomeoneToRun.found (someone : s.SomeoneToRun) :
    ∃ nextThread taken, s.scheduler.findNextToRun = (some nextThread, taken) := by
  have ready : s.scheduler.ready ≠ [] := by
    unfold SomeoneToRun at someone
    split at someone
    case h_4 | h_5 | h_6 | h_7 | h_8 => exact someone
    all_goals
      obtain ⟨thread, member, -⟩ := someone
      exact List.ne_nil_of_mem member
  rcases s.scheduler.findNextToRun_cases with ⟨empty, empty_1, empty_2, -⟩ |
    ⟨first, rest, -, equal⟩ | ⟨-, first, rest, -, equal⟩ | ⟨-, -, first, rest, -, equal⟩
  · exact absurd (by simp [Scheduler.ready, LinkedList.items, empty, empty_1, empty_2]) ready
  all_goals exact ⟨_, _, equal⟩

theorem readyToRun_fields {thread : Thread} (done : s.readyToRun thread = .ok next) :
    next.info = s.info ∧ next.currentThread = s.currentThread ∧ next.mode = s.mode := by
  obtain ⟨scheduler, -, done⟩ := bind_eq_ok_iff.mp done
  cases done
  exact ⟨rfl, rfl, rfl⟩

/-- A `Yield` that calls `ReadyToRun` and `Run` is as it should be if there is a place for
the current thread. -/
theorem relinquishes_iff_of_run {info : Thread → ThreadInfo}
    (found : s.scheduler.findNextToRun = (some nextThread, taken))
    (yields : s.yield = do
      let s ← { s with scheduler := taken, info := info }.readyToRun s.currentThread
      return s.run nextThread) :
    s.Relinquishes ↔
      ∃ inserted, taken.readyToRun s.currentThread (info s.currentThread) = .ok inserted := by
  constructor
  · rintro ⟨-, -, -, next, -, done, -⟩
    rw [yields] at done
    obtain ⟨ready, done, -⟩ := bind_eq_ok_iff.mp done
    obtain ⟨inserted, done, -⟩ := bind_eq_ok_iff.mp done
    exact ⟨inserted, done⟩
  · rintro ⟨inserted, done⟩
    have ready : Dispatcher.readyToRun { s with scheduler := taken, info := info }
        s.currentThread = .ok { s with
          scheduler := inserted
          info := info
          status := Function.update s.status s.currentThread .ready } :=
      bind_eq_ok_iff.mpr ⟨inserted, done, rfl⟩
    have switched : s.yield = .ok (Dispatcher.run { s with
        scheduler := inserted
        info := info
        status := Function.update s.status s.currentThread .ready } nextThread) := by
      rw [yields, ready]
      rfl
    exact ⟨nextThread, taken, inserted, _, found, switched, done, rfl, rfl, rfl, rfl⟩

theorem relinquishes_of_rr (policy : s.scheduler.policy = .rr)
    (found : s.scheduler.findNextToRun = (some nextThread, taken)) : s.Relinquishes := by
  have taken_policy : taken.policy = .rr := by
    have kept := s.scheduler.policy_findNextToRun
    rw [found] at kept
    exact kept.trans policy
  have yields : s.yield = do
      let s ← { s with scheduler := taken }.readyToRun s.currentThread
      return s.run nextThread := by
    simp only [yield, if_pos policy, findNextToRun, found]
  apply (relinquishes_iff_of_run found yields).mpr
  refine ⟨{ taken with readyList := taken.readyList.append s.currentThread }, ?_⟩
  simp only [Scheduler.readyToRun, taken_policy]

theorem not_relinquishes_of_other (running : s.mode = .user) (notRR : s.scheduler.policy ≠ .rr)
    (notPrioP : s.scheduler.policy ≠ .prioP) : ¬ s.Relinquishes := by
  have yields : s.yield = .ok s := by
    simp only [yield, if_neg notRR, if_neg notPrioP]
  rintro ⟨-, -, -, next, -, done, -, -, -, resumed, -⟩
  rw [yields] at done
  cases done
  rw [running] at resumed
  cases resumed

/-- Under `SCHED_PRIO_P` the priority of the current thread is lowered first. -/
theorem yield_of_prioP (policy : s.scheduler.policy = .prioP)
    (found : s.scheduler.findNextToRun = (some nextThread, taken))
    {info : Thread → ThreadInfo}
    (isInfo : (s.setPriority s.currentThread s.loweredPriority).info = info) :
    s.yield =
      if Fits ((s.info s.currentThread).priority - Scheduler.maxPriority) ∧
          Fits s.loweredPriority then
        if (info s.currentThread).priority ≤ (info nextThread).priority then do
          let s ← { s with scheduler := taken, info := info }.readyToRun s.currentThread
          return s.run nextThread
        else { s with scheduler := taken, info := info }.readyToRun nextThread
      else .error .overflow := by
  subst isInfo
  have notRR : s.scheduler.policy ≠ .rr := by
    rw [policy]
    exact SchedPolicy.noConfusion
  have lowered : (s.setPriority s.currentThread s.loweredPriority).scheduler.findNextToRun =
      (some nextThread, taken) := found
  simp only [yield, if_neg notRR, if_pos policy]
  unfold loweredPriority at lowered ⊢
  simp only [findNextToRun, lowered]
  rfl

theorem relinquishes_of_prioP_iff (running : s.mode = .user)
    (policy : s.scheduler.policy = .prioP)
    (found : s.scheduler.findNextToRun = (some nextThread, taken)) :
    s.Relinquishes ↔
      Fits ((s.info s.currentThread).priority - Scheduler.maxPriority) ∧
      Fits s.loweredPriority ∧ Fits (Scheduler.maxPriority - s.loweredPriority) ∧
      (nextThread = s.currentThread ∨ s.loweredPriority ≤ (s.info nextThread).priority) := by
  have taken_policy : taken.policy = .prioP := by
    have kept := s.scheduler.policy_findNextToRun
    rw [found] at kept
    exact kept.trans policy
  generalize isInfo : (s.setPriority s.currentThread s.loweredPriority).info = info
  have current : (info s.currentThread).priority = s.loweredPriority := by
    rw [← isInfo, info_setPriority, Function.update_self]
  have compared : (info s.currentThread).priority ≤ (info nextThread).priority ↔
      nextThread = s.currentThread ∨ s.loweredPriority ≤ (s.info nextThread).priority := by
    rw [current]
    by_cases same : nextThread = s.currentThread
    · rw [same, current]
      exact iff_of_true le_rfl (Or.inl rfl)
    · rw [← isInfo, info_setPriority, Function.update_of_ne same]
      simp only [same, false_or]
  have yields := yield_of_prioP policy found isInfo
  by_cases fits : Fits ((s.info s.currentThread).priority - Scheduler.maxPriority) ∧
      Fits s.loweredPriority
  · rw [if_pos fits] at yields
    by_cases switches : (info s.currentThread).priority ≤ (info nextThread).priority
    · rw [if_pos switches] at yields
      rw [relinquishes_iff_of_run found yields, Scheduler.readyToRun_of_prioP taken_policy,
        current]
      constructor
      · rintro ⟨inserted, done⟩
        split at done
        · next keyFits => exact ⟨fits.1, fits.2, keyFits, compared.mp switches⟩
        · cases done
      · rintro ⟨-, -, keyFits, -⟩
        exact ⟨_, if_pos keyFits⟩
    · rw [if_neg switches] at yields
      refine iff_of_false ?_ ?_
      · rintro ⟨-, -, -, next, -, done, -, -, -, resumed, -⟩
        rw [yields] at done
        have mode := (readyToRun_fields done).2.2
        rw [resumed, running] at mode
        cases mode
      · rintro ⟨-, -, -, first⟩
        exact switches (compared.mpr first)
  · rw [if_neg fits] at yields
    refine iff_of_false ?_ ?_
    · rintro ⟨-, -, -, next, -, done, -⟩
      rw [yields] at done
      cases done
    · rintro ⟨fits_1, fits_2, -⟩
      exact fits ⟨fits_1, fits_2⟩

theorem relinquishes_iff (running : s.mode = .user) (someone : s.SomeoneToRun) :
    s.Relinquishes ↔ s.Switches := by
  obtain ⟨nextThread, taken, found⟩ := someone.found
  by_cases isRR : s.scheduler.policy = .rr
  · exact iff_of_true (relinquishes_of_rr isRR found) (Or.inl isRR)
  by_cases isPrioP : s.scheduler.policy = .prioP
  · rw [relinquishes_of_prioP_iff running isPrioP found]
    simp [Switches, isPrioP, found]
  · refine iff_of_false (not_relinquishes_of_other running isRR isPrioP) ?_
    rintro (policy | ⟨policy, -⟩)
    · exact isRR policy
    · exact isPrioP policy

/-- In every state of a run in which somebody should get the processor, `Yield` hands it
over exactly when it switches. -/
theorem relinquishes_along_run (main : Thread) (threadID : Thread → Int)
    (info : Thread → ThreadInfo) (actions : List (Action Thread)) :
    AlongRun step
      (fun s => s.mode = .user → s.SomeoneToRun → (s.Relinquishes ↔ s.Switches))
      (boot main threadID info) actions :=
  alongRun_of_preserved (fun _ _ _ _ _ => relinquishes_iff) relinquishes_iff

/-- The policy is chosen after the main thread has forked another one. -/
def exampleActions (policy : SchedPolicy) : List (Action ℕ) :=
  [.fork 1, .setSchedPolicy policy]

/-- All threads have the priority 10. -/
def exampleInfo : ThreadInfo :=
  ⟨10, 0, false⟩

theorem not_relinquishes_under_fcfs : ∃ s,
    TransitionRuns.run step (boot 0 Int.ofNat fun _ => exampleInfo)
      (exampleActions .fcfs) = .ok s ∧
    s.mode = .user ∧ s.SomeoneToRun ∧ s.yield = .ok s ∧ ¬ s.Relinquishes := by
  refine ⟨_, rfl, rfl, List.cons_ne_nil _ _, rfl, ?_⟩
  exact not_relinquishes_of_other rfl (by decide) (by decide)

end Dispatcher

namespace Kernel

variable {Thread Sem Lock Cond : Type} {s : Kernel Thread Sem Lock Cond}

/-- The threads and the scheduler without the synchronisation objects. -/
def dispatcher (s : Kernel Thread Sem Lock Cond) : Dispatcher Thread where
  scheduler := s.scheduler
  threadID := s.threadID
  info := s.info
  status := s.status
  currentThread := s.currentThread
  mode := s.mode

theorem dispatcher_update_priority [DecidableEq Thread] (s : Kernel Thread Sem Lock Cond)
    (thread : Thread) (prio : Int) :
    dispatcher { s with priority := Function.update s.priority thread prio } =
      s.dispatcher.setPriority thread prio := by
  have same : info { s with priority := Function.update s.priority thread prio } =
      Function.update s.info thread { s.info thread with priority := prio } := by
    funext other
    by_cases here : other = thread
    · subst here
      simp [info]
    · simp [info, Function.update_of_ne here]
  simp only [dispatcher, Dispatcher.setPriority, same]

theorem dispatcher_readyToRun [DecidableEq Thread] (s : Kernel Thread Sem Lock Cond)
    (thread : Thread) :
    s.dispatcher.readyToRun thread = (s.readyToRun thread).map dispatcher := by
  unfold Dispatcher.readyToRun readyToRun
  change (s.scheduler.readyToRun thread (s.info thread) >>= _) = _
  cases s.scheduler.readyToRun thread (s.info thread) with
  | error stop => rfl
  | ok scheduler => rfl

theorem dispatcher_findNextToRun (s : Kernel Thread Sem Lock Cond) :
    s.dispatcher.findNextToRun = (s.findNextToRun.1, s.findNextToRun.2.dispatcher) := by
  unfold Dispatcher.findNextToRun findNextToRun
  change (s.scheduler.findNextToRun.1, _) = _
  generalize found : s.scheduler.findNextToRun = outcome
  obtain ⟨nextThread, taken⟩ := outcome
  have same : s.dispatcher.scheduler.findNextToRun.2 = taken := congrArg Prod.snd found
  rw [same]
  cases nextThread <;> rfl

/-- `Yield` under `SCHED_PRIO_P` is the same in both models. -/
theorem dispatcher_yield [DecidableEq Thread] (policy : s.scheduler.policy = .prioP) :
    s.dispatcher.yield = s.yield.map dispatcher := by
  have isPrioP : s.dispatcher.scheduler.policy = .prioP := policy
  have notRR : s.dispatcher.scheduler.policy ≠ .rr := by
    rw [isPrioP]
    exact SchedPolicy.noConfusion
  have current : s.dispatcher.currentThread = s.currentThread := rfl
  unfold Dispatcher.yield Kernel.yield
  simp only [if_neg notRR, if_pos isPrioP]
  change (if Fits (s.priority s.currentThread - Scheduler.maxPriority) ∧
      Fits (s.priority s.currentThread - Scheduler.maxPriority + s.threadID s.currentThread) then
    match (s.dispatcher.setPriority s.currentThread (s.priority s.currentThread -
      Scheduler.maxPriority + s.threadID s.currentThread)).findNextToRun with
    | (none, s) => _ | (some nextThread, s) => _ else _) = _
  rw [← dispatcher_update_priority, dispatcher_findNextToRun]
  generalize Kernel.findNextToRun _ = outcome
  obtain ⟨nextThread, after⟩ := outcome
  by_cases fits : Fits (s.priority s.currentThread - Scheduler.maxPriority) ∧
      Fits (s.priority s.currentThread - Scheduler.maxPriority + s.threadID s.currentThread)
  · rw [if_pos fits, if_pos fits]
    cases nextThread with
    | none => rfl
    | some nextThread =>
        dsimp only
        change (if after.priority s.currentThread ≤ after.priority nextThread then _ else _) = _
        split
        · rw [dispatcher_readyToRun, current]
          cases after.readyToRun s.currentThread with
          | error stop => rfl
          | ok ready => rfl
        · exact dispatcher_readyToRun after nextThread
  · rw [if_neg fits, if_neg fits]
    rfl

end Kernel

end Nachos
