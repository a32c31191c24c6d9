import Nachos.Scheduler
import Nachos.ThreadRegistry

/-!
# The life of a thread

Threads are created, forked, dispatched in any order, and finish (`threads/thread.cc`,
`Scheduler::Run` of `threads/scheduler.cc`, `threads/switch.s`).  A finished thread still
runs on its stack, so its deletion is left to the thread that next returns from `SWITCH`
in `Run`; a thread that runs for the first time enters `ThreadRoot` instead.

Which ready thread is dispatched, and which sleeping thread is made ready, is left open.
A thread in a `joinList` is in no queue of a synchronisation object, and nothing else calls
`ReadyToRun` for it.
-/

namespace Nachos

open TransitionRuns

/-- Where a thread is. -/
inductive Place where
  | created
  /-- On the ready list, and never dispatched. -/
  | fresh
  /-- On the ready list, inside of the `SWITCH` that it called. -/
  | ready
  | running
  /-- In `Sleep`, called for a synchronisation object. -/
  | asleep
  | joining
  /-- In `Sleep`, called by `Finish`. -/
  | finished
  deriving DecidableEq

/-- The `status` of a thread. -/
def Place.status : Place → ThreadStatus
  | created => .justCreated
  | fresh | ready => .ready
  | running => .running
  | asleep | joining | finished => .blocked

structure ThreadLifecycle where
  registry : ThreadRegistry
  place : Nat → Place
  threadToBeDestroyed : Option Nat
  joinList : Nat → List Nat

namespace ThreadLifecycle

/-- `create`, `fork`, `yield`, `sleep`, `join` and `finish` are calls of the running thread;
`dispatch` ends the `Sleep` or `Join` in which the processor was given up. -/
inductive Action where
  | create
  | fork (ref : Nat)
  | yield (next : Nat)
  | sleep
  | wake (ref : Nat)
  | join (target : Nat)
  | finish
  | dispatch (next : Nat)

/-- The thread that is running, unless it has given up the processor. -/
def running (s : ThreadLifecycle) : Except Halt Nat :=
  match s.registry.currentThread with
  | some ref => if s.place ref = .running then .ok ref else .error .impossible
  | none => .error .impossible

def goto (s : ThreadLifecycle) (ref : Nat) (place : Place) : ThreadLifecycle :=
  { s with place := Function.update s.place ref place }

@[simp]
theorem place_goto_self (s : ThreadLifecycle) (ref : Nat) (place : Place) :
    (s.goto ref place).place ref = place :=
  Function.update_self _ _ _

theorem place_goto_of_ne (s : ThreadLifecycle) {ref other : Nat} (different : other ≠ ref)
    (place : Place) : (s.goto ref place).place other = s.place other :=
  Function.update_of_ne different _ _

/-- A thread that `FindNextToRun` can return. -/
def IsReady (s : ThreadLifecycle) (ref : Nat) : Prop :=
  s.place ref = .fresh ∨ s.place ref = .ready

instance (s : ThreadLifecycle) (ref : Nat) : Decidable (s.IsReady ref) :=
  inferInstanceAs (Decidable (_ ∨ _))

/-- The end of `Scheduler::Run`, in a thread that returns from `SWITCH`. -/
def deleteFinished (s : ThreadLifecycle) : Except Halt ThreadLifecycle :=
  match s.threadToBeDestroyed with
  | none => .ok s
  | some ref => do
      let thread ← s.registry.find ref
      let registry ← (s.registry.destroy thread).mapError .fault
      return { s with registry := registry, threadToBeDestroyed := none }

/-- `Scheduler::Run`. -/
def run (s : ThreadLifecycle) (next : Nat) : Except Halt ThreadLifecycle :=
  let switched := { s with registry := { s.registry with currentThread := some next } }.goto next
    .running
  if s.place next = .fresh then .ok switched else switched.deleteFinished

def step (s : ThreadLifecycle) : Action → Except Halt ThreadLifecycle
  | .create => do
      let _ ← s.running
      let registry ← s.registry.construct.mapError .fault
      return { s with
        registry := registry
        place := Function.update s.place s.registry.created .created
        joinList := Function.update s.joinList s.registry.created [] }
  | .fork ref => do
      let _ ← s.running
      let thread ← s.registry.find ref
      if s.place ref = .created then do
        let registry ← (s.registry.fork thread).mapError .fault
        return { s with registry := registry }.goto ref .fresh
      else .error .impossible
  | .yield next => do
      let current ← s.running
      if s.IsReady next then (s.goto current .ready).run next else .error .impossible
  | .sleep => do
      let current ← s.running
      return s.goto current .asleep
  | .wake ref => if s.place ref = .asleep then .ok (s.goto ref .ready) else .error .impossible
  | .join target => do
      let current ← s.running
      let _ ← s.registry.find target
      if target = current then .error (.fault .assertion)
      else
        return { s with
          joinList := Function.update s.joinList target (s.joinList target ++ [current]) }.goto
            current .joining
  | .finish => do
      let current ← s.running
      return { s with threadToBeDestroyed := some current }.goto current .finished
  | .dispatch next =>
      match s.running with
      | .ok _ => .error .impossible
      | .error _ => if s.IsReady next then s.run next else .error .impossible

/-- `Initialize` has made the main thread. -/
def boot : ThreadLifecycle where
  registry := { ThreadRegistry.boot with
    tid := Function.update ThreadRegistry.boot.tid 0 1
    threadPort := Function.update ThreadRegistry.boot.threadPort 1 (some 0)
    threadnum := 1
    currentThread := some 0
    live := [⟨0, 0⟩]
    created := 1 }
  place := Function.update (fun _ => .created) 0 .running
  threadToBeDestroyed := none
  joinList := fun _ => []

example : ThreadRegistry.boot.construct =
    .ok { boot.registry with currentThread := none } :=
  rfl

section Transitions

variable {s next : ThreadLifecycle}

theorem running_eq_ok_iff {current : Nat} :
    s.running = .ok current ↔
      s.registry.currentThread = some current ∧ s.place current = .running := by
  unfold running
  cases s.registry.currentThread with
  | none => simp
  | some ref =>
      by_cases isRunning : s.place ref = .running
      · simp only [isRunning, if_true, Except.ok.injEq, Option.some.injEq]
        exact ⟨fun same => ⟨same, same ▸ isRunning⟩, And.left⟩
      · simp only [isRunning, if_false, reduceCtorEq, Option.some.injEq, false_iff, not_and]
        rintro rfl
        exact isRunning

/-- The steps that are carried out. -/
inductive Transition (s : ThreadLifecycle) : Action → ThreadLifecycle → Prop
  | create {registry : ThreadRegistry} (made : s.registry.construct = .ok registry) :
      Transition s .create { s with
        registry := registry
        place := Function.update s.place s.registry.created .created
        joinList := Function.update s.joinList s.registry.created [] }
  | fork {thread : ThreadObject} (live : thread ∈ s.registry.live)
      (new : s.place thread.ref = .created) :
      Transition s (.fork thread.ref) (s.goto thread.ref .fresh)
  | yield {current target : Nat} {after : ThreadLifecycle}
      (isRunning : s.running = .ok current) (ready : s.IsReady target)
      (ran : (s.goto current .ready).run target = .ok after) :
      Transition s (.yield target) after
  | sleep {current : Nat} (isRunning : s.running = .ok current) :
      Transition s .sleep (s.goto current .asleep)
  | wake {ref : Nat} (asleep : s.place ref = .asleep) :
      Transition s (.wake ref) (s.goto ref .ready)
  | join {current target : Nat} (isRunning : s.running = .ok current) (other : target ≠ current) :
      Transition s (.join target) ({ s with
        joinList := Function.update s.joinList target (s.joinList target ++ [current]) }.goto
          current .joining)
  | finish {current : Nat} (isRunning : s.running = .ok current) :
      Transition s .finish
        ({ s with threadToBeDestroyed := some current }.goto current .finished)
  | dispatch {target : Nat} {after : ThreadLifecycle} (idle : ∀ ref, s.running ≠ .ok ref)
      (ready : s.IsReady target) (ran : s.run target = .ok after) :
      Transition s (.dispatch target) after

theorem transition_of_step {action : Action} (done : s.step action = .ok next) :
    Transition s action next := by
  cases action with
  | create =>
      obtain ⟨current, -, done⟩ := bind_eq_ok_iff.mp done
      obtain ⟨registry, made, done⟩ := bind_eq_ok_iff.mp done
      cases done
      exact .create (ThreadRegistry.mapError_eq_ok_iff.mp made)
  | fork ref =>
      obtain ⟨current, -, done⟩ := bind_eq_ok_iff.mp done
      obtain ⟨thread, found, done⟩ := bind_eq_ok_iff.mp done
      split at done
      · next new =>
        rcases s.registry.find_cases ref with failed | ⟨other, live, rfl, equal⟩
        · rw [found] at failed
          cases failed
        · rw [found] at equal
          cases equal
          obtain ⟨registry, forked, done⟩ := bind_eq_ok_iff.mp done
          rw [ThreadRegistry.mapError_eq_ok_iff, ThreadRegistry.fork_eq_ok_iff] at forked
          obtain ⟨-, rfl⟩ := forked
          cases done
          exact .fork live new
      · cases done
  | yield target =>
      obtain ⟨current, isRunning, done⟩ := bind_eq_ok_iff.mp done
      split at done
      · next ready => exact .yield isRunning ready done
      · cases done
  | sleep =>
      obtain ⟨current, isRunning, done⟩ := bind_eq_ok_iff.mp done
      cases done
      exact .sleep isRunning
  | wake ref =>
      simp only [step] at done
      split at done
      · next asleep =>
        cases done
        exact .wake asleep
      · cases done
  | join target =>
      obtain ⟨current, isRunning, done⟩ := bind_eq_ok_iff.mp done
      obtain ⟨thread, found, done⟩ := bind_eq_ok_iff.mp done
      split at done
      · cases done
      · next other =>
        cases done
        exact .join isRunning other
  | finish =>
      obtain ⟨current, isRunning, done⟩ := bind_eq_ok_iff.mp done
      cases done
      exact .finish isRunning
  | dispatch target =>
      simp only [step] at done
      split at done
      · cases done
      · next failed =>
        split at done
        · next ready =>
          refine .dispatch (fun ref isRunning => ?_) ready done
          rw [isRunning] at failed
          cases failed
        · cases done

/-- What `Run` does beside the dispatch: the thread that has finished is deleted, unless
there is none or `ThreadRoot` is entered. -/
theorem run_cases {target : Nat} (ran : s.run target = .ok next) :
    next = { s with registry := { s.registry with currentThread := some target } }.goto target
        .running ∧ (s.place target = .fresh ∨ s.threadToBeDestroyed = none) ∨
      ∃ thread ∈ s.registry.live, ∃ registry,
        s.threadToBeDestroyed = some thread.ref ∧
        { s.registry with currentThread := some target }.destroy thread = .ok registry ∧
        next =
          { s with registry := registry, threadToBeDestroyed := none }.goto target .running := by
  unfold run at ran
  dsimp only at ran
  split at ran
  · next fresh =>
    cases ran
    exact Or.inl ⟨rfl, Or.inl fresh⟩
  · unfold deleteFinished at ran
    split at ran
    · next nobody =>
      cases ran
      exact Or.inl ⟨rfl, Or.inr nobody⟩
    · next ref pending =>
      obtain ⟨thread, found, ran⟩ := bind_eq_ok_iff.mp ran
      obtain ⟨registry, deleted, ran⟩ := bind_eq_ok_iff.mp ran
      cases ran
      rcases ThreadRegistry.find_cases _ ref with failed | ⟨other, live, rfl, equal⟩
      · rw [found] at failed
        cases failed
      · rw [found] at equal
        cases equal
        exact Or.inr ⟨thread, live, registry, pending,
          ThreadRegistry.mapError_eq_ok_iff.mp deleted, rfl⟩

end Transitions

section Sane

/-- What every run keeps. -/
structure Sane (s : ThreadLifecycle) : Prop where
  identified : s.registry.Identified
  untouched : ∀ ref, s.registry.created ≤ ref → s.place ref = .created
  kept : ∀ ref < s.registry.created, s.place ref ≠ .finished →
    ∃ thread ∈ s.registry.live, thread.ref = ref
  pending : ∀ ref, s.threadToBeDestroyed = some ref → s.place ref = .finished ∧
    ∃ thread ∈ s.registry.live, thread.ref = ref
  joined : ∀ target, ∀ ref ∈ s.joinList target, s.place ref = .joining

variable {s next : ThreadLifecycle}

theorem sane_boot : Sane boot := by
  refine ⟨⟨by decide, by decide, by decide, fun index inside => ?_⟩, fun ref bound => ?_,
    fun ref bound _ => ⟨⟨0, 0⟩, by decide, ?_⟩, nofun, nofun⟩
  · by_cases first : index = 0
    · subst first
      exact Or.inr ⟨rfl, ⟨0, 0⟩, by decide⟩
    · refine Or.inl ⟨Function.update_of_ne first _ _, fun thread live => ?_⟩
      rw [List.mem_singleton.mp live]
      exact fun equal => first (Int.ofNat_inj.mp equal).symm
  · have later : ref ≠ 0 := Nat.ne_of_gt bound
    simp [boot, later]
  · exact (Nat.lt_one_iff.mp bound).symm

theorem Sane.lt_created (sane : Sane s) {ref : Nat} (used : s.place ref ≠ .created) :
    ref < s.registry.created := by
  by_contra beyond
  exact used (sane.untouched ref (Nat.le_of_not_lt beyond))

theorem Sane.lt_of_running (sane : Sane s) {current : Nat} (isRunning : s.running = .ok current) :
    current < s.registry.created := by
  apply sane.lt_created
  rw [(running_eq_ok_iff.mp isRunning).2]
  exact nofun

/-- A thread that is not in a `joinList` goes on. -/
theorem Sane.goto (sane : Sane s) {ref : Nat} {target : Place} (old : ref < s.registry.created)
    (unjoined : s.place ref ≠ .joining) (unfinished : s.place ref ≠ .finished) :
    Sane (s.goto ref target) := by
  refine ⟨sane.identified, fun other bound => ?_, fun other bound stays => ?_,
    fun other pending => ?_, fun list other member => ?_⟩
  · rw [place_goto_of_ne s (Nat.ne_of_gt (lt_of_lt_of_le old bound))]
    exact sane.untouched other bound
  · by_cases same : other = ref
    · exact sane.kept other bound (same ▸ unfinished)
    · rw [place_goto_of_ne s same] at stays
      exact sane.kept other bound stays
  · obtain ⟨finished, live⟩ := sane.pending other pending
    have different : other ≠ ref := fun same => unfinished (same ▸ finished)
    rw [place_goto_of_ne s different]
    exact ⟨finished, live⟩
  · have joining := sane.joined list other member
    have different : other ≠ ref := fun same => unjoined (same ▸ joining)
    rwa [place_goto_of_ne s different]

theorem Sane.withCurrent (sane : Sane s) (current : Option Nat) :
    Sane { s with registry := { s.registry with currentThread := current } } :=
  ⟨sane.identified.withCurrent current, sane.untouched, sane.kept, sane.pending, sane.joined⟩

/-- The thread that has finished is deleted. -/
theorem Sane.delete (sane : Sane s) {thread : ThreadObject} {registry : ThreadRegistry}
    (live : thread ∈ s.registry.live) (pending : s.threadToBeDestroyed = some thread.ref)
    (deleted : s.registry.destroy thread = .ok registry) :
    Sane { s with registry := registry, threadToBeDestroyed := none } := by
  obtain ⟨-, created, others, -⟩ := ThreadRegistry.destroy_eq_ok deleted
  obtain ⟨finished, -⟩ := sane.pending thread.ref pending
  refine ⟨sane.identified.destroy live deleted, ?_, ?_, nofun, sane.joined⟩
  · dsimp only
    rw [created]
    exact sane.untouched
  · dsimp only
    rw [created, others]
    intro ref bound unfinished
    obtain ⟨other, member, rfl⟩ := sane.kept ref bound unfinished
    refine ⟨other, List.mem_filter.mpr ⟨member, decide_eq_true fun same => ?_⟩, rfl⟩
    rw [same] at unfinished
    exact unfinished finished

theorem Sane.run (sane : Sane s) {target : Nat} (ready : s.IsReady target)
    (ran : s.run target = .ok next) : Sane next := by
  have old : target < s.registry.created :=
    sane.lt_created (by rcases ready with ready | ready <;> simp [ready])
  have unjoined : s.place target ≠ .joining := by
    rcases ready with ready | ready <;> simp [ready]
  have unfinished : s.place target ≠ .finished := by
    rcases ready with ready | ready <;> simp [ready]
  rcases run_cases ran with ⟨rfl, -⟩ | ⟨thread, live, registry, pending, deleted, rfl⟩
  · exact (sane.withCurrent (some target)).goto old unjoined unfinished
  · obtain ⟨-, created, -⟩ := ThreadRegistry.destroy_eq_ok deleted
    have deletedSane := (sane.withCurrent (some target)).delete live pending deleted
    refine deletedSane.goto ?_ unjoined unfinished
    dsimp only
    rwa [created]

/-- The thread that yields is on the ready list, but does not run itself next. -/
theorem isReady_goto {current target : Nat} (isRunning : s.running = .ok current)
    (ready : s.IsReady target) (place : Place) : (s.goto current place).IsReady target := by
  have different : target ≠ current := by
    rintro rfl
    rw [IsReady, (running_eq_ok_iff.mp isRunning).2] at ready
    rcases ready with ready | ready <;> cases ready
  unfold IsReady
  rwa [place_goto_of_ne s different]

theorem Sane.transition (sane : Sane s) {action : Action} (step : Transition s action next) :
    Sane next := by
  cases step with
  | @create registry made =>
      obtain ⟨-, created, ids⟩ := ThreadRegistry.construct_eq_ok made
      have member : ∃ id, registry.live = s.registry.live ++ [⟨s.registry.created, id⟩] := by
        rcases ids with ⟨-, live⟩ | ⟨index, -, -, -, live⟩
        · exact ⟨-1, live⟩
        · exact ⟨index, live⟩
      obtain ⟨id, live⟩ := member
      have place : ∀ ref, ref ≠ s.registry.created →
          Function.update s.place s.registry.created .created ref = s.place ref :=
        fun ref different => Function.update_of_ne different _ _
      refine ⟨sane.identified.construct made, fun ref bound => ?_, fun ref bound unfinished => ?_,
        fun ref pending => ?_, fun target ref listed => ?_⟩
      · dsimp only at bound ⊢
        rw [place ref (by omega)]
        exact sane.untouched ref (by omega)
      · dsimp only at bound unfinished ⊢
        rw [live]
        by_cases same : ref = s.registry.created
        · exact ⟨⟨s.registry.created, id⟩, by simp, same.symm⟩
        · rw [place ref same] at unfinished
          obtain ⟨thread, old, equal⟩ := sane.kept ref (by omega) unfinished
          exact ⟨thread, List.mem_append_left _ old, equal⟩
      · obtain ⟨finished, thread, old, equal⟩ := sane.pending ref pending
        have bound := sane.lt_created (show s.place ref ≠ .created by simp [finished])
        dsimp only
        rw [place ref (by omega), live]
        exact ⟨finished, thread, List.mem_append_left _ old, equal⟩
      · dsimp only at listed ⊢
        by_cases same : target = s.registry.created
        · subst same
          simp at listed
        · rw [Function.update_of_ne same] at listed
          have joining := sane.joined target ref listed
          have bound := sane.lt_created (show s.place ref ≠ .created by simp [joining])
          rw [place ref (by omega), joining]
  | fork live new =>
      exact sane.goto (sane.identified.fresh _ live) (by simp [new]) (by simp [new])
  | yield isRunning ready ran =>
      have here := (running_eq_ok_iff.mp isRunning).2
      have yielded : Sane (s.goto _ .ready) :=
        sane.goto (sane.lt_of_running isRunning) (by simp [here]) (by simp [here])
      exact yielded.run (isReady_goto isRunning ready .ready) ran
  | sleep isRunning =>
      have here := (running_eq_ok_iff.mp isRunning).2
      exact sane.goto (sane.lt_of_running isRunning) (by simp [here]) (by simp [here])
  | wake asleep =>
      exact sane.goto (sane.lt_created (by simp [asleep])) (by simp [asleep]) (by simp [asleep])
  | @join current target isRunning other =>
      have here := (running_eq_ok_iff.mp isRunning).2
      have joined : Sane (s.goto current .joining) :=
        sane.goto (sane.lt_of_running isRunning) (by simp [here]) (by simp [here])
      refine ⟨joined.identified, joined.untouched, joined.kept, joined.pending,
        fun list ref listed => ?_⟩
      by_cases same : list = target
      · subst same
        change ref ∈ Function.update s.joinList list _ list at listed
        rw [Function.update_self, List.mem_append, List.mem_singleton] at listed
        rcases listed with listed | rfl
        · exact joined.joined list ref listed
        · exact place_goto_self _ ref .joining
      · change ref ∈ Function.update s.joinList target _ list at listed
        rw [Function.update_of_ne same] at listed
        exact joined.joined list ref listed
  | @finish current isRunning =>
      have here := (running_eq_ok_iff.mp isRunning).2
      have finished : Sane (s.goto current .finished) :=
        sane.goto (sane.lt_of_running isRunning) (by simp [here]) (by simp [here])
      refine ⟨finished.identified, finished.untouched, finished.kept, fun ref pending => ?_,
        finished.joined⟩
      cases pending
      exact ⟨place_goto_self _ current .finished,
        sane.kept current (sane.lt_of_running isRunning) (by simp [here])⟩
  | dispatch idle ready ran => exact sane.run ready ran

end Sane

section Reclaim

/-- At most one finished thread was not deleted, and the marked IDs are those of the
unfinished threads, none of which was deleted, and of that one. -/
structure Reclaimed (s : ThreadLifecycle) : Prop where
  pending : ∀ thread ∈ s.registry.live, s.place thread.ref = .finished →
    s.threadToBeDestroyed = some thread.ref
  kept : ∀ ref < s.registry.created, s.place ref ≠ .finished →
    ∃ thread ∈ s.registry.live, thread.ref = ref
  marked : ∀ index < ThreadRegistry.maxThreadNum, s.registry.tid index = 1 ↔
    (∃ thread ∈ s.registry.live, s.place thread.ref ≠ .finished ∧ thread.threadID = index) ∨
      ∃ thread ∈ s.registry.live, s.threadToBeDestroyed = some thread.ref ∧
        thread.threadID = index

/-- A thread finishes while no other one waits to be deleted. -/
def Prompt (s : ThreadLifecycle) : Action → Prop
  | .finish => s.threadToBeDestroyed = none
  | _ => True

/-- Every finished thread waits to be deleted by `Run`. -/
def AllPending (s : ThreadLifecycle) : Prop :=
  ∀ thread ∈ s.registry.live, s.place thread.ref = .finished →
    s.threadToBeDestroyed = some thread.ref

variable {s next : ThreadLifecycle}

theorem Sane.reclaimed (sane : Sane s) (pending : AllPending s) : Reclaimed s := by
  refine ⟨pending, sane.kept, fun index inside => ?_⟩
  rw [sane.identified.marked inside]
  constructor
  · rintro ⟨thread, live, id⟩
    by_cases finished : s.place thread.ref = .finished
    · exact Or.inr ⟨thread, live, pending thread live finished, id⟩
    · exact Or.inl ⟨thread, live, finished, id⟩
  · rintro (⟨thread, live, -, id⟩ | ⟨thread, live, -, id⟩) <;> exact ⟨thread, live, id⟩

theorem AllPending.goto (pending : AllPending s) (ref : Nat) {target : Place}
    (unfinished : target ≠ .finished) : AllPending (s.goto ref target) := by
  intro thread live finished
  by_cases same : thread.ref = ref
  · rw [same, place_goto_self] at finished
    exact absurd finished unfinished
  · rw [place_goto_of_ne s same] at finished
    exact pending thread live finished

theorem AllPending.run (pending : AllPending s) {target : Nat} (ran : s.run target = .ok next) :
    AllPending next := by
  rcases run_cases ran with ⟨rfl, -⟩ | ⟨thread, live, registry, waits, deleted, rfl⟩
  · exact AllPending.goto pending target nofun
  · obtain ⟨-, -, others, -⟩ := ThreadRegistry.destroy_eq_ok deleted
    refine AllPending.goto (fun other member finished => ?_) target nofun
    dsimp only at member
    rw [others, List.mem_filter] at member
    have same := pending other member.1 finished
    rw [waits] at same
    simp [Option.some.inj same] at member

theorem AllPending.transition (pending : AllPending s) {action : Action}
    (step : Transition s action next) (prompt : Prompt s action) : AllPending next := by
  cases step with
  | @create registry made =>
      obtain ⟨-, created, ids⟩ := ThreadRegistry.construct_eq_ok made
      intro thread live finished
      have different : thread.ref ≠ s.registry.created := by
        intro same
        rw [show thread.ref = s.registry.created from same] at finished
        simp at finished
      have old : thread ∈ s.registry.live := by
        rcases ids with ⟨-, appended⟩ | ⟨index, -, -, -, appended⟩ <;>
        · dsimp only at live
          rw [appended, List.mem_append, List.mem_singleton] at live
          refine live.resolve_right fun new => different ?_
          rw [new]
      dsimp only at finished
      rw [Function.update_of_ne different] at finished
      exact pending thread old finished
  | fork live new => exact pending.goto _ nofun
  | @yield current target after isRunning ready ran =>
      have yielded : AllPending (s.goto current .ready) := pending.goto current nofun
      exact yielded.run ran
  | sleep isRunning => exact pending.goto _ nofun
  | wake asleep => exact pending.goto _ nofun
  | @join current target isRunning other => exact pending.goto current nofun
  | @finish current isRunning =>
      intro thread live finished
      by_cases same : thread.ref = current
      · rw [same]
        rfl
      · rw [place_goto_of_ne _ same] at finished
        have waits := pending thread live finished
        rw [show s.threadToBeDestroyed = none from prompt] at waits
        cases waits
  | dispatch idle ready ran => exact pending.run ran

/-- A thread that finishes while another one waits to be deleted takes its place. -/
theorem not_reclaimed_of_finish (sane : Sane s) (step : Transition s .finish next)
    (occupied : s.threadToBeDestroyed ≠ none) : ¬ Reclaimed next := by
  intro reclaimed
  obtain ⟨ref, waits⟩ := Option.ne_none_iff_exists'.mp occupied
  obtain ⟨finished, thread, live, rfl⟩ := sane.pending ref waits
  cases step with
  | @finish current isRunning =>
      have different : thread.ref ≠ current := by
        intro same
        rw [same, (running_eq_ok_iff.mp isRunning).2] at finished
        cases finished
      have overwritten := reclaimed.pending thread live
        ((place_goto_of_ne _ different _).trans finished)
      exact different (Option.some.inj overwritten).symm

/-- In all states of a run the finished threads are reclaimed exactly when threads only
finish while no other finished thread waits to be deleted. -/
theorem reclaimed_along_run_iff (actions : List Action) :
    AlongRun step Reclaimed boot actions ↔ RunAllowed step Prompt boot actions := by
  have start : Sane boot ∧ AllPending boot := by
    refine ⟨sane_boot, fun thread live finished => ?_⟩
    rw [List.mem_singleton.mp live] at finished
    cases finished
  refine alongRun_iff_runAllowed ?_
    (fun s (holds : Sane s ∧ AllPending s) => holds.1.reclaimed holds.2) ?_ start
  · rintro s action next ⟨sane, pending⟩ prompt done
    have transition := transition_of_step done
    exact ⟨sane.transition transition, pending.transition transition prompt⟩
  · rintro s action next ⟨sane, pending⟩ late done
    cases action with
    | finish => exact not_reclaimed_of_finish sane (transition_of_step done) late
    | _ => exact absurd trivial late

/-- The first thread finishes, the second one is dispatched for the first time and finishes:
nobody deletes the first one. -/
theorem finished_thread_lost :
    ¬ AlongRun step Reclaimed boot [.create, .create, .fork 1, .fork 2, .sleep, .dispatch 1,
      .finish, .dispatch 2, .finish] := by
  intro along
  obtain ⟨last, reached, first, second, live⟩ : ∃ last : ThreadLifecycle,
      TransitionRuns.run step boot [.create, .create, .fork 1, .fork 2, .sleep, .dispatch 1,
        .finish, .dispatch 2, .finish] = .ok last ∧
      last.place 1 = .finished ∧ last.threadToBeDestroyed = some 2 ∧
      last.registry.live = [⟨0, 0⟩, ⟨1, 1⟩, ⟨2, 2⟩] := ⟨_, rfl, rfl, rfl, rfl⟩
  have pending := (alongRun_last along reached).pending ⟨1, 1⟩ (by rw [live]; decide) first
  rw [second] at pending
  cases pending

end Reclaim

section Joiners

/-- No thread is blocked in the `joinList` of a thread that has finished and has given up
the processor. -/
def Released (s : ThreadLifecycle) : Prop :=
  ∀ target, s.place target = .finished → s.registry.currentThread ≠ some target →
    ∀ ref ∈ s.joinList target, (s.place ref).status ≠ .blocked

/-- A thread that calls `Join` on a finished thread can go on some day. -/
def JoinReturns (s : ThreadLifecycle) : Action → Prop
  | .join target => s.place target = .finished → ∀ current next, s.running = .ok current →
      s.step (.join target) = .ok next →
      ∃ actions last, TransitionRuns.run step next actions = .ok last ∧
        (last.place current).status ≠ .blocked
  | _ => True

/-- `Join` is called on threads that have not finished, and nobody is in the `joinList` of
a finished thread when it gives up the processor. -/
def InTime (s : ThreadLifecycle) : Action → Prop
  | .join target => s.place target ≠ .finished
  | .dispatch _ => ∀ target, s.registry.currentThread = some target →
      s.place target = .finished → s.joinList target = []
  | _ => True

variable {s next : ThreadLifecycle}

/-- What `Run` does to the threads. -/
theorem run_threads {target : Nat} (ran : s.run target = .ok next) :
    next.place = Function.update s.place target .running ∧
      next.registry.currentThread = some target ∧ next.joinList = s.joinList := by
  rcases run_cases ran with ⟨rfl, -⟩ | ⟨thread, live, registry, waits, deleted, rfl⟩
  · exact ⟨rfl, rfl, rfl⟩
  · exact ⟨rfl, (ThreadRegistry.destroy_eq_ok deleted).1, rfl⟩

/-- Nothing gets a thread out of a `joinList`. -/
theorem Sane.joining_transition (sane : Sane s) {action : Action}
    (step : Transition s action next) {ref : Nat} (joining : s.place ref = .joining) :
    next.place ref = .joining := by
  have kept : ∀ other, s.place other ≠ .joining → ∀ place,
      Function.update s.place other place ref = .joining := by
    intro other elsewhere place
    have different : ref ≠ other := fun same => elsewhere (same ▸ joining)
    rw [Function.update_of_ne different, joining]
  have switched : ∀ target, s.IsReady target → s.place target ≠ .joining := by
    intro target ready
    rcases ready with ready | ready <;> simp [ready]
  have left : ∀ current, s.running = .ok current → s.place current ≠ .joining := by
    intro current isRunning
    simp [(running_eq_ok_iff.mp isRunning).2]
  cases step with
  | create made =>
      have unused := sane.untouched s.registry.created le_rfl
      exact kept _ (by simp [unused]) _
  | fork live new => exact kept _ (by simp [new]) _
  | @yield current target after isRunning ready ran =>
      have different : ref ≠ target := fun same => switched target ready (same ▸ joining)
      rw [(run_threads ran).1, Function.update_of_ne different]
      exact kept current (left current isRunning) .ready
  | sleep isRunning => exact kept _ (left _ isRunning) _
  | wake asleep => exact kept _ (by simp [asleep]) _
  | join isRunning other => exact kept _ (left _ isRunning) _
  | finish isRunning => exact kept _ (left _ isRunning) _
  | dispatch idle ready ran =>
      rw [(run_threads ran).1]
      exact kept _ (switched _ ready) _

/-- A thread that has called `Join` stays blocked for ever. -/
theorem Sane.joining_run (sane : Sane s) {ref : Nat} (joining : s.place ref = .joining)
    {actions : List Action} {last : ThreadLifecycle}
    (reached : TransitionRuns.run step s actions = .ok last) : last.place ref = .joining := by
  induction actions generalizing s with
  | nil =>
      cases reached
      exact joining
  | cons action actions ih =>
      obtain ⟨next, stepped, rest⟩ := run_cons_eq_ok_iff.mp reached
      have transition := transition_of_step stepped
      exact ih (sane.transition transition) (sane.joining_transition transition joining) rest

/-- The `joinList` of a thread that is gone is empty. -/
def NobodyLeft (s : ThreadLifecycle) : Prop :=
  ∀ target, s.place target = .finished → s.registry.currentThread ≠ some target →
    s.joinList target = []

theorem NobodyLeft.released (nobody : NobodyLeft s) : Released s := by
  intro target finished gone ref listed
  rw [nobody target finished gone] at listed
  cases listed

theorem NobodyLeft.goto (nobody : NobodyLeft s) (ref : Nat) {place : Place}
    (unfinished : place ≠ .finished) : NobodyLeft (s.goto ref place) := by
  intro target finished gone
  by_cases same : target = ref
  · rw [same, place_goto_self] at finished
    exact absurd finished unfinished
  · rw [place_goto_of_ne s same] at finished
    exact nobody target finished gone

/-- The processor is given to another thread. -/
theorem NobodyLeft.run (nobody : NobodyLeft s) {target : Nat}
    (current : ∀ ref, s.registry.currentThread = some ref → s.place ref = .finished →
      s.joinList ref = [])
    (ran : s.run target = .ok next) : NobodyLeft next := by
  obtain ⟨place, -, joinList⟩ := run_threads ran
  intro ref finished gone
  rw [place] at finished
  rw [joinList]
  have different : ref ≠ target := by
    rintro rfl
    simp at finished
  rw [Function.update_of_ne different] at finished
  by_cases last : s.registry.currentThread = some ref
  · exact current ref last finished
  · exact nobody ref finished last

theorem NobodyLeft.transition (nobody : NobodyLeft s) {action : Action}
    (step : Transition s action next) (inTime : InTime s action) : NobodyLeft next := by
  cases step with
  | @create registry made =>
      obtain ⟨current, -⟩ := ThreadRegistry.construct_eq_ok made
      intro target finished gone
      dsimp only at finished gone ⊢
      have different : target ≠ s.registry.created := by
        rintro rfl
        simp at finished
      rw [Function.update_of_ne different] at finished ⊢
      exact nobody target finished (current ▸ gone)
  | fork live new => exact nobody.goto _ nofun
  | @yield current target after isRunning ready ran =>
      have yielded : NobodyLeft (s.goto current .ready) := nobody.goto current nofun
      refine yielded.run (fun ref last finished => ?_) ran
      have same := (running_eq_ok_iff.mp isRunning).1
      rw [show s.registry.currentThread = some ref from last] at same
      rw [Option.some.inj same, place_goto_self] at finished
      cases finished
  | sleep isRunning => exact nobody.goto _ nofun
  | wake asleep => exact nobody.goto _ nofun
  | @join current target isRunning other =>
      refine NobodyLeft.goto (fun ref finished gone => ?_) current nofun
      by_cases same : ref = target
      · rw [same] at finished
        exact absurd finished inTime
      · exact (Function.update_of_ne same _ _).trans (nobody ref finished gone)
  | @finish current isRunning =>
      intro target finished gone
      have different : target ≠ current := by
        rintro rfl
        exact gone (running_eq_ok_iff.mp isRunning).1
      rw [place_goto_of_ne _ different] at finished
      exact nobody target finished gone
  | dispatch idle ready ran => exact nobody.run inTime ran

/-- A thread that is in the `joinList` of a finished thread, or gets there, is stranded. -/
theorem not_released_of_late (sane : Sane s) {action : Action} (step : Transition s action next)
    (late : ¬ InTime s action) : ¬ Released next := by
  intro released
  have after := sane.transition step
  obtain ⟨target, ref, finished, gone, listed⟩ : ∃ target ref, next.place target = .finished ∧
      next.registry.currentThread ≠ some target ∧ ref ∈ next.joinList target := by
    cases step with
    | @join current target isRunning other =>
        refine ⟨target, current, ?_, fun same => ?_, ?_⟩
        · rw [place_goto_of_ne _ other]
          exact not_not.mp late
        · have last := (running_eq_ok_iff.mp isRunning).1
          rw [show s.registry.currentThread = some target from same] at last
          exact other (Option.some.inj last)
        · change current ∈ Function.update s.joinList target _ target
          simp
    | @dispatch target after idle ready ran =>
        simp only [InTime, Classical.not_forall] at late
        obtain ⟨owner, last, finished, waits⟩ := late
        obtain ⟨ref, listed⟩ := List.exists_mem_of_ne_nil _ waits
        obtain ⟨place, current, joinList⟩ := run_threads ran
        have different : owner ≠ target := by
          rintro rfl
          rcases ready with ready | ready <;> simp [ready] at finished
        refine ⟨owner, ref, ?_, ?_, by rwa [joinList]⟩
        · rw [place, Function.update_of_ne different, finished]
        · rw [current]
          exact fun same => different (Option.some.inj same).symm
    | _ => exact absurd trivial late
  apply released target finished gone ref listed
  rw [after.joined target ref listed]
  rfl

/-- In a run no thread is stranded in a `joinList` exactly when `Join` is only called on
threads that have not finished, and threads that finish give up the processor with an empty
`joinList`. -/
theorem joiners_released_iff (actions : List Action) :
    (AlongRun step Released boot actions ∧ RunAllowed step JoinReturns boot actions) ↔
      RunAllowed step InTime boot actions := by
  have start : Sane boot ∧ NobodyLeft boot := ⟨sane_boot, fun _ _ _ => rfl⟩
  have along : AlongRun step Released boot actions ↔ RunAllowed step InTime boot actions := by
    refine alongRun_iff_runAllowed ?_
      (fun s (holds : Sane s ∧ NobodyLeft s) => holds.2.released) ?_ start
    · rintro s action next ⟨sane, nobody⟩ inTime done
      have transition := transition_of_step done
      exact ⟨sane.transition transition, nobody.transition transition inTime⟩
    · rintro s action next ⟨sane, -⟩ late done
      exact not_released_of_late sane (transition_of_step done) late
  refine ⟨fun holds => along.mp holds.1, fun inTime => ⟨along.mpr inTime, ?_⟩⟩
  apply inTime.mono
  intro s action now
  cases action with
  | join target => exact fun finished => absurd finished now
  | _ => trivial

/-- The main thread joins the first thread, which then finishes. -/
theorem joiner_stranded :
    ¬ (AlongRun step Released boot [.create, .create, .fork 1, .fork 2, .join 1, .dispatch 1,
        .finish, .dispatch 2] ∧
      RunAllowed step JoinReturns boot [.create, .create, .fork 1, .fork 2, .join 1,
        .dispatch 1, .finish, .dispatch 2]) := by
  rintro ⟨along, -⟩
  obtain ⟨last, reached, finished, current, listed, joining⟩ : ∃ last : ThreadLifecycle,
      TransitionRuns.run step boot [.create, .create, .fork 1, .fork 2, .join 1, .dispatch 1,
        .finish, .dispatch 2] = .ok last ∧
      last.place 1 = .finished ∧ last.registry.currentThread = some 2 ∧
      last.joinList 1 = [0] ∧ last.place 0 = .joining := ⟨_, rfl, rfl, rfl, rfl, rfl⟩
  apply alongRun_last along reached 1 finished (by simp [current]) 0 (by simp [listed])
  rw [joining]
  rfl

end Joiners

end ThreadLifecycle

end Nachos
