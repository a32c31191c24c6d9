import Nachos.LinkedList
import Nachos.MonitorRuns

/-!
# Synchronized lists

`class SynchList` of `threads/synchlist.cc` for any number of threads that append and
remove items.  The items are pointers other than `NULL`.  What was ever put on the list
and taken off it is recorded beside it.
-/

namespace Nachos

open MesaMonitor TransitionRuns ThreadCounting

/-- The list of `class SynchList`, and the items that were appended and removed. -/
structure SynchList (Item : Type) where
  list : LinkedList Item
  appended : List Item
  removed : List Item

namespace SynchList

variable {Item Thread : Type}

/-- What a thread calls. -/
inductive Call (Item : Type) where
  | append (item : Item)
  | remove

/-- The points of `Append` and `Remove`, and of a thread that calls them. -/
inductive Pc (Item : Type) where
  | outside
  | appendAcquire (item : Item)
  | append (item : Item)
  | appendSignal
  | appendRelease
  | removeAcquire
  | removeTest
  | removeWait
  | removeRelease (item : Item)
  deriving DecidableEq

/-- `SynchList::SynchList`. -/
def new : SynchList Item :=
  ⟨.empty, [], []⟩

def put (s : SynchList Item) (item : Item) : SynchList Item :=
  { s with list := s.list.append item, appended := s.appended ++ [item] }

/-- The test in the loop of `Remove`, and what follows the loop; there is no item if the
thread has to wait. -/
def take (s : SynchList Item) : Except Fault (SynchList Item × Option Item) :=
  if s.list.isEmpty then .ok (s, none)
  else
    match s.list.remove.1 with
    | none => .error .assertion
    | some item => .ok ({ s with
        list := s.list.remove.2
        removed := s.removed ++ [item] }, some item)

def code : Pc Item → Instr Thread (SynchList Item) (Pc Item) Empty Unit Unit (Call Item) Fault
  | .outside => .run fun _ call s => .ok (s,
      match call with
      | .append item => .appendAcquire item
      | .remove => .removeAcquire)
  | .appendAcquire item => .acquire () (.append item)
  | .append item => .run fun _ _ s => .ok (s.put item, .appendSignal)
  | .appendSignal => .signal () .appendRelease
  | .appendRelease => .release () .outside
  | .removeAcquire => .acquire () .removeTest
  | .removeTest => .run fun _ _ s => do
      let (s, item) ← s.take
      return (s,
        match item with
        | none => .removeWait
        | some item => .removeRelease item)
  | .removeWait => .wait () .removeTest
  | .removeRelease _ => .release () .outside

def program : FlowChart Thread (SynchList Item) (Pc Item) Empty Unit Unit (Call Item) Fault where
  code := code
  lockOf := fun _ => ()
  interrupt := fun _ _ => none

/-- An empty list, and threads that have not used it. -/
def boot : SynchSystem Thread (SynchList Item) (Pc Item) Empty Unit Unit :=
  .boot new (fun sem => sem.elim) fun _ => .outside

/-- The points where the lock is held. -/
def critical : Pc Item → Option Unit
  | .outside | .appendAcquire _ | .removeAcquire => none
  | _ => some ()

/-- `Remove` waits for an item or takes the first one; its assertion does not fail. -/
theorem take_cases (s : SynchList Item) :
    (s.list.items = [] ∧ s.take = .ok (s, none)) ∨
      ∃ item, s.list.items = item :: s.list.remove.2.items ∧
        s.take = .ok ({ s with
          list := s.list.remove.2
          removed := s.removed ++ [item] }, some item) := by
  by_cases empty : s.list.isEmpty = true
  · exact Or.inl ⟨LinkedList.isEmpty_eq_true_iff.mp empty, if_pos empty⟩
  · apply Or.inr
    cases removed : s.list.remove.1 with
    | none =>
        rw [LinkedList.remove_eq_none_iff] at removed
        exact absurd (LinkedList.isEmpty_eq_true_iff.mpr removed) empty
    | some item => exact ⟨item, LinkedList.items_eq_remove removed, by simp [take, empty, removed]⟩

theorem labelled :
    (program : FlowChart Thread (SynchList Item) _ _ _ _ _ _).Labelled critical := by
  intro pc
  cases pc with
  | outside =>
      intro thread call s result done
      cases done
      cases call <;> rfl
  | append =>
      intro thread call s result done
      cases done
      rfl
  | removeTest =>
      intro thread call s result done
      dsimp only at done
      rcases s.take_cases with ⟨-, equal⟩ | ⟨item, -, equal⟩
      · rw [equal] at done
        cases done
        rfl
      · rw [equal] at done
        cases done
        rfl
  | appendAcquire | appendSignal | appendRelease | removeAcquire | removeWait | removeRelease =>
      exact ⟨rfl, rfl⟩

section Invariant

/-- What one thread can do to the list and where it can get by that, apart from
notifying others. -/
inductive Edge (s : SynchList Item) :
    Stage (Pc Item) → SynchList Item → Stage (Pc Item) → Prop
  | callAppend (item : Item) : Edge s (.active .outside) s (.active (.appendAcquire item))
  | callRemove : Edge s (.active .outside) s (.active .removeAcquire)
  | acquireAppend (item : Item) :
      Edge s (.active (.appendAcquire item)) s (.active (.append item))
  | put (item : Item) : Edge s (.active (.append item)) (s.put item) (.active .appendSignal)
  | releaseAppend : Edge s (.active .appendRelease) s (.active .outside)
  | acquireRemove : Edge s (.active .removeAcquire) s (.active .removeTest)
  | blocked (empty : s.list.items = []) : Edge s (.active .removeTest) s (.active .removeWait)
  | take (item : Item) (first : s.list.items = item :: s.list.remove.2.items) :
      Edge s (.active .removeTest)
        { s with list := s.list.remove.2, removed := s.removed ++ [item] }
        (.active (.removeRelease item))
  | wait : Edge s (.active .removeWait) s (.waiting .removeWait)
  | resume : Edge s (.signalled .removeWait) s (.active .removeTest)
  | releaseRemove (item : Item) : Edge s (.active (.removeRelease item)) s (.active .outside)

/-- The items come off the list in the order in which they were put there.  While threads
wait there are no more items than threads that are still to notify or to test the list. -/
structure Invariant (s : SynchList Item) (n : Stage (Pc Item) → Nat) : Prop where
  fifo : s.appended = s.removed ++ s.list.items
  empty : 0 < n (.active .removeWait) → s.list.items = []
  awake : 0 < n (.waiting .removeWait) → s.list.items.length ≤
    n (.signalled .removeWait) + n (.active .removeTest) + n (.active .appendSignal)

variable {s changed : SynchList Item} {n : Stage (Pc Item) → Nat}
  {source target : Stage (Pc Item)}

/-- While a thread is inside there is nobody at the other points there. -/
def Alone (n : Stage (Pc Item) → Nat) (source : Stage (Pc Item)) : Prop :=
  ∀ pc, source = .active pc → critical pc = some () → ∀ other, critical other = some () →
    other ≠ pc → n (.active other) = 0

variable [DecidableEq Item]

theorem Invariant.edge (invariant : Invariant s n) (edge : Edge s source changed target)
    (here : 0 < n source) (alone : Alone n source) :
    Invariant changed (moved n source target) := by
  obtain ⟨fifo, empty, awake⟩ := invariant
  cases edge with
  | put item =>
      have nobody := alone _ rfl rfl .removeWait rfl (by intro same; cases same)
      refine ⟨by simp [SynchList.put, fifo], ?_, ?_⟩
      · simp [moved, nobody]
      · simp [moved, SynchList.put]
        omega
  | blocked isEmpty =>
      refine ⟨fifo, fun _ => isEmpty, ?_⟩
      simp [moved, isEmpty]
  | take item first =>
      have nobody := alone _ rfl rfl .removeWait rfl (by intro same; cases same)
      refine ⟨by simp [fifo, first], ?_, ?_⟩
      · simp [moved, nobody]
      · rw [first] at awake
        simp [moved] at awake ⊢
        omega
  | wait =>
      have isEmpty := empty here
      refine ⟨fifo, fun _ => isEmpty, ?_⟩
      simp [isEmpty]
  | _ => exact ⟨fifo, by simpa [moved] using empty, by simp [moved]; omega⟩

/-- A thread notifies a waiter, if there is one. -/
theorem Invariant.signal (invariant : Invariant s n) (alone : Alone n (.active .appendSignal)) :
    Invariant s (moved (notified n .removeWait (min 1 (n (.waiting .removeWait))))
      (.active .appendSignal) (.active .appendRelease)) := by
  obtain ⟨fifo, empty, awake⟩ := invariant
  have nobody := alone _ rfl rfl .removeWait rfl nofun
  refine ⟨fifo, ?_, ?_⟩
  · simp [moved, notified, nobody]
  · simp [moved, notified]
    omega

end Invariant

section Runs

variable [Fintype Thread] [DecidableEq Thread] [DecidableEq Item]
  {s next : State Thread (SynchList Item) (Pc Item) Empty Unit Unit}

omit [Fintype Thread] [DecidableEq Thread] [DecidableEq Item] in
theorem edge_of_run {thread : Thread} {call : Call Item} {s changed : SynchList Item}
    {pc target : Pc Item}
    {body : Thread → Call Item → SynchList Item → Except Fault (SynchList Item × Pc Item)}
    (isRun : code pc = .run body) (done : body thread call s = .ok (changed, target)) :
    Edge s (.active pc) changed (.active target) := by
  cases pc with
  | outside =>
      cases isRun
      cases done
      cases call with
      | append item => exact .callAppend item
      | remove => exact .callRemove
  | append item =>
      cases isRun
      cases done
      exact .put item
  | removeTest =>
      cases isRun
      dsimp only at done
      rcases s.take_cases with ⟨empty, equal⟩ | ⟨item, first, equal⟩
      · rw [equal] at done
        cases done
        exact .blocked empty
      · rw [equal] at done
        cases done
        exact .take item first
  | appendAcquire | appendSignal | appendRelease | removeAcquire | removeWait |
    removeRelease => cases isRun

omit [Fintype Thread] [DecidableEq Thread] [DecidableEq Item] in
theorem eq_waits (pc target : Pc Item)
    (isWait : (@program Item Thread).code pc = .wait () target) : pc = .removeWait := by
  cases pc <;> cases isWait
  rfl

omit [DecidableEq Thread] in
theorem alone_of_exclusive (exclusive : Exclusive critical s) {thread : Thread}
    {source : Stage (Pc Item)} (here : s.stage thread = source) :
    Alone (census s.stage) source := by
  rintro pc rfl held other otherHeld different
  rw [exclusive.census_eq here held otherHeld, if_neg different]

/-- A thread goes along an edge. -/
theorem invariant_move (exclusive : Exclusive critical s)
    (invariant : Invariant s.vars (census s.stage)) {thread : Thread}
    {source target : Stage (Pc Item)} {changed : SynchList Item}
    (here : s.stage thread = source) (edge : Edge s.vars source changed target) :
    Invariant changed (census (Function.update s.stage thread target)) := by
  rw [census_update, here]
  exact invariant.edge edge (census_pos thread here) (alone_of_exclusive exclusive here)

theorem invariant_step (exclusive : Exclusive critical s) (queued : Queued program s)
    (invariant : Invariant s.vars (census s.stage)) (step : Step program s next) :
    Invariant next.vars (census next.stage) := by
  cases step with
  | run here isRun done => exact invariant_move exclusive invariant here (edge_of_run isRun done)
  | @p thread pc sem => exact sem.elim
  | @v thread pc sem => exact sem.elim
  | @acquire thread pc lock target here isAcquire free =>
      apply invariant_move exclusive invariant here
      cases pc <;> cases isAcquire <;> constructor
  | @release thread pc lock target here isRelease held =>
      apply invariant_move exclusive invariant here
      cases pc <;> cases isRelease <;> constructor
  | @wait thread pc cond target here isWait held =>
      apply invariant_move exclusive invariant here
      cases pc <;> cases isWait
      exact .wait
  | @resume thread pc cond target here isWait free =>
      apply invariant_move exclusive invariant here
      cases pc <;> cases isWait
      exact .resume
  | @signal thread pc cond target here isSignal held =>
      have front := queued.census_notify eq_waits here target
        (List.take_sublist 1 (s.queue ()))
      have waiters : (s.queue ()).length = census s.stage (.waiting .removeWait) :=
        queued.length_eq rfl eq_waits
      cases pc <;> cases isSignal
      rw [front, List.length_take, waiters]
      exact invariant.signal (alone_of_exclusive exclusive here)
  | @broadcast thread pc cond target here isBroadcast held => cases pc <;> cases isBroadcast
  | interrupt pending => cases pending

omit [DecidableEq Thread] in
theorem invariant_start :
    Invariant new (census fun _ : Thread => Stage.active (Pc.outside : Pc Item)) := by
  constructor <;> simp [new, census_const]

theorem alongRun_invariant (actions : List (SynchSystem.Action Thread (Call Item))) :
    AlongRun (SynchSystem.step program) (fun s => SynchSystem.Sound program s ∧
      Exclusive critical s.monitor ∧ Invariant s.vars (census s.monitor.stage))
      boot actions :=
  SynchSystem.alongRun_of_monitor labelled (fun _ => rfl) invariant_start
    (fun _ _ exclusive queued invariant step => invariant_step exclusive queued invariant step)
    actions

omit [Fintype Thread] [DecidableEq Thread] [DecidableEq Item] in
/-- Straight-line code does not fail. -/
theorem run_ne_error {thread : Thread} {call : Call Item} {s : SynchList Item} {pc : Pc Item}
    {body : Thread → Call Item → SynchList Item → Except Fault (SynchList Item × Pc Item)}
    (isRun : code pc = .run body) (reason : Fault) : body thread call s ≠ .error reason := by
  cases pc with
  | removeTest =>
      cases isRun
      rcases s.take_cases with ⟨-, equal⟩ | ⟨item, -, equal⟩ <;> simp [equal]
  | outside | append =>
      cases isRun
      exact nofun
  | appendAcquire | appendSignal | appendRelease | removeAcquire | removeWait |
    removeRelease => cases isRun

/-- In every state that a run reaches, the items that were taken off the list are a prefix
of those that were put there, the others are on the list in order, and no assertion fails
in the next step.  If the lock is free, the list is not empty and some thread waits, then
some thread that was notified has yet to test the list. -/
theorem exactly_once_fifo (actions : List (SynchSystem.Action Thread (Call Item))) :
    AlongRun (SynchSystem.step program) (fun s =>
      s.vars.removed <+: s.vars.appended ∧
      s.vars.appended = s.vars.removed ++ s.vars.list.items ∧
      (∀ action reason, SynchSystem.step program s action ≠ .error (.fault reason)) ∧
      (s.holder () = none → s.vars.list.isEmpty = false →
        (s.conds ()).waitCondQueue ≠ [] →
        ∃ thread, SynchSystem.hasToTest (s.threads thread) = true))
      boot actions := by
  apply (alongRun_invariant actions).mono
  rintro s ⟨sound, exclusive, fifo, -, awake⟩
  refine ⟨⟨s.vars.list.items, fifo.symm⟩, fifo, fun action reason failed => ?_,
    fun free nonempty waits => ?_⟩
  · rcases sound.step_fault exclusive labelled failed with
      ⟨thread, call, body, -, isRun, -, failed⟩ | ⟨call, pending⟩
    · exact run_ne_error isRun reason failed
    · cases pending
  · have noTest : census s.monitor.stage (.active .removeTest) = 0 :=
      exclusive.census_eq_zero free rfl
    have noSignal : census s.monitor.stage (.active .appendSignal) = 0 :=
      exclusive.census_eq_zero free rfl
    have waiters : (s.conds ()).waitCondQueue.length =
        census s.monitor.stage (.waiting .removeWait) :=
      sound.queued.length_eq rfl eq_waits
    have waiting := List.length_pos_iff.mpr waits
    have items : 0 < s.vars.list.items.length := by
      rw [List.length_pos_iff, ne_eq, ← LinkedList.isEmpty_eq_true_iff, nonempty]
      exact nofun
    have enough := awake (by omega)
    have notified : 0 < census s.monitor.stage (.signalled .removeWait) := by omega
    obtain ⟨thread, here⟩ := census_pos_iff.mp notified
    exact ⟨thread, SynchSystem.hasToTest_of_stageOf here⟩

end Runs

end SynchList

end Nachos
