import Nachos.YieldPolicies

/-!
# The order of service

Under the policies that append to the ready list a thread that waits there gets the
processor in its turn: no more threads are dispatched before it than were in front of it,
whatever the threads do, as long as it is not suspended and the policy stays.
-/

namespace Nachos

open TransitionRuns

namespace Dispatcher

variable {Thread : Type}

/-- `ReadyToRun` appends to the ready list, whatever the priority of the thread. -/
def Appends (policy : SchedPolicy) : Prop :=
  policy = .fcfs ∨ policy = .rr ∨ policy = .srtn

instance (policy : SchedPolicy) : Decidable (Appends policy) :=
  inferInstanceAs (Decidable (_ ∨ _))

/-- The thread that is dispatched in a step. -/
def dispatched (s next : Dispatcher Thread) : List Thread :=
  if s.mode ≠ .resumed ∧ next.mode = .resumed then [next.currentThread] else []

variable [DecidableEq Thread]

/-- A step, with the threads that have been dispatched. -/
def servingStep (s : Dispatcher Thread × List Thread) (action : Action Thread) :
    Except Stop (Dispatcher Thread × List Thread) := do
  let next ← step s.1 action
  return (next, s.2 ++ dispatched s.1 next)

/-- The action neither suspends the thread nor changes the policy. -/
def LeavesInLine (thread : Thread) : Action Thread → Prop
  | .suspend other _ => other ≠ thread
  | .setSchedPolicy _ => False
  | _ => True

instance (thread : Thread) : ∀ action, Decidable (LeavesInLine thread action)
  | .suspend _ _ => inferInstanceAs (Decidable (_ ≠ _))
  | .setSchedPolicy _ => inferInstanceAs (Decidable False)
  | .fork _ | .yield | .sleep | .wake _ | .dispatch | .proceed | .resume _ _ | .setInfo _ _ =>
      inferInstanceAs (Decidable True)

section Line

variable {thread other : Thread} {line after : List Thread} {ahead : Nat}

/-- The thread is in the line with at most so many in front of it. -/
def InLine (thread : Thread) (ahead : Nat) (line : List Thread) : Prop :=
  ∃ front back, line = front ++ thread :: back ∧ front.length ≤ ahead

omit [DecidableEq Thread] in
theorem InLine.append (inLine : InLine thread ahead line) (other : Thread) :
    InLine thread ahead (line ++ [other]) := by
  obtain ⟨front, back, rfl, few⟩ := inLine
  exact ⟨front, back ++ [other], by simp, few⟩

theorem InLine.erase (inLine : InLine thread ahead line) (different : other ≠ thread) :
    InLine thread ahead (line.erase other) := by
  obtain ⟨front, back, rfl, few⟩ := inLine
  by_cases member : other ∈ front
  · refine ⟨front.erase other, back, List.erase_append_left _ member, ?_⟩
    exact (List.length_erase_le ..).trans few
  · refine ⟨front, back.erase other, ?_, few⟩
    rw [List.erase_append_right _ member, List.erase_cons_tail (by simpa using different.symm)]

omit [DecidableEq Thread] in
/-- The first thread in the line is served: it is this one, or this one moves up. -/
theorem InLine.tail {first : Thread} (inLine : InLine thread ahead (first :: line)) :
    first = thread ∨ 0 < ahead ∧ InLine thread (ahead - 1) line := by
  obtain ⟨front, back, split, few⟩ := inLine
  cases front with
  | nil => exact Or.inl (List.cons.inj split).1
  | cons head front =>
      right
      rw [List.length_cons] at few
      exact ⟨by omega, front, back, (List.cons.inj split).2, by omega⟩

end Line

section Steps

variable {s next : Dispatcher Thread} {thread : Thread} {ahead : Nat}

/-- What a step does to the thread in the line. -/
def Served (thread : Thread) (ahead : Nat) (s next : Dispatcher Thread) : Prop :=
  dispatched s next = [thread] ∨
    Appends next.scheduler.policy ∧ (dispatched s next).length ≤ ahead ∧
      InLine thread (ahead - (dispatched s next).length) next.scheduler.readyList.items

omit [DecidableEq Thread] in
/-- Nobody is dispatched, and nobody gets in front. -/
theorem Served.stay (policy : Appends next.scheduler.policy)
    (nobody : next.mode = .resumed → s.mode = .resumed)
    (inLine : InLine thread ahead next.scheduler.readyList.items) :
    Served thread ahead s next := by
  have none : dispatched s next = [] := if_neg fun picked => picked.1 (nobody picked.2)
  right
  rw [none]
  exact ⟨policy, Nat.zero_le _, inLine⟩

omit [DecidableEq Thread] in
theorem readyToRun_of_appends {scheduler : Scheduler Thread} (policy : Appends scheduler.policy)
    (thread : Thread) (info : ThreadInfo) : scheduler.readyToRun thread info =
      .ok { scheduler with readyList := scheduler.readyList.append thread } := by
  obtain ⟨readyList, readyList_1, readyList_2, suspendedList, policy'⟩ := scheduler
  rcases policy with equal | equal | equal <;> cases equal <;> rfl

omit [DecidableEq Thread] in
/-- The first ready thread is dispatched. -/
theorem Served.pick {nextThread : Thread} {taken : Scheduler Thread}
    (policy : Appends s.scheduler.policy)
    (inLine : InLine thread ahead s.scheduler.readyList.items)
    (found : s.scheduler.findNextToRun = (some nextThread, taken)) (idle : s.mode ≠ .resumed)
    (resumed : next.mode = .resumed) (current : next.currentThread = nextThread)
    (samePolicy : next.scheduler.policy = taken.policy)
    (line : next.scheduler.readyList.items = taken.readyList.items ∨
      ∃ last, next.scheduler.readyList.items = taken.readyList.items ++ [last]) :
    Served thread ahead s next := by
  have one : dispatched s next = [nextThread] := by
    rw [dispatched, if_pos ⟨idle, resumed⟩, current]
  obtain ⟨front, back, split, few⟩ := inLine
  rcases s.scheduler.findNextToRun_cases with ⟨empty, -⟩ | ⟨first, rest, elements, equal⟩ |
    ⟨empty, -⟩ | ⟨empty, -⟩
  · simp [LinkedList.items, empty] at split
  · rw [equal] at found
    cases found
    have items : s.scheduler.readyList.items = first.item :: LinkedList.items ⟨rest⟩ := by
      simp [LinkedList.items, elements]
    have moves : InLine thread ahead (first.item :: LinkedList.items ⟨rest⟩) :=
      ⟨front, back, items.symm.trans split, few⟩
    unfold Served
    rw [one]
    rcases moves.tail with served | ⟨waits, up⟩
    · left
      rw [served]
    · right
      refine ⟨?_, waits, ?_⟩
      · rwa [samePolicy]
      · rcases line with line | ⟨last, line⟩ <;> rw [line]
        · exact up
        · exact up.append last
  · simp [LinkedList.items, empty] at split
  · simp [LinkedList.items, empty] at split

theorem served_yield (done : s.yield = .ok next) (running : s.mode = .user)
    (policy : Appends s.scheduler.policy)
    (inLine : InLine thread ahead s.scheduler.readyList.items) :
    Served thread ahead s next := by
  by_cases rr : s.scheduler.policy = .rr
  · have someone : s.SomeoneToRun := by
      obtain ⟨front, back, split, -⟩ := inLine
      simp [SomeoneToRun, rr, Scheduler.ready, split]
    obtain ⟨first, rest, picks⟩ := someone.found
    obtain ⟨nextThread, taken, inserted, after, found, yields, ready, scheduler, current, mode,
      -⟩ := relinquishes_of_rr rr picks
    rw [yields] at done
    cases done
    have taken_policy : Appends taken.policy := by
      have kept := s.scheduler.policy_findNextToRun
      rw [found] at kept
      dsimp only at kept
      rwa [kept]
    rw [readyToRun_of_appends taken_policy] at ready
    cases ready
    apply Served.pick policy inLine found (by simp [running]) mode current
    · rw [scheduler]
    · right
      exact ⟨s.currentThread, by rw [scheduler, LinkedList.items_append]⟩
  · have notPrioP : s.scheduler.policy ≠ .prioP := by
      intro prioP
      rw [prioP] at policy
      rcases policy with equal | equal | equal <;> cases equal
    rw [yield, if_neg rr, if_neg notPrioP] at done
    cases done
    exact .stay policy id inLine

theorem served_readyToRun {other : Thread} (done : s.readyToRun other = .ok next)
    (policy : Appends s.scheduler.policy)
    (inLine : InLine thread ahead s.scheduler.readyList.items) :
    next.mode = s.mode ∧ Appends next.scheduler.policy ∧
      InLine thread ahead next.scheduler.readyList.items := by
  obtain ⟨scheduler, ready, done⟩ := bind_eq_ok_iff.mp done
  rw [readyToRun_of_appends policy] at ready
  cases ready
  cases done
  refine ⟨rfl, policy, ?_⟩
  dsimp only
  rw [LinkedList.items_append]
  exact inLine.append other

theorem served_step {action : Action Thread} (done : step s action = .ok next)
    (leaves : LeavesInLine thread action) (policy : Appends s.scheduler.policy)
    (inLine : InLine thread ahead s.scheduler.readyList.items) :
    Served thread ahead s next := by
  cases action with
  | fork other =>
      simp only [step] at done
      split at done
      · next running =>
        unfold fork at done
        split at done
        · split at done
          · cases done
            exact .stay policy id inLine
          · obtain ⟨made, ready, done⟩ := bind_eq_ok_iff.mp done
            obtain ⟨mode, stays, waits⟩ := served_readyToRun ready policy inLine
            have kept : made.scheduler.shouldISwitch (made.info made.currentThread)
                (made.info other) = false := by
              rcases stays with equal | equal | equal <;> simp [Scheduler.shouldISwitch, equal]
            rw [kept] at done
            cases done
            exact .stay stays (fun resumed => mode.symm.trans resumed) waits
        · cases done
      · cases done
  | yield =>
      simp only [step] at done
      split at done
      · next running => exact served_yield done running policy inLine
      · cases done
  | sleep =>
      simp only [step] at done
      split at done
      · cases done
        exact .stay policy (fun resumed => by cases resumed) inLine
      · cases done
  | wake other =>
      simp only [step] at done
      split at done
      · obtain ⟨mode, stays, waits⟩ := served_readyToRun done policy inLine
        exact .stay stays (fun resumed => mode.symm.trans resumed) waits
      · cases done
  | dispatch =>
      simp only [step] at done
      split at done
      · next asleep =>
        rcases found : s.scheduler.findNextToRun with ⟨nextThread, taken⟩
        simp only [findNextToRun, found] at done
        cases nextThread with
        | none => cases done
        | some nextThread =>
            cases done
            exact .pick policy inLine found (by simp [asleep]) rfl rfl rfl (Or.inl rfl)
      · cases done
  | proceed =>
      simp only [step] at done
      split at done
      · cases done
        exact .stay policy (fun resumed => by cases resumed) inLine
      · cases done
  | suspend other t =>
      simp only [step] at done
      split at done
      · cases done
        apply Served.stay
        · exact policy
        · exact id
        · change InLine thread ahead (s.scheduler.readyList.takeOut other t).1.items
          rw [(s.scheduler.readyList.items_takeOut other t).1]
          exact inLine.erase leaves
      · cases done
  | resume other t =>
      simp only [step] at done
      split at done
      · unfold resume at done
        split at done
        · cases done
        · cases done
          apply Served.stay
          · exact policy
          · exact id
          · dsimp only [Scheduler.resume]
            split
            · rw [LinkedList.items_append]
              exact inLine.append other
            · exact inLine
      · cases done
  | setInfo other info =>
      simp only [step] at done
      split at done
      · cases done
        exact .stay policy id inLine
      · cases done
  | setSchedPolicy other => exact leaves.elim

/-- While the thread waits it is not suspended, and the policy is not changed. -/
def StaysInLine (thread : Thread) (s : Dispatcher Thread × List Thread)
    (action : Action Thread) : Prop :=
  thread ∈ s.2 ∨ LeavesInLine thread action

instance (thread : Thread) (s : Dispatcher Thread × List Thread) (action : Action Thread) :
    Decidable (StaysInLine thread s action) :=
  inferInstanceAs (Decidable (_ ∨ _))

/-- The thread has been served when it should have been, or it has moved up in the line. -/
def InTurn (thread : Thread) (ahead : Nat) (s : Dispatcher Thread × List Thread) : Prop :=
  thread ∈ s.2.take (ahead + 1) ∨
    Appends s.1.scheduler.policy ∧ s.2.length ≤ ahead ∧
      InLine thread (ahead - s.2.length) s.1.scheduler.readyList.items

theorem InTurn.step {s next : Dispatcher Thread × List Thread} {action : Action Thread}
    (inTurn : InTurn thread ahead s) (stays : StaysInLine thread s action)
    (done : servingStep s action = .ok next) : InTurn thread ahead next := by
  obtain ⟨after, stepped, done⟩ := bind_eq_ok_iff.mp done
  cases done
  have kept : thread ∈ s.2.take (ahead + 1) →
      InTurn thread ahead (after, s.2 ++ dispatched s.1 after) :=
    fun served => Or.inl (((List.prefix_append ..).take _).mem served)
  rcases inTurn with served | ⟨policy, few, inLine⟩
  · exact kept served
  by_cases served : thread ∈ s.2
  · apply kept
    rwa [List.take_of_length_le (few.trans (Nat.le_succ ahead))]
  rcases served_step stepped (stays.resolve_left served) policy inLine with
    equal | ⟨stillAppends, one, movedUp⟩
  · left
    dsimp only
    rw [equal, List.take_of_length_le (by simp; omega)]
    simp
  · right
    dsimp only
    rw [List.length_append]
    refine ⟨stillAppends, by omega, ?_⟩
    rwa [Nat.sub_add_eq]

/-- Under the policies that append to the ready list, a thread with so many others in front
of it is dispatched before more than that many others have been: in every run from any
state, as long as the policy stays and the thread is not suspended while it waits. -/
theorem served_in_turn (start : Dispatcher Thread) (thread : Thread) (ahead : Nat)
    (policy : Appends start.scheduler.policy)
    (inLine : start.scheduler.readyList.items[ahead]? = some thread)
    (actions : List (Action Thread))
    (stays : RunAllowed servingStep (StaysInLine thread) (start, []) actions) :
    AlongRun servingStep (fun s =>
      thread ∈ s.2.take (ahead + 1) ∨
        s.2.length ≤ ahead ∧ InLine thread (ahead - s.2.length) s.1.scheduler.readyList.items)
      (start, []) actions := by
  have initial : InTurn thread ahead (start, []) := by
    right
    obtain ⟨bound, here⟩ := List.getElem?_eq_some_iff.mp inLine
    refine ⟨policy, Nat.zero_le _, start.scheduler.readyList.items.take ahead,
      start.scheduler.readyList.items.drop (ahead + 1), ?_, List.length_take_le _ _⟩
    rw [← here, ← List.drop_eq_getElem_cons bound, List.take_append_drop]
  apply (alongRun_of_invariant (fun _ _ _ inTurn stays done => InTurn.step inTurn stays done)
    initial stays).mono
  intro s inTurn
  exact inTurn.imp_right And.right

end Steps

/-- The main thread has chosen round robin and forked two threads. -/
def exampleLine : Dispatcher Nat :=
  { boot 0 Int.ofNat fun _ => exampleInfo with
    scheduler := ⟨⟨[⟨1, 0⟩, ⟨2, 0⟩]⟩, .empty, .empty, .empty, .rr⟩ }

theorem served_in_turn_of_two :
    (TransitionRuns.run servingStep (exampleLine, [])
        [.yield, .proceed, .sleep, .dispatch]).map Prod.snd = .ok [1, 2] ∧
    AlongRun servingStep (fun s =>
      2 ∈ s.2.take 2 ∨
        s.2.length ≤ 1 ∧ InLine 2 (1 - s.2.length) s.1.scheduler.readyList.items)
      (exampleLine, []) [.yield, .proceed, .sleep, .dispatch] :=
  ⟨by rfl, served_in_turn exampleLine 2 1 (Or.inr (Or.inl rfl)) rfl _ (by decide)⟩

end Dispatcher

end Nachos
