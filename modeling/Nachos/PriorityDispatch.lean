import Mathlib.Data.List.TakeWhile
import Nachos.Kernel

/-!
# The order of dispatch

`FindNextToRun` takes the first element of the ready list, and `SortedInsert` finds the
place of a thread by the keys of the elements and not by the priorities of the threads.  The
ready list stays in order as long as every element lies where its priority belongs and its
key does not contradict it.  `Suspend` and `Resume` put elements back with the key 0.
-/

namespace Nachos

open TransitionRuns CInt

section ReadyList

variable {Thread : Type} {priority : Thread → Int} {elements : List (ListElement Thread)}

/-- The list is ordered by priority, and new elements will find their places: the key of an
element is the one that `ReadyToRun` computes, or at least lies between the same integers
for all other priorities. -/
structure Placed (priority : Thread → Int) (elements : List (ListElement Thread)) : Prop where
  sorted : elements.Pairwise fun first second => priority second.item ≤ priority first.item
  keyed : ∀ element ∈ elements, Scheduler.maxPriority ≤ element.key + priority element.item ∧
    element.key + priority element.item ≤ Scheduler.maxPriority + 1

theorem placed_nil : Placed priority [] :=
  ⟨List.Pairwise.nil, fun _ member => absurd member List.not_mem_nil⟩

theorem Placed.sublist {some : List (ListElement Thread)} (placed : Placed priority elements)
    (sub : some.Sublist elements) : Placed priority some :=
  ⟨placed.sorted.sublist sub, fun element member => placed.keyed element (sub.subset member)⟩

theorem Placed.first_best {first : ListElement Thread}
    (placed : Placed priority (first :: elements)) :
    ∀ other ∈ elements.map ListElement.item, priority other ≤ priority first.item := by
  intro other member
  obtain ⟨element, inList, rfl⟩ := List.mem_map.mp member
  exact (List.pairwise_cons.mp placed.sorted).1 element inList

/-- `SortedInsert` puts a thread after those with the same priority or a higher one. -/
theorem Placed.insert (placed : Placed priority elements) (thread : Thread) :
    Placed priority (LinkedList.insertElement
      ⟨thread, Scheduler.maxPriority - priority thread⟩ elements) := by
  constructor
  · induction elements with
    | nil => simp [LinkedList.insertElement]
    | cons first rest ih =>
        have first_keyed := placed.keyed first List.mem_cons_self
        have first_sorted := (List.pairwise_cons.mp placed.sorted).1
        unfold LinkedList.insertElement
        split
        case isTrue before =>
          have first_lower : priority first.item ≤ priority thread := by
            dsimp only at before
            omega
          refine List.pairwise_cons.mpr ⟨?_, placed.sorted⟩
          intro other member
          rcases List.mem_cons.mp member with rfl | inRest
          · exact first_lower
          · exact (first_sorted other inRest).trans first_lower
        case isFalse behind =>
          refine List.pairwise_cons.mpr ⟨?_, ih (placed.sublist (List.sublist_cons_self _ _))⟩
          intro other member
          rcases LinkedList.mem_insertElement.mp member with rfl | inRest
          · dsimp only at behind ⊢
            omega
          · exact first_sorted other inRest
  · intro element member
    rcases LinkedList.mem_insertElement.mp member with rfl | inList
    · dsimp only
      omega
    · exact placed.keyed element inList

/-- The order is not affected by the priorities of threads outside of the list. -/
theorem Placed.congr {other : Thread → Int} (placed : Placed priority elements)
    (same : ∀ thread ∈ elements.map ListElement.item, other thread = priority thread) :
    Placed other elements := by
  have same : ∀ element ∈ elements, other element.item = priority element.item :=
    fun element member => same _ (List.mem_map_of_mem member)
  constructor
  · apply placed.sorted.imp_of_mem
    intro first second inFirst inSecond ordered
    rwa [same first inFirst, same second inSecond]
  · intro element member
    rw [same element member]
    exact placed.keyed element member

/-- Threads of priority 20 or 21 may lose their keys. -/
theorem Placed.rekey {front back : List (ListElement Thread)}
    (placed : Placed priority (front ++ back))
    (top : ∀ element ∈ front, priority element.item = Scheduler.maxPriority ∨
      priority element.item = Scheduler.maxPriority + 1) :
    Placed priority (front.map LinkedList.rekey ++ back) := by
  obtain ⟨front_sorted, back_sorted, between⟩ := List.pairwise_append.mp placed.sorted
  refine ⟨List.pairwise_append.mpr ⟨?_, back_sorted, ?_⟩, ?_⟩
  · exact List.pairwise_map.mpr front_sorted
  · intro first inFirst second inSecond
    obtain ⟨element, member, rfl⟩ := List.mem_map.mp inFirst
    exact between element member second inSecond
  · intro element member
    rcases List.mem_append.mp member with inFront | inBack
    · obtain ⟨old, inOld, rfl⟩ := List.mem_map.mp inFront
      have top := top old inOld
      simp only [LinkedList.rekey]
      omega
    · exact placed.keyed element (List.mem_append_right _ inBack)

/-- A thread of priority 20 or 21 may be appended behind those with the same priority or a
higher one. -/
theorem Placed.append {thread : Thread} (placed : Placed priority elements)
    (top : priority thread = Scheduler.maxPriority ∨
      priority thread = Scheduler.maxPriority + 1)
    (lowest : ∀ other ∈ elements.map ListElement.item, priority thread ≤ priority other) :
    Placed priority (elements ++ [⟨thread, 0⟩]) := by
  refine ⟨List.pairwise_append.mpr ⟨placed.sorted, List.pairwise_singleton _ _, ?_⟩, ?_⟩
  · intro first inFirst second inSecond
    rw [List.mem_singleton.mp inSecond]
    exact lowest first.item (List.mem_map_of_mem inFirst)
  · intro element member
    rcases List.mem_append.mp member with inList | new
    · exact placed.keyed element inList
    · rw [List.mem_singleton.mp new]
      dsimp only
      omega

end ReadyList

/-- The ready list is in order under `SCHED_PRIO_P`, and so have been all calls of
`FindNextToRun`. -/
structure DispatchOrder {Thread : Type} (scheduler : Scheduler Thread)
    (priority : Thread → Int) (picks : List (Pick Thread)) : Prop where
  policy : scheduler.policy = .prioP
  unused_1 : scheduler.readyList_1 = LinkedList.empty
  unused_2 : scheduler.readyList_2 = LinkedList.empty
  placed : Placed priority scheduler.readyList.elements
  best : ∀ pick ∈ picks, pick.IsBest

namespace Kernel

variable {Thread Sem Lock Cond : Type} {s next : Kernel Thread Sem Lock Cond}

def Ordered (s : Kernel Thread Sem Lock Cond) : Prop :=
  DispatchOrder s.scheduler s.priority s.picks

/-- `FindNextToRun` takes the first thread of the ready list. -/
theorem findNextToRun_cases (ordered : s.Ordered) :
    (s.scheduler.readyList.elements = [] ∧ s.findNextToRun = (none, s)) ∨
    ∃ first rest, s.scheduler.readyList.elements = first :: rest ∧
      s.findNextToRun = (some first.item, { s with
        scheduler := { s.scheduler with readyList := ⟨rest⟩ }
        picks := ⟨first.item, rest.map ListElement.item, s.priority⟩ :: s.picks }) := by
  have unused_1 := ordered.unused_1
  have unused_2 := ordered.unused_2
  cases elements : s.scheduler.readyList.elements with
  | nil =>
      refine Or.inl ⟨rfl, ?_⟩
      simp [findNextToRun, Scheduler.findNextToRun, LinkedList.isEmpty, elements, unused_1,
        unused_2, LinkedList.empty]
  | cons first rest =>
      refine Or.inr ⟨first, rest, rfl, ?_⟩
      simp [findNextToRun, Scheduler.findNextToRun, LinkedList.isEmpty, elements,
        LinkedList.remove, LinkedList.sortedRemove, LinkedList.items]

variable [DecidableEq Thread]

/-- `ReadyToRun` inserts the thread by its priority. -/
theorem readyToRun_eq (policy : s.scheduler.policy = .prioP) {thread : Thread}
    (done : s.readyToRun thread = .ok next) :
    next = { s with
      scheduler := { s.scheduler with
        readyList := s.scheduler.readyList.sortedInsert thread
          (Scheduler.maxPriority - s.priority thread) }
      status := Function.update s.status thread .ready } := by
  obtain ⟨scheduler, inserted, done⟩ := bind_eq_ok_iff.mp done
  rw [Scheduler.readyToRun_of_prioP policy] at inserted
  split at inserted
  · cases inserted
    cases done
    rfl
  · cases inserted

theorem Ordered.readyToRun (ordered : s.Ordered) {thread : Thread}
    (done : s.readyToRun thread = .ok next) : next.Ordered := by
  rw [readyToRun_eq ordered.policy done]
  exact { ordered with placed := ordered.placed.insert thread }

omit [DecidableEq Thread] in
theorem Ordered.findNextToRun (ordered : s.Ordered) : s.findNextToRun.2.Ordered := by
  rcases findNextToRun_cases ordered with ⟨-, equal⟩ | ⟨first, rest, elements, equal⟩
  · rw [equal]
    exact ordered
  · have placed := ordered.placed
    rw [elements] at placed
    rw [equal]
    refine { ordered with placed := placed.sublist (List.sublist_cons_self _ _), best := ?_ }
    intro pick member
    rcases List.mem_cons.mp member with rfl | earlier
    · exact placed.first_best
    · exact ordered.best pick earlier

/-- The running thread may change its priority, as it is not on the ready list. -/
theorem Ordered.update_priority (ordered : s.Ordered) {thread : Thread}
    (running : thread ∉ s.scheduler.readyList.items) (priority : Int) :
    Ordered { s with priority := Function.update s.priority thread priority } := by
  refine { ordered with placed := ordered.placed.congr ?_ }
  intro other member
  refine Function.update_of_ne ?_ _ _
  rintro rfl
  exact running member

theorem Ordered.yield (ordered : s.Ordered)
    (running : s.currentThread ∉ s.scheduler.readyList.items)
    (done : s.yield = .ok next) : next.Ordered := by
  obtain ⟨prio, lowered, rfl, outcome⟩ := yield_cases done
  have picked := (ordered.update_priority running prio).findNextToRun
  rcases outcome with ⟨after, found, rfl⟩ | ⟨nextThread, after, ready, found, -, inserted, rfl⟩ |
    ⟨nextThread, after, found, -, inserted⟩
  · rw [found] at picked
    exact picked
  · rw [found] at picked
    have ready_ordered : ready.Ordered := picked.readyToRun inserted
    exact ready_ordered
  · rw [found] at picked
    exact picked.readyToRun inserted

theorem Ordered.fork (ordered : s.Ordered) {thread : Thread}
    (running : s.threadID thread ≠ -1 → s.priority s.currentThread < s.priority thread →
      s.currentThread ∉ s.scheduler.readyList.items)
    (done : s.fork thread = .ok next) : next.Ordered := by
  obtain ⟨-, rfl | ⟨hasID, ready, inserted, outcome⟩⟩ := fork_cases done
  · exact ordered
  have ready_ordered := ordered.readyToRun inserted
  split at outcome
  · next switches =>
    have higher : s.priority s.currentThread < s.priority thread := by
      rw [Scheduler.shouldISwitch_of_prioP ready_ordered.policy] at switches
      rw [readyToRun_eq ordered.policy inserted] at switches
      exact switches
    refine ready_ordered.yield ?_ outcome
    rw [readyToRun_eq ordered.policy inserted]
    intro member
    obtain ⟨element, inList, same⟩ := List.mem_map.mp member
    rcases LinkedList.mem_insertElement.mp inList with rfl | old
    · dsimp only at same
      rw [same] at higher
      exact absurd higher (lt_irrefl _)
    · exact running hasID higher (List.mem_map.mpr ⟨element, old, same⟩)
  · rw [outcome]
    exact ready_ordered

variable [DecidableEq Sem] [DecidableEq Lock] [DecidableEq Cond]

omit [DecidableEq Cond] in
theorem Ordered.v (ordered : s.Ordered) {sem : SemRef Sem Lock} (done : s.v sem = .ok next) :
    next.Ordered := by
  rcases v_cases done with ⟨-, rfl⟩ | ⟨thread, rest, -, inserted⟩
  · exact ordered
  · refine Ordered.readyToRun ?_ inserted
    exact ordered

omit [DecidableEq Cond] in
theorem Ordered.release (ordered : s.Ordered) {lock : Lock} (done : s.release lock = .ok next) :
    next.Ordered := by
  refine Ordered.v ?_ (release_eq_ok done)
  exact ordered

omit [DecidableEq Sem] in
theorem Ordered.signal (ordered : s.Ordered) {cond : Cond} {lock : Lock}
    (done : s.signal cond lock = .ok next) : next.Ordered := by
  rcases signal_cases done with ⟨-, rfl⟩ | ⟨thread, rest, -, inserted⟩
  · exact ordered
  · refine Ordered.readyToRun ?_ inserted
    exact ordered

omit [DecidableEq Sem] in
theorem Ordered.signalAll (ordered : s.Ordered) {cond : Cond} {lock : Lock} {rounds : Nat}
    (done : s.signalAll cond lock rounds = .ok next) : next.Ordered := by
  induction rounds generalizing s with
  | zero =>
      cases done
      exact ordered
  | succ rounds ih =>
      unfold Kernel.signalAll at done
      split at done
      · cases done
        exact ordered
      · obtain ⟨middle, first, later⟩ := bind_eq_ok_iff.mp done
        exact ih (ordered.signal first) later

omit [DecidableEq Cond] in
theorem Ordered.vAll (ordered : s.Ordered) {sems : List Sem} (done : s.vAll sems = .ok next) :
    next.Ordered := by
  induction sems generalizing s with
  | nil =>
      cases done
      exact ordered
  | cons sem sems ih =>
      obtain ⟨middle, first, later⟩ := bind_eq_ok_iff.mp done
      exact ih (ordered.v first) later

omit [DecidableEq Cond] in
theorem Ordered.p (ordered : s.Ordered) (sem : SemRef Sem Lock) : (s.p sem id).Ordered := by
  unfold Kernel.p
  split
  · exact ordered
  · exact ordered

omit [DecidableEq Cond] in
theorem Ordered.acquire (ordered : s.Ordered) (lock : Lock) : (s.acquire lock).Ordered := by
  unfold Kernel.acquire Kernel.p
  split
  · exact ordered
  · exact ordered

theorem Ordered.wait (ordered : s.Ordered) {cond : Cond} {lock : Lock}
    (done : s.wait cond lock = .ok next) : next.Ordered := by
  obtain ⟨condLock, released, unlocked, rfl⟩ := wait_eq_ok done
  have released_ordered : released.Ordered := by
    refine Ordered.release ?_ unlocked
    exact ordered
  exact released_ordered

omit [DecidableEq Cond] in
theorem Ordered.proceed (ordered : s.Ordered) (done : s.proceed = .ok next) : next.Ordered := by
  unfold Kernel.proceed at done
  split at done
  all_goals cases done
  · exact ordered
  · exact ordered.p _
  · exact ordered.acquire _
  · exact ordered.acquire _

/-- `Yield` is called, by the thread itself or in `Fork`. -/
def Yields (s : Kernel Thread Sem Lock Cond) : Action Thread Sem Lock Cond → Prop
  | .call .yield => True
  | .call (.fork thread) =>
      s.threadID thread ≠ -1 ∧ s.priority s.currentThread < s.priority thread
  | _ => False

/-- A step keeps the ready list in order if the running thread is not on it. -/
theorem Ordered.step (ordered : s.Ordered) {action : Action Thread Sem Lock Cond}
    (running : s.Yields action → s.currentThread ∉ s.scheduler.readyList.items)
    (done : s.step action = .ok next) : next.Ordered := by
  cases action with
  | call call =>
      simp only [Kernel.step] at done
      split at done
      · cases call with
        | fork thread => exact ordered.fork (fun hasID higher => running ⟨hasID, higher⟩) done
        | yield => exact ordered.yield (running trivial) done
        | p sem =>
            cases done
            exact ordered.p _
        | v sem => exact ordered.v done
        | acquire lock =>
            cases done
            exact ordered.acquire _
        | release lock => exact ordered.release done
        | wait cond lock => exact ordered.wait done
        | signal cond lock => exact ordered.signal done
        | broadcast cond lock => exact ordered.signalAll (broadcast_eq_ok done)
        | finish =>
            cases done
            exact ordered
      · cases done
  | proceed =>
      simp only [Kernel.step] at done
      split at done
      · exact ordered.proceed done
      · cases done
  | dispatch =>
      simp only [Kernel.step] at done
      have picked := ordered.findNextToRun
      split at done
      · split at done
        · cases done
        · next nextThread after found =>
          rw [found] at picked
          cases done
          exact picked
      · cases done
  | interrupt sems =>
      simp only [Kernel.step] at done
      split at done
      · exact ordered.vAll done
      · cases done

/-- `setPriority` is not called on a thread in the ready list; `Yield` calls it on the
current thread. -/
def SetsPriorityOutside (s : Kernel Thread Sem Lock Cond) :
    SchedulingAction Thread Sem Lock Cond → Prop
  | .thread action => s.Yields action → s.currentThread ∉ s.scheduler.readyList.items
  | .setPriority thread _ => thread ∉ s.scheduler.readyList.items
  | .suspend _ _ | .resume _ _ => True

/-- The key 0 does not misplace a thread with this priority. -/
def FitsKeyZero (s : Kernel Thread Sem Lock Cond) (thread : Thread) : Prop :=
  s.priority thread = Scheduler.maxPriority ∨ s.priority thread = Scheduler.maxPriority + 1

instance (s : Kernel Thread Sem Lock Cond) : DecidablePred s.Yields
  | .call .yield => .isTrue trivial
  | .call (.fork _) => inferInstanceAs (Decidable (_ ∧ _))
  | .call (.p _) | .call (.v _) | .call (.acquire _) | .call (.release _) | .call (.wait _ _)
  | .call (.signal _ _) | .call (.broadcast _ _) | .call .finish | .proceed | .dispatch
  | .interrupt _ => .isFalse id

instance (s : Kernel Thread Sem Lock Cond) : DecidablePred s.SetsPriorityOutside
  | .thread action => inferInstanceAs (Decidable (s.Yields action → _))
  | .setPriority _ _ => inferInstanceAs (Decidable (_ ∉ _))
  | .suspend _ _ | .resume _ _ => .isTrue trivial

/-- `Suspend` is called when all threads in front of the suspended one have the priority 20 or
21, and `Resume` when the thread is not moved, or has such a priority and belongs at the end
of the ready list. -/
def KeepsKeys (s : Kernel Thread Sem Lock Cond) :
    SchedulingAction Thread Sem Lock Cond → Prop
  | .suspend thread _ =>
      ∀ other ∈ s.scheduler.readyList.items.takeWhile (· ≠ thread), s.FitsKeyZero other
  | .resume thread t =>
      thread ∈ s.scheduler.suspended ∨ s.scheduler.suspended = [] ∧ t = some thread →
        s.FitsKeyZero thread ∧
          ∀ other ∈ s.scheduler.readyList.items, s.priority thread ≤ s.priority other
  | .thread _ | .setPriority _ _ => True

/-- Every call of `FindNextToRun` so far has returned a thread with a highest priority. -/
def PicksBest (s : Kernel Thread Sem Lock Cond) : Prop :=
  ∀ pick ∈ s.picks, pick.IsBest

instance (s : Kernel Thread Sem Lock Cond) (thread : Thread) : Decidable (s.FitsKeyZero thread) :=
  inferInstanceAs (Decidable (_ ∨ _))

instance (s : Kernel Thread Sem Lock Cond) : DecidablePred s.KeepsKeys
  | .suspend _ _ => inferInstanceAs (Decidable (∀ other ∈ _, s.FitsKeyZero other))
  | .resume _ _ => inferInstanceAs (Decidable (_ → _))
  | .thread _ | .setPriority _ _ => .isTrue trivial

instance (s : Kernel Thread Sem Lock Cond) : Decidable s.PicksBest :=
  inferInstanceAs (Decidable (∀ pick ∈ s.picks, pick.IsBest))

omit [DecidableEq Sem] [DecidableEq Lock] [DecidableEq Cond] in
theorem Ordered.suspend (ordered : s.Ordered) {thread : Thread} (t : Option Thread)
    (keeps : ∀ other ∈ s.scheduler.readyList.items.takeWhile (· ≠ thread), s.FitsKeyZero other) :
    (s.suspend thread t).Ordered := by
  have placed : Placed s.priority (s.scheduler.readyList.takeOut thread t).1.elements := by
    rcases s.scheduler.readyList.takeOut_cases thread t with
      ⟨front, key, back, split, first, equal⟩ | ⟨absent, found, equal, -⟩
    · rw [equal]
      have placed := ordered.placed
      rw [split] at placed
      have others := placed.sublist
        ((List.sublist_cons_self _ back).append_left front)
      apply others.rekey
      intro element member
      apply keeps element.item
      have items : s.scheduler.readyList.items =
          front.map ListElement.item ++ thread :: back.map ListElement.item := by
        simp [LinkedList.items, split]
      rw [items, List.takeWhile_append_of_pos]
      · exact List.mem_append_left _ (List.mem_map_of_mem member)
      · intro other inFront
        apply decide_eq_true
        rintro rfl
        exact first inFront
    · rw [equal]
      have placed := ordered.placed
      rw [← List.append_nil s.scheduler.readyList.elements] at placed
      have rekeyed := placed.rekey fun element member => keeps element.item (by
        rw [List.takeWhile_eq_self_iff.mpr]
        · exact List.mem_map_of_mem member
        · intro other inList
          apply decide_eq_true
          rintro rfl
          exact absent inList)
      rwa [List.append_nil] at rekeyed
  exact { ordered with placed := placed }

omit [DecidableEq Sem] [DecidableEq Lock] [DecidableEq Cond] in
theorem Ordered.resume (ordered : s.Ordered) {thread : Thread} {t : Option Thread}
    (keeps : thread ∈ s.scheduler.suspended ∨ s.scheduler.suspended = [] ∧ t = some thread →
      s.FitsKeyZero thread ∧
        ∀ other ∈ s.scheduler.readyList.items, s.priority thread ≤ s.priority other)
    (done : s.resume thread t = .ok next) : next.Ordered := by
  unfold Kernel.resume at done
  split at done
  · cases done
  · cases done
    have isFound := (s.scheduler.suspendedList.items_takeOut thread t).2
    refine { ordered with placed := ?_ }
    dsimp only [Scheduler.resume]
    split
    · next found =>
      obtain ⟨top, lowest⟩ := keeps (isFound.mp found)
      exact ordered.placed.append top lowest
    · exact ordered.placed

theorem Ordered.schedulingStep (ordered : s.Ordered)
    {action : SchedulingAction Thread Sem Lock Cond} (outside : s.SetsPriorityOutside action)
    (keeps : s.KeepsKeys action) (done : s.schedulingStep action = .ok next) : next.Ordered := by
  cases action with
  | thread action => exact ordered.step outside done
  | suspend thread t =>
      simp only [Kernel.schedulingStep] at done
      split at done
      · cases done
        exact ordered.suspend t keeps
      · cases done
  | resume thread t =>
      simp only [Kernel.schedulingStep] at done
      split at done
      · exact ordered.resume keeps done
      · cases done
  | setPriority thread prio =>
      simp only [Kernel.schedulingStep] at done
      split at done
      · cases done
        exact ordered.update_priority outside prio
      · cases done

omit [DecidableEq Sem] [DecidableEq Lock] [DecidableEq Cond] in
theorem ordered_boot (main : Thread) (threadID priority : Thread → Int) (value : Sem → Int) :
    (boot main threadID priority value : Kernel Thread Sem Lock Cond).Ordered :=
  ⟨rfl, rfl, rfl, placed_nil, fun _ member => absurd member List.not_mem_nil⟩

/-- `FindNextToRun` always returns a thread with a highest priority in the runs in which
`setPriority` is not called on ready threads, and `Suspend` and `Resume` do not put back
threads with a wrong key. -/
theorem picksBest_along_run (main : Thread) (threadID priority : Thread → Int)
    (value : Sem → Int) (actions : List (SchedulingAction Thread Sem Lock Cond))
    (outside : RunAllowed schedulingStep SetsPriorityOutside
      (boot main threadID priority value) actions)
    (keeps : RunAllowed schedulingStep KeepsKeys (boot main threadID priority value) actions) :
    AlongRun schedulingStep PicksBest (boot main threadID priority value) actions := by
  have preserved : ∀ (s : Kernel Thread Sem Lock Cond) action next, s.Ordered →
      s.SetsPriorityOutside action ∧ s.KeepsKeys action →
      s.schedulingStep action = .ok next → next.Ordered :=
    fun s action next ordered permitted done =>
      ordered.schedulingStep permitted.1 permitted.2 done
  exact (alongRun_of_invariant preserved (ordered_boot main threadID priority value)
    (outside.and keeps)).mono fun s ordered => ordered.best

/-- The main thread has the priority 10, and the others 5, 3 and 8. -/
def exampleKernel : Kernel ℕ Empty Empty Empty :=
  boot 0 (fun thread => thread)
    (fun thread => if thread = 0 then 10 else if thread = 1 then 5 else if thread = 2 then 3 else 8)
    nofun

theorem exampleKernel_picksBest :
    AlongRun schedulingStep PicksBest exampleKernel
      [.thread (.call (.fork 1)), .suspend 1 none, .thread (.call (.fork 2)),
        .thread (.call (.fork 3)), .thread (.call .finish), .thread .dispatch] := by
  refine picksBest_along_run 0 _ _ _ _ ?_ ?_
  · decide +kernel
  · decide +kernel

/-- `Suspend` takes the key of the thread in front of the suspended one, so that it is
returned before a thread of higher priority that is forked later. -/
theorem misplaced_by_suspend :
    let actions := [.thread (.call (.fork 1)), .thread (.call (.fork 2)), .suspend 2 none,
      .thread (.call (.fork 3)), .thread (.call .finish), .thread .dispatch]
    RunAllowed schedulingStep SetsPriorityOutside exampleKernel actions ∧
      ¬ AlongRun schedulingStep PicksBest exampleKernel actions := by
  decide +kernel

end Kernel

end Nachos
