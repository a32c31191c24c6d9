import Nachos.CIntegers
import Nachos.LinkedList
import Nachos.Synch

/-!
# The scheduler

`class Scheduler` of `threads/scheduler.cc`: the lists of ready threads, whose order
depends on the scheduling policy, and the list of suspended threads.  The time slices of
the threads are left out, as nothing here depends on them.

`Suspend` and `Resume` share a way to take a thread out of a list: the list is drained into
a temporary one up to that thread, and then put together again.  A variable `t`, which is
not initialised, holds the thread that was looked at last.
-/

namespace Nachos

open TransitionRuns CInt

/-- `enum SchedPolicy`. -/
inductive SchedPolicy where
  | prioP
  | mlq
  | sjf
  | srtn
  | fcfs
  | rr
  | mlfq
  | prioNP
  deriving DecidableEq

/-- `enum ThreadStatus`. -/
inductive ThreadStatus where
  | justCreated
  | running
  | ready
  | blocked
  | suspended
  deriving DecidableEq

/-- The members of a thread that the scheduler reads. -/
structure ThreadInfo where
  priority : Int
  level : Int
  preempted : Bool

structure Scheduler (Thread : Type) where
  readyList : LinkedList Thread
  readyList_1 : LinkedList Thread
  readyList_2 : LinkedList Thread
  suspendedList : LinkedList Thread
  policy : SchedPolicy

namespace LinkedList

variable {Thread : Type}

/-- The element that `Append` and `Prepend` make of an item. -/
def rekey (element : ListElement Thread) : ListElement Thread :=
  ⟨element.item, 0⟩

variable [DecidableEq Thread]

/-- The loop that drains a list up to a thread, which makes at most the given number of
rounds: what is left, the temporary list, and `t`. -/
def removeUntil (thread : Thread) :
    Nat → LinkedList Thread → LinkedList Thread → Option Thread →
      LinkedList Thread × LinkedList Thread × Option Thread
  | 0, list, tmp, t => (list, tmp, t)
  | rounds + 1, list, tmp, t =>
      match list.remove with
      | (none, list) => (list, tmp, t)
      | (some item, list) =>
          if item = thread then (list, tmp, some item)
          else removeUntil thread rounds list (tmp.prepend item) (some item)

/-- The loop that puts the temporary list back in front. -/
def putBack : Nat → LinkedList Thread → LinkedList Thread → LinkedList Thread
  | 0, _, list => list
  | rounds + 1, tmp, list =>
      match tmp.remove with
      | (none, _) => list
      | (some item, tmp) => putBack rounds tmp (list.prepend item)

/-- The list that comes out of the two loops, and whether `t == thread` between them. -/
def takeOut (list : LinkedList Thread) (thread : Thread) (t : Option Thread) :
    LinkedList Thread × Bool :=
  let (rest, tmp, t) := removeUntil thread list.elements.length list empty t
  (putBack tmp.elements.length tmp rest, t = some thread)

theorem removeUntil_found {thread : Thread} {key : Int} {front back : List (ListElement Thread)}
    (first : thread ∉ front.map ListElement.item) (tmp : LinkedList Thread) (t : Option Thread) :
    removeUntil thread (front ++ ⟨thread, key⟩ :: back).length ⟨front ++ ⟨thread, key⟩ :: back⟩
        tmp t =
      (⟨back⟩, ⟨(front.map rekey).reverse ++ tmp.elements⟩, some thread) := by
  induction front generalizing tmp t with
  | nil => simp [removeUntil, remove, sortedRemove]
  | cons element front ih =>
      rw [List.map_cons, List.mem_cons, not_or] at first
      have different : element.item ≠ thread := Ne.symm first.1
      simp only [List.cons_append, List.length_cons, removeUntil, remove, sortedRemove,
        Option.map_some, if_neg different]
      rw [ih first.2]
      simp [prepend, rekey]

theorem removeUntil_absent {thread : Thread} {elements : List (ListElement Thread)}
    (absent : thread ∉ elements.map ListElement.item) (tmp : LinkedList Thread)
    (t : Option Thread) :
    ∃ last, removeUntil thread elements.length ⟨elements⟩ tmp t =
        (⟨[]⟩, ⟨(elements.map rekey).reverse ++ tmp.elements⟩, last) ∧
      (last = some thread ↔ elements = [] ∧ t = some thread) := by
  induction elements generalizing tmp t with
  | nil => exact ⟨t, by simp [removeUntil], by simp⟩
  | cons element elements ih =>
      rw [List.map_cons, List.mem_cons, not_or] at absent
      have different : element.item ≠ thread := Ne.symm absent.1
      obtain ⟨last, drained, isLast⟩ := ih absent.2 (tmp.prepend element.item) (some element.item)
      refine ⟨last, ?_, ?_⟩
      · simp only [List.length_cons, removeUntil, remove, sortedRemove, Option.map_some,
          if_neg different]
        rw [drained]
        simp [prepend, rekey]
      · rw [isLast]
        simp [different]

omit [DecidableEq Thread] in
theorem putBack_eq (tmp : List (ListElement Thread)) (list : LinkedList Thread) :
    putBack tmp.length ⟨tmp⟩ list = ⟨(tmp.map rekey).reverse ++ list.elements⟩ := by
  induction tmp generalizing list with
  | nil => rfl
  | cons element tmp ih =>
      simp only [List.length_cons, putBack, remove, sortedRemove, Option.map_some]
      rw [ih]
      simp [prepend, rekey]

omit [DecidableEq Thread] in
@[simp]
theorem rekey_rekey (element : ListElement Thread) : rekey (rekey element) = rekey element :=
  rfl

omit [DecidableEq Thread] in
@[simp]
theorem item_rekey (element : ListElement Thread) : (rekey element).item = element.item :=
  rfl

omit [DecidableEq Thread] in
/-- The first place of a thread in a list. -/
theorem exists_first {thread : Thread} {elements : List (ListElement Thread)}
    (member : thread ∈ elements.map ListElement.item) :
    ∃ front key back, elements = front ++ ⟨thread, key⟩ :: back ∧
      thread ∉ front.map ListElement.item := by
  induction elements with
  | nil => cases member
  | cons element elements ih =>
      by_cases here : element.item = thread
      · subst here
        exact ⟨[], element.key, elements, rfl, List.not_mem_nil⟩
      · rw [List.map_cons, List.mem_cons] at member
        obtain ⟨front, key, back, split, first⟩ := ih (member.resolve_left (Ne.symm here))
        refine ⟨element :: front, key, back, by rw [split]; rfl, ?_⟩
        rw [List.map_cons, List.mem_cons, not_or]
        exact ⟨Ne.symm here, first⟩

/-- A thread is taken out of the list, and those in front of it lose their keys.  If it is
not there then all threads lose their keys; it counts as found when the list is empty and
`t` held it before. -/
theorem takeOut_cases (list : LinkedList Thread) (thread : Thread) (t : Option Thread) :
    (∃ front key back, list.elements = front ++ ⟨thread, key⟩ :: back ∧
      thread ∉ front.map ListElement.item ∧
      list.takeOut thread t = (⟨front.map rekey ++ back⟩, true)) ∨
    (thread ∉ list.items ∧ ∃ found, list.takeOut thread t = (⟨list.elements.map rekey⟩, found) ∧
      (found = true ↔ list.elements = [] ∧ t = some thread)) := by
  obtain ⟨elements⟩ := list
  by_cases member : thread ∈ elements.map ListElement.item
  · obtain ⟨front, key, back, rfl, first⟩ := exists_first member
    refine Or.inl ⟨front, key, back, rfl, first, ?_⟩
    unfold takeOut
    rw [removeUntil_found first]
    dsimp only
    rw [putBack_eq]
    simp [empty]
  · obtain ⟨last, drained, isLast⟩ := removeUntil_absent member empty t
    refine Or.inr ⟨member, decide (last = some thread), ?_, ?_⟩
    · unfold takeOut
      rw [drained]
      dsimp only
      rw [putBack_eq]
      simp [empty]
    · rw [decide_eq_true_iff, isLast]

/-- What the two loops do to the threads on the list. -/
theorem items_takeOut (list : LinkedList Thread) (thread : Thread) (t : Option Thread) :
    (list.takeOut thread t).1.items = list.items.erase thread ∧
      ((list.takeOut thread t).2 = true ↔
        thread ∈ list.items ∨ list.items = [] ∧ t = some thread) := by
  have rekeyed : ListElement.item ∘ rekey = (ListElement.item : ListElement Thread → Thread) := rfl
  rcases list.takeOut_cases thread t with
    ⟨front, key, back, split, first, equal⟩ | ⟨absent, found, equal, isFound⟩
  · rw [equal]
    have items : list.items =
        front.map ListElement.item ++ thread :: back.map ListElement.item := by
      simp [LinkedList.items, split]
    refine ⟨?_, by simp [items]⟩
    rw [items, List.erase_append_right _ first, List.erase_cons_head]
    simp [LinkedList.items, rekeyed]
  · rw [equal]
    constructor
    · rw [List.erase_of_not_mem absent]
      simp [LinkedList.items, rekeyed]
    · have nothing : list.elements = [] ↔ list.items = [] := by simp [LinkedList.items]
      rw [isFound, nothing]
      simp only [absent, false_or]

end LinkedList

namespace Scheduler

variable {Thread : Type}

/-- `MAX_PRIORITY`. -/
def maxPriority : Int := 20

/-- `Scheduler::ReadyToRun`. -/
def readyToRun (s : Scheduler Thread) (thread : Thread) (info : ThreadInfo) :
    Except Stop (Scheduler Thread) :=
  match s.policy with
  | .prioNP | .prioP | .mlq =>
      let sortKey := maxPriority - info.priority
      if Fits sortKey then
        .ok { s with readyList := s.readyList.sortedInsert thread sortKey }
      else .error .overflow
  | .sjf | .mlfq =>
      if info.level = 0 then .ok { s with readyList := s.readyList.append thread }
      else if info.level = 1 then
        if info.preempted then .ok { s with readyList_1 := s.readyList_1.prepend thread }
        else .ok { s with readyList_1 := s.readyList_1.append thread }
      else if info.level = 2 then
        if info.preempted then .ok { s with readyList_2 := s.readyList_2.prepend thread }
        else .ok { s with readyList_2 := s.readyList_2.append thread }
      else .error (.fault .assertion)
  | .fcfs | .rr | .srtn => .ok { s with readyList := s.readyList.append thread }

theorem readyToRun_of_prioP {s : Scheduler Thread} (policy : s.policy = .prioP)
    (thread : Thread) (info : ThreadInfo) :
    s.readyToRun thread info =
      if Fits (maxPriority - info.priority) then
        .ok { s with
          readyList := s.readyList.sortedInsert thread (maxPriority - info.priority) }
      else .error .overflow := by
  obtain ⟨readyList, readyList_1, readyList_2, suspendedList, policy'⟩ := s
  cases policy
  rfl

/-- `Scheduler::FindNextToRun`. -/
def findNextToRun (s : Scheduler Thread) : Option Thread × Scheduler Thread :=
  if s.readyList.isEmpty then
    if s.readyList_1.isEmpty then
      if s.readyList_2.isEmpty then (none, s)
      else (s.readyList_2.remove.1, { s with readyList_2 := s.readyList_2.remove.2 })
    else (s.readyList_1.remove.1, { s with readyList_1 := s.readyList_1.remove.2 })
  else (s.readyList.remove.1, { s with readyList := s.readyList.remove.2 })

/-- `Scheduler::ShouldISwitch`. -/
def shouldISwitch (s : Scheduler Thread) (oldThread newThread : ThreadInfo) : Bool :=
  match s.policy with
  | .prioP | .mlq => oldThread.priority < newThread.priority
  | .fcfs | .prioNP | .rr | .sjf | .mlfq | .srtn => false

theorem shouldISwitch_of_prioP {s : Scheduler Thread} (policy : s.policy = .prioP)
    {oldThread newThread : ThreadInfo} :
    s.shouldISwitch oldThread newThread = true ↔ oldThread.priority < newThread.priority := by
  unfold shouldISwitch
  rw [policy]
  exact decide_eq_true_iff

variable [DecidableEq Thread]

/-- `Scheduler::Suspend`, with the value of `t` on entry. -/
def suspend (s : Scheduler Thread) (thread : Thread) (t : Option Thread) : Scheduler Thread :=
  let (readyList, found) := s.readyList.takeOut thread t
  { s with
    readyList := readyList
    suspendedList := if found then s.suspendedList.append thread else s.suspendedList }

/-- `Scheduler::Resume`, with the value of `t` on entry. -/
def resume (s : Scheduler Thread) (thread : Thread) (t : Option Thread) : Scheduler Thread :=
  let (suspendedList, found) := s.suspendedList.takeOut thread t
  { s with
    suspendedList := suspendedList
    readyList := if found then s.readyList.append thread else s.readyList }

section Conservation

/-- The ready threads in the order in which `FindNextToRun` returns them. -/
def ready (s : Scheduler Thread) : List Thread :=
  s.readyList.items ++ (s.readyList_1.items ++ s.readyList_2.items)

def suspended (s : Scheduler Thread) : List Thread :=
  s.suspendedList.items

inductive Action (Thread : Type) where
  | readyToRun (thread : Thread) (info : ThreadInfo)
  | findNextToRun
  | suspend (thread : Thread) (t : Option Thread)
  | resume (thread : Thread) (t : Option Thread)

/-- Only threads that are in no list are made ready. -/
def step (s : Scheduler Thread) : Action Thread → Except Stop (Scheduler Thread)
  | .readyToRun thread info =>
      if thread ∈ s.ready ∨ thread ∈ s.suspended then .error .notRunnable
      else s.readyToRun thread info
  | .findNextToRun => .ok s.findNextToRun.2
  | .suspend thread t => .ok (s.suspend thread t)
  | .resume thread t => .ok (s.resume thread t)

/-- No thread occurs twice. -/
def Distinct (s : Scheduler Thread) : Prop :=
  (s.ready ++ s.suspended).Nodup

instance (s : Scheduler Thread) : Decidable s.Distinct :=
  inferInstanceAs (Decidable (s.ready ++ s.suspended).Nodup)

/-- A thread is moved from the one list to the end of the other if it is there, and
otherwise the lists stay as they are. -/
def Moves (thread : Thread) (source target sourceAfter targetAfter : List Thread) : Prop :=
  if thread ∈ source then
    sourceAfter = source.erase thread ∧ targetAfter = target ++ [thread]
  else sourceAfter = source ∧ targetAfter = target

/-- The later list has this one thread more. -/
def Added (thread : Thread) (before after : List Thread) : Prop :=
  thread ∈ after ∧ after.erase thread = before

/-- What an action may do to the lists. -/
def Conserves (s : Scheduler Thread) (action : Action Thread) (after : Scheduler Thread) : Prop :=
  match action with
  | .readyToRun thread _ => Added thread s.ready after.ready ∧ after.suspended = s.suspended
  | .findNextToRun =>
      s.ready = s.findNextToRun.1.toList ++ after.ready ∧
        (s.findNextToRun.1 = none → s.ready = []) ∧ after.suspended = s.suspended
  | .suspend thread _ =>
      Moves thread s.readyList.items s.suspended after.readyList.items after.suspended ∧
        after.readyList_1 = s.readyList_1 ∧ after.readyList_2 = s.readyList_2
  | .resume thread _ =>
      Moves thread s.suspended s.readyList.items after.suspended after.readyList.items ∧
        after.readyList_1 = s.readyList_1 ∧ after.readyList_2 = s.readyList_2

/-- The lists are conserved by a step. -/
def StepConserves (s : Scheduler Thread) (action : Action Thread) : Prop :=
  ∀ after, s.step action = .ok after → Conserves s action after

/-- The list to be searched is not empty, or `t` does not happen to hold the thread. -/
def Initialised (s : Scheduler Thread) : Action Thread → Prop
  | .suspend thread t => s.readyList.isEmpty = false ∨ t ≠ some thread
  | .resume thread t => s.suspendedList.isEmpty = false ∨ t ≠ some thread
  | _ => True

variable {s after : Scheduler Thread} {thread : Thread}

theorem Added.perm {before later : List Thread} (added : Added thread before later) :
    later.Perm (thread :: before) := by
  rw [← added.2]
  exact List.perm_cons_erase added.1

theorem Added.append_right {before later : List Thread} (added : Added thread before later)
    (others : List Thread) : Added thread (before ++ others) (later ++ others) :=
  ⟨List.mem_append_left _ added.1, by rw [List.erase_append_left _ added.1, added.2]⟩

theorem Added.append_left {before later others : List Thread} (added : Added thread before later)
    (absent : thread ∉ others) : Added thread (others ++ before) (others ++ later) :=
  ⟨List.mem_append_right _ added.1, by rw [List.erase_append_right _ absent, added.2]⟩

/-- Wherever a new element is put, the order of the others stays as it was. -/
theorem added_sortedInsert {list : LinkedList Thread} (key : Int) (absent : thread ∉ list.items) :
    Added thread list.items (list.sortedInsert thread key).items := by
  obtain ⟨elements⟩ := list
  unfold LinkedList.sortedInsert LinkedList.items at *
  induction elements with
  | nil => simp [LinkedList.insertElement, Added]
  | cons first rest ih =>
      rw [List.map_cons, List.mem_cons, not_or] at absent
      unfold LinkedList.insertElement
      split
      · simp [Added]
      · have different : first.item ≠ thread := Ne.symm absent.1
        obtain ⟨member, erased⟩ := ih absent.2
        refine ⟨List.mem_cons_of_mem _ member, ?_⟩
        rw [List.map_cons, List.erase_cons_tail (by simpa using different)]
        exact congrArg (first.item :: ·) erased

theorem added_append {list : LinkedList Thread} (absent : thread ∉ list.items) :
    Added thread list.items (list.append thread).items := by
  rw [LinkedList.items_append]
  refine ⟨by simp, ?_⟩
  rw [List.erase_append_right _ absent, List.erase_cons_head, List.append_nil]

theorem added_prepend (list : LinkedList Thread) :
    Added thread list.items (list.prepend thread).items := by
  rw [LinkedList.items_prepend]
  exact ⟨by simp, List.erase_cons_head _ _⟩

/-- The thread is added to one of the three lists of ready threads. -/
theorem readyToRun_cases {info : ThreadInfo} (absent : thread ∉ s.ready)
    (stepped : s.readyToRun thread info = .ok after) :
    after.suspendedList = s.suspendedList ∧
      ((Added thread s.readyList.items after.readyList.items ∧
          after.readyList_1 = s.readyList_1 ∧ after.readyList_2 = s.readyList_2) ∨
        (after.readyList = s.readyList ∧
          Added thread s.readyList_1.items after.readyList_1.items ∧
          after.readyList_2 = s.readyList_2) ∨
        (after.readyList = s.readyList ∧ after.readyList_1 = s.readyList_1 ∧
          Added thread s.readyList_2.items after.readyList_2.items)) := by
  have absents : thread ∉ s.readyList.items ∧ thread ∉ s.readyList_1.items ∧
      thread ∉ s.readyList_2.items := by
    simpa [ready] using absent
  obtain ⟨absent, absent_1, absent_2⟩ := absents
  unfold readyToRun at stepped
  cases policy : s.policy
  all_goals
    simp only [policy] at stepped
    repeat' split at stepped
    all_goals cases stepped
    all_goals
      simp [-LinkedList.items_append, -LinkedList.items_prepend, added_sortedInsert,
        added_append, added_prepend, absent, absent_1, absent_2]

theorem added_of_readyToRun {info : ThreadInfo} (absent : thread ∉ s.ready)
    (stepped : s.readyToRun thread info = .ok after) :
    Added thread s.ready after.ready ∧ after.suspended = s.suspended := by
  have absents : thread ∉ s.readyList.items ∧ thread ∉ s.readyList_1.items := by
    have absents := absent
    simp only [ready, List.mem_append, not_or] at absents
    exact ⟨absents.1, absents.2.1⟩
  obtain ⟨sameSuspended, moved⟩ := readyToRun_cases absent stepped
  refine ⟨?_, congrArg LinkedList.items sameSuspended⟩
  unfold ready
  rcases moved with ⟨added, same_1, same_2⟩ | ⟨same, added, same_2⟩ | ⟨same, same_1, added⟩
  · rw [same_1, same_2]
    exact added.append_right _
  · rw [same, same_2]
    exact (added.append_right _).append_left absents.1
  · rw [same, same_1]
    exact (added.append_left absents.2).append_left absents.1

omit [DecidableEq Thread] in
/-- The thread at the head of the ready lists is taken. -/
theorem ready_findNextToRun (s : Scheduler Thread) :
    s.ready = s.findNextToRun.1.toList ++ s.findNextToRun.2.ready ∧
      (s.findNextToRun.1 = none → s.ready = []) ∧
      s.findNextToRun.2.suspended = s.suspended := by
  obtain ⟨⟨elements⟩, ⟨elements_1⟩, ⟨elements_2⟩, suspendedList, policy⟩ := s
  cases elements <;> cases elements_1 <;> cases elements_2 <;>
    simp [findNextToRun, ready, suspended, LinkedList.isEmpty, LinkedList.remove,
      LinkedList.sortedRemove, LinkedList.items]

/-- What is taken out of a list is moved exactly when it was found. -/
theorem moves_takeOut (list other : LinkedList Thread) (thread : Thread) (t : Option Thread) :
    Moves thread list.items other.items (list.takeOut thread t).1.items
        (if (list.takeOut thread t).2 then other.append thread else other).items ↔
      (list.isEmpty = false ∨ t ≠ some thread) := by
  obtain ⟨items, isFound⟩ := list.items_takeOut thread t
  unfold Moves
  rw [items]
  by_cases member : thread ∈ list.items
  · have filled : list.isEmpty = false := by
      rw [Bool.eq_false_iff, ne_eq, LinkedList.isEmpty_eq_true_iff]
      exact List.ne_nil_of_mem member
    rw [if_pos member, if_pos (isFound.mpr (Or.inl member))]
    simp [filled]
  · rw [if_neg member, List.erase_of_not_mem member]
    have nothing : list.isEmpty = false ↔ list.items ≠ [] := by
      rw [Bool.eq_false_iff, ne_eq, LinkedList.isEmpty_eq_true_iff]
    by_cases wrong : list.items = [] ∧ t = some thread
    · rw [if_pos (isFound.mpr (Or.inr wrong)), nothing]
      simp [wrong]
    · have missed : ¬ (list.takeOut thread t).2 = true := by
        rw [isFound]
        exact not_or.mpr ⟨member, wrong⟩
      rw [if_neg missed, nothing]
      exact iff_of_true ⟨rfl, rfl⟩ (not_and_or.mp wrong)

/-- A step conserves the lists exactly when it does not depend on what `t` held. -/
theorem stepConserves_iff (s : Scheduler Thread) (action : Action Thread)
    (stepped : s.step action = .ok after) :
    StepConserves s action ↔ Initialised s action := by
  have known : StepConserves s action ↔ Conserves s action after := by
    unfold StepConserves
    rw [stepped]
    simp
  rw [known]
  cases action with
  | readyToRun thread info =>
      unfold step at stepped
      dsimp only at stepped
      split at stepped
      · cases stepped
      case isFalse absent =>
        exact iff_of_true (added_of_readyToRun (not_or.mp absent).1 stepped) trivial
  | findNextToRun =>
      cases stepped
      exact iff_of_true s.ready_findNextToRun trivial
  | suspend thread t =>
      cases stepped
      have moved := moves_takeOut s.readyList s.suspendedList thread t
      exact ⟨fun conserved => moved.mp conserved.1, fun proper => ⟨moved.mpr proper, rfl, rfl⟩⟩
  | resume thread t =>
      cases stepped
      have moved := moves_takeOut s.suspendedList s.readyList thread t
      exact ⟨fun conserved => moved.mp conserved.1, fun proper => ⟨moved.mpr proper, rfl, rfl⟩⟩

/-- A move from one list to another keeps all the threads. -/
theorem Moves.perm {source target sourceAfter targetAfter : List Thread}
    (moved : Moves thread source target sourceAfter targetAfter) :
    (sourceAfter ++ targetAfter).Perm (source ++ target) := by
  unfold Moves at moved
  split at moved
  case isTrue member =>
    rw [moved.1, moved.2, ← List.append_assoc]
    apply List.perm_append_comm.trans
    rw [List.singleton_append, ← List.cons_append]
    exact (List.perm_cons_erase member).symm.append_right _
  case isFalse =>
    rw [moved.1, moved.2]

omit [DecidableEq Thread] in
theorem perm_around {source target sourceAfter targetAfter : List Thread} (others : List Thread)
    (moved : (sourceAfter ++ targetAfter).Perm (source ++ target)) :
    ((sourceAfter ++ others) ++ targetAfter).Perm ((source ++ others) ++ target) := by
  have around : ∀ first last : List Thread,
      ((first ++ others) ++ last).Perm (others ++ (first ++ last)) := by
    intro first last
    rw [← List.append_assoc]
    exact List.perm_append_comm.append_right _
  exact (around _ _).trans ((moved.append_left others).trans (around _ _).symm)

/-- No thread is doubled by a step that conserves the lists. -/
theorem distinct_of_conserves {action : Action Thread} (distinct : s.Distinct)
    (stepped : s.step action = .ok after) (conserved : Conserves s action after) :
    after.Distinct := by
  unfold Distinct at *
  cases action with
  | readyToRun thread info =>
      obtain ⟨added, sameSuspended⟩ := conserved
      unfold step at stepped
      dsimp only at stepped
      split at stepped
      · cases stepped
      case isFalse absent =>
        rw [sameSuspended, (added.perm.append_right _).nodup_iff, List.cons_append,
          List.nodup_cons, List.mem_append]
        exact ⟨absent, distinct⟩
  | findNextToRun =>
      rw [conserved.1, List.append_assoc] at distinct
      rw [conserved.2.2]
      exact (List.nodup_append.mp distinct).2.1
  | suspend thread t =>
      obtain ⟨moved, same_1, same_2⟩ := conserved
      refine (List.Perm.nodup_iff ?_).mpr distinct
      unfold ready
      rw [same_1, same_2]
      exact perm_around _ moved.perm
  | resume thread t =>
      obtain ⟨moved, same_1, same_2⟩ := conserved
      refine (List.Perm.nodup_iff ?_).mpr distinct
      unfold ready
      rw [same_1, same_2]
      have moved := moved.perm
      apply perm_around _
      exact List.perm_append_comm.trans (moved.trans List.perm_append_comm)

/-- No thread is lost or doubled, and the lists change as they should, in exactly those runs
in which `Suspend` and `Resume` are never called with an empty list to search while `t`
happens to hold the thread. -/
theorem conserved_along_run_iff (s : Scheduler Thread) (actions : List (Action Thread))
    (distinct : s.Distinct) :
    (AlongRun step Distinct s actions ∧ RunAllowed step StepConserves s actions) ↔
      RunAllowed step Initialised s actions := by
  have preserved : ∀ (s : Scheduler Thread) action after, s.Distinct → StepConserves s action →
      s.step action = .ok after → after.Distinct :=
    fun s action after distinct conserved stepped =>
      distinct_of_conserves distinct stepped (conserved after stepped)
  have same : RunAllowed step StepConserves s actions ↔ RunAllowed step Initialised s actions :=
    runAllowed_congr preserved
      (fun s action after _ stepped => stepConserves_iff s action stepped) distinct
  constructor
  · rintro ⟨-, conserved⟩
    exact same.mp conserved
  · intro proper
    have conserved := same.mpr proper
    exact ⟨alongRun_of_invariant preserved distinct conserved, conserved⟩

/-- A thread is ready and another one is suspended. -/
def exampleScheduler : Scheduler ℕ where
  readyList := ⟨[⟨1, 0⟩]⟩
  readyList_1 := LinkedList.empty
  readyList_2 := LinkedList.empty
  suspendedList := ⟨[⟨2, 0⟩]⟩
  policy := .prioP

theorem exampleScheduler_conserved :
    let actions := [.suspend 1 none, .resume 2 (some 2), .suspend 3 (some 3), .findNextToRun]
    AlongRun step Distinct exampleScheduler actions ∧
      RunAllowed step StepConserves exampleScheduler actions := by
  have distinct : exampleScheduler.Distinct := by decide
  apply (conserved_along_run_iff exampleScheduler _ distinct).mpr
  simp [RunAllowed, step, Initialised, suspend, resume, exampleScheduler, LinkedList.isEmpty,
    LinkedList.takeOut, LinkedList.removeUntil, LinkedList.putBack, LinkedList.remove,
    LinkedList.sortedRemove, LinkedList.append, LinkedList.empty]

/-- The ready list is empty and the thread is suspended already: it is then suspended twice. -/
theorem suspended_twice :
    let before : Scheduler ℕ := { exampleScheduler with readyList := LinkedList.empty }
    before.Distinct ∧
      ¬ AlongRun step Distinct before [.suspend 2 (some 2)] ∧
      ¬ RunAllowed step StepConserves before [.suspend 2 (some 2)] := by
  refine ⟨by decide, ?_, ?_⟩
  · intro along
    have after := alongRun_head (along.2 _ rfl)
    exact absurd after (by decide)
  · intro allowed
    obtain ⟨moved, -⟩ := (allowed _ rfl).1 _ rfl
    unfold Moves at moved
    rw [if_neg (by decide)] at moved
    exact absurd moved.2 (by decide)

end Conservation

end Scheduler

end Nachos
