import Nachos.PriorityDispatch

/-!
# A Yield that does not switch

Under `SCHED_PRIO_P`, `Yield` takes the first thread off the ready list and compares its
priority with that of the current thread.  When that of the current thread is higher,
`ReadyToRun` puts the first thread back, behind all those with the same key.
-/

namespace Nachos

open TransitionRuns CInt

namespace LinkedList

variable {Item : Type} [DecidableEq Item]

/-- An element that is inserted again comes back to the front if the first other element
has a larger key. -/
theorem insertElement_eq_cons_iff {element : ListElement Item}
    {rest : List (ListElement Item)} :
    insertElement element rest = element :: rest ↔
      ∀ other ∈ (rest.dropWhile (· = element)).head?, element.key < other.key := by
  induction rest with
  | nil => simp [insertElement]
  | cons first rest ih =>
      by_cases same : first = element
      · subst same
        simpa [insertElement] using ih
      · simp only [insertElement, List.dropWhile_cons, decide_eq_true_eq, if_neg same,
          List.head?_cons, Option.mem_some_iff, forall_eq']
        split
        · next before => exact iff_of_true rfl before
        · next behind =>
          refine iff_of_false ?_ behind
          intro equal
          exact same (List.cons.inj equal).1

omit [DecidableEq Item] in
/-- An element that takes the place of another one is that element. -/
theorem eq_of_insertElement_eq_cons {element first : ListElement Item}
    {rest : List (ListElement Item)} (equal : insertElement element rest = first :: rest) :
    element = first := by
  induction rest generalizing first with
  | nil => exact (List.cons.inj equal).1
  | cons second rest ih =>
      unfold insertElement at equal
      split at equal
      · exact (List.cons.inj equal).1
      · obtain ⟨rfl, behind⟩ := List.cons.inj equal
        exact ih behind

end LinkedList

namespace Scheduler

variable {Thread : Type}

/-- `FindNextToRun` takes the first thread of the first ready list that has one. -/
theorem findNextToRun_cases (s : Scheduler Thread) :
    (s.readyList.elements = [] ∧ s.readyList_1.elements = [] ∧ s.readyList_2.elements = [] ∧
      s.findNextToRun = (none, s)) ∨
    (∃ first rest, s.readyList.elements = first :: rest ∧
      s.findNextToRun = (some first.item, { s with readyList := ⟨rest⟩ })) ∨
    (s.readyList.elements = [] ∧ ∃ first rest, s.readyList_1.elements = first :: rest ∧
      s.findNextToRun = (some first.item, { s with readyList_1 := ⟨rest⟩ })) ∨
    (s.readyList.elements = [] ∧ s.readyList_1.elements = [] ∧
      ∃ first rest, s.readyList_2.elements = first :: rest ∧
        s.findNextToRun = (some first.item, { s with readyList_2 := ⟨rest⟩ })) := by
  cases elements : s.readyList.elements with
  | cons first rest =>
      refine Or.inr (Or.inl ⟨first, rest, rfl, ?_⟩)
      simp [findNextToRun, LinkedList.isEmpty, LinkedList.remove, LinkedList.sortedRemove,
        elements]
  | nil =>
      cases elements_1 : s.readyList_1.elements with
      | cons first rest =>
          refine Or.inr (Or.inr (Or.inl ⟨rfl, first, rest, rfl, ?_⟩))
          simp [findNextToRun, LinkedList.isEmpty, LinkedList.remove, LinkedList.sortedRemove,
            elements, elements_1]
      | nil =>
          cases elements_2 : s.readyList_2.elements with
          | cons first rest =>
              refine Or.inr (Or.inr (Or.inr ⟨rfl, rfl, first, rest, rfl, ?_⟩))
              simp [findNextToRun, LinkedList.isEmpty, LinkedList.remove,
                LinkedList.sortedRemove, elements, elements_1, elements_2]
          | nil =>
              refine Or.inl ⟨rfl, rfl, rfl, ?_⟩
              simp [findNextToRun, LinkedList.isEmpty, elements, elements_1, elements_2]

theorem policy_findNextToRun (s : Scheduler Thread) : s.findNextToRun.2.policy = s.policy := by
  rcases s.findNextToRun_cases with ⟨-, -, -, equal⟩ | ⟨first, rest, -, equal⟩ |
    ⟨-, first, rest, -, equal⟩ | ⟨-, -, first, rest, -, equal⟩
  all_goals rw [equal]

/-- The ready lists have the same threads in the same order with the same keys. -/
structure SameReadyLists (s after : Scheduler Thread) : Prop where
  readyList : after.readyList.elements = s.readyList.elements
  readyList_1 : after.readyList_1.elements = s.readyList_1.elements
  readyList_2 : after.readyList_2.elements = s.readyList_2.elements

instance [DecidableEq Thread] (s after : Scheduler Thread) :
    Decidable (s.SameReadyLists after) :=
  decidable_of_iff
    (after.readyList.elements = s.readyList.elements ∧
      after.readyList_1.elements = s.readyList_1.elements ∧
      after.readyList_2.elements = s.readyList_2.elements)
    ⟨fun ⟨same, same_1, same_2⟩ => ⟨same, same_1, same_2⟩,
      fun ⟨same, same_1, same_2⟩ => ⟨same, same_1, same_2⟩⟩

/-- No thread is ready, or the first one has the key of its priority, and the one behind it
a larger key. -/
def FirstInPlace [DecidableEq Thread] (s : Scheduler Thread) (priority : Thread → Int) : Prop :=
  match s.readyList.elements with
  | [] => s.readyList_1.elements = [] ∧ s.readyList_2.elements = []
  | first :: rest =>
      first.key = maxPriority - priority first.item ∧
        ∀ other ∈ (rest.dropWhile (· = first)).head?, first.key < other.key

instance [DecidableEq Thread] (s : Scheduler Thread) (priority : Thread → Int) :
    Decidable (s.FirstInPlace priority) := by
  unfold FirstInPlace
  split <;> infer_instance

variable [DecidableEq Thread] {s taken : Scheduler Thread} {priority : Thread → Int}

omit [DecidableEq Thread] in
/-- A thread that is put into a list that was empty stays there. -/
theorem not_sameReadyLists_of_empty {after : Scheduler Thread} {thread : Thread} {key : Int}
    (empty : s.readyList.elements = [])
    (inserted : after.readyList = s.readyList.sortedInsert thread key) :
    ¬ s.SameReadyLists after := by
  intro same
  have nothing := same.readyList
  rw [inserted, empty] at nothing
  simp [LinkedList.sortedInsert, LinkedList.insertElement, empty] at nothing

theorem firstInPlace_of_empty (empty : s.readyList.elements = []) :
    s.FirstInPlace priority ↔ s.readyList_1.elements = [] ∧ s.readyList_2.elements = [] := by
  rw [FirstInPlace, empty]

theorem sameReadyLists_of_none (found : s.findNextToRun = (none, taken)) :
    s.SameReadyLists taken ↔ s.FirstInPlace priority := by
  rcases s.findNextToRun_cases with ⟨empty, empty_1, empty_2, equal⟩ | ⟨first, rest, -, equal⟩ |
    ⟨-, first, rest, -, equal⟩ | ⟨-, -, first, rest, -, equal⟩
  all_goals
    rw [found] at equal
    obtain ⟨isNone, same⟩ := Prod.mk.inj equal
  · refine iff_of_true ?_ ?_
    · constructor <;> rw [same]
    · exact (firstInPlace_of_empty empty).mpr ⟨empty_1, empty_2⟩
  all_goals cases isNone

/-- A thread that was taken off its list comes back to its place in front. -/
theorem putBack_iff {thread : Thread} (found : s.findNextToRun = (some thread, taken)) :
    s.SameReadyLists { taken with
        readyList := taken.readyList.sortedInsert thread (maxPriority - priority thread) } ↔
      s.FirstInPlace priority := by
  rcases s.findNextToRun_cases with ⟨-, -, -, equal⟩ | ⟨first, rest, elements, equal⟩ |
    ⟨empty, first, rest, elements, equal⟩ | ⟨empty, empty_1, first, rest, elements, equal⟩
  all_goals
    rw [found] at equal
    obtain ⟨isFirst, rfl⟩ := Prod.mk.inj equal
    cases isFirst
  · rw [FirstInPlace, elements]
    constructor
    · intro same
      have inserted : LinkedList.insertElement
          ⟨first.item, maxPriority - priority first.item⟩ rest = first :: rest :=
        same.readyList.trans elements
      have isFirst := LinkedList.eq_of_insertElement_eq_cons inserted
      have key : first.key = maxPriority - priority first.item := by rw [← isFirst]
      rw [isFirst] at inserted
      exact ⟨key, LinkedList.insertElement_eq_cons_iff.mp inserted⟩
    · rintro ⟨key, behind⟩
      refine ⟨?_, rfl, rfl⟩
      rw [elements, LinkedList.sortedInsert, ← key]
      exact LinkedList.insertElement_eq_cons_iff.mpr behind
  · refine iff_of_false (not_sameReadyLists_of_empty empty rfl) ?_
    rw [firstInPlace_of_empty empty, elements]
    rintro ⟨nothing, -⟩
    cases nothing
  · refine iff_of_false (not_sameReadyLists_of_empty empty rfl) ?_
    rw [firstInPlace_of_empty empty, elements]
    rintro ⟨-, nothing⟩
    cases nothing

end Scheduler

namespace Kernel

variable {Thread Sem Lock Cond : Type} {s next : Kernel Thread Sem Lock Cond}

theorem scheduler_findNextToRun {found : Option Thread}
    (done : s.findNextToRun = (found, next)) :
    s.scheduler.findNextToRun = (found, next.scheduler) := by
  unfold findNextToRun at done
  split at done
  · next scheduler nothing =>
    cases done
    exact nothing
  · next scheduler something =>
    cases done
    exact something

/-- A `Yield` after which the current thread goes on leaves the ready lists as they were
exactly when the first ready thread was in its place. -/
theorem yield_sameReadyLists_iff [DecidableEq Thread] (policy : s.scheduler.policy = .prioP)
    (done : s.yield = .ok next) (stays : next.mode = .user) :
    s.scheduler.SameReadyLists next.scheduler ↔ s.scheduler.FirstInPlace s.priority := by
  obtain ⟨prio, lowered, rfl, outcome⟩ := yield_cases done
  rcases outcome with ⟨after, found, rfl⟩ | ⟨nextThread, after, ready, -, -, -, rfl⟩ |
    ⟨nextThread, after, found, lower, inserted⟩
  · have taken := scheduler_findNextToRun found
    exact Scheduler.sameReadyLists_of_none taken
  · cases stays
  · have taken := scheduler_findNextToRun found
    have after_policy : after.scheduler.policy = .prioP := by
      have kept := s.scheduler.policy_findNextToRun
      rw [taken] at kept
      exact kept.trans policy
    have other : nextThread ≠ s.currentThread := by
      rintro rfl
      exact lt_irrefl _ lower
    have same : after.priority nextThread = s.priority nextThread := by
      rw [(findNextToRun_fields found).1]
      exact Function.update_of_ne other _ _
    rw [readyToRun_eq after_policy inserted]
    dsimp only
    rw [same]
    exact Scheduler.putBack_iff taken

/-- The main thread has the priority 30, which `Yield` lowers to 10, and has forked two
threads. -/
def exampleYielder (first second : Int) : Except Stop (Kernel ℕ Empty Empty Empty) :=
  TransitionRuns.run schedulingStep
    (boot 0 (fun thread => thread)
      (fun thread => if thread = 0 then 30 else if thread = 1 then first else second) nofun)
    [.thread (.call (.fork 1)), .thread (.call (.fork 2))]

theorem yield_keeps_two : ∃ s next, exampleYielder 5 3 = .ok s ∧ s.yield = .ok next ∧
    s.scheduler.SameReadyLists next.scheduler := by
  refine ⟨_, _, rfl, rfl, (yield_sameReadyLists_iff rfl rfl rfl).mpr ?_⟩
  decide

/-- Two ready threads of the same priority change places. -/
theorem yield_swaps_two : ∃ s next, exampleYielder 5 5 = .ok s ∧
    s.scheduler.policy = .prioP ∧ s.yield = .ok next ∧ next.mode = .user ∧
    s.scheduler.readyList.items = [1, 2] ∧ next.scheduler.readyList.items = [2, 1] ∧
    ¬ s.scheduler.SameReadyLists next.scheduler := by
  refine ⟨_, _, rfl, rfl, rfl, rfl, rfl, rfl, ?_⟩
  decide

end Kernel

end Nachos
