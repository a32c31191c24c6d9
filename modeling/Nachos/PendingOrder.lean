import Nachos.InterruptDelivery

/-!
# Interrupts that are due at the same time

`CheckIfDue` takes the first interrupt off the pending list to look at it, and puts it back
with `SortedInsert` when it is not due.  That places it behind the interrupts that are due
at the same time, which are then delivered before it.  Between these peeks the interrupts
for one tick are delivered in the order in which they were scheduled.

The requests of the machine are taken apart into actions here, so that each of the peeks in
a loop is a step of its own.
-/

namespace Nachos

open TransitionRuns

namespace LinkedList

variable {Item : Type}

/-- An element comes back to the front of a list when those that it passes are equal to
it. -/
theorem insertElement_eq_cons_iff_takeWhile {element : ListElement Item}
    {elements : List (ListElement Item)} :
    insertElement element elements = element :: elements ↔
      ∀ other ∈ elements.takeWhile fun other => other.key ≤ element.key, other = element := by
  induction elements with
  | nil => simp [insertElement]
  | cons first rest ih =>
      unfold insertElement
      by_cases before : element.key < first.key
      · have stops : ¬ first.key ≤ element.key := by omega
        simp [if_pos before, stops]
      · have passes : first.key ≤ element.key := by omega
        rw [if_neg before, List.takeWhile_cons_of_pos (by simpa using passes),
          List.forall_mem_cons, ← ih, List.cons.injEq]
        constructor
        · rintro ⟨rfl, same⟩
          exact ⟨rfl, same⟩
        · rintro ⟨rfl, same⟩
          exact ⟨rfl, same⟩

/-- A new element is the last one with its key. -/
theorem filter_insertElement (element : ListElement Item) {elements : List (ListElement Item)}
    (sorted : elements.Pairwise fun first second => first.key ≤ second.key) (key : Int) :
    (insertElement element elements).filter (fun other => other.key = key) =
      elements.filter (fun other => other.key = key) ++
        [element].filter fun other => other.key = key := by
  induction elements with
  | nil => rfl
  | cons first rest ih =>
      obtain ⟨least, restSorted⟩ := List.pairwise_cons.mp sorted
      unfold insertElement
      split
      · next before =>
        by_cases same : element.key = key
        · have none : (first :: rest).filter (fun other => other.key = key) = [] := by
            apply List.filter_eq_nil_iff.mpr
            intro other member
            rcases List.mem_cons.mp member with rfl | inRest
            · simp only [decide_eq_true_eq]
              omega
            · have later := least other inRest
              simp only [decide_eq_true_eq]
              omega
          rw [List.filter_cons_of_pos (by simpa using same), none]
          simp [same]
        · simp [same, List.filter_cons]
      · rw [List.filter_cons, List.filter_cons, ih restSorted]
        split <;> rfl

end LinkedList

namespace Interrupt

variable {Handler World : Type}

/-- The parts of the requests that move the clock or change the pending list. -/
inductive ClockAction (Handler : Type) where
  | schedule (handler : Handler) (arg : CInt) (fromNow : Int) (type : IntType)
  | tick
  | checkIfDue (advanceClock : Bool)
  /-- Assignments to the other members. -/
  | assign (level : IntStatus) (status : MachineStatus) (yieldOnReturn halted : Bool)
  deriving DecidableEq

def clockStep (handlers : Handlers Handler World) (s : Interrupt Handler World) :
    ClockAction Handler → Except Abort (Interrupt Handler World)
  | .schedule handler arg fromNow type => s.schedule handler arg fromNow type
  | .tick => if 2 ^ 31 ≤ s.tick.stats.totalTicks then .error .overflow else .ok s.tick
  | .checkIfDue advanceClock => (s.checkIfDue handlers advanceClock).map Prod.snd
  | .assign level status yieldOnReturn halted => .ok { s with
      level := level
      status := status
      yieldOnReturn := yieldOnReturn
      halted := halted }

/-- The first interrupt is not due, and the interrupts that are due at the same time are
equal to it, or else it is due. -/
def PeekUndisturbed (s : Interrupt Handler World) : Prop :=
  match s.pending.elements with
  | [] => True
  | first :: rest => s.stats.totalTicks < first.key →
      ∀ other ∈ rest.takeWhile fun other => other.key ≤ first.key, other = first

/-- The interrupts for each tick have fired and will fire in the order in which they were
scheduled. -/
def InOrder (s : Interrupt Handler World) : Prop :=
  ∀ time, (s.fired.map Prod.fst ++ s.pending.items).filter (fun item => item.when = time) =
    s.scheduled.filter fun item => item.when = time

section Requests

variable {handlers : Handlers Handler World} {s after : Interrupt Handler World}

theorem clockStep_checkIfDue {advanceClock fired : Bool}
    (checked : s.checkIfDue handlers advanceClock = .ok (fired, after)) :
    clockStep handlers s (.checkIfDue advanceClock) = .ok after := by
  change (s.checkIfDue handlers advanceClock).map Prod.snd = .ok after
  rw [checked]
  rfl

/-- The loop is a run of peeks. -/
theorem checkAll_runs {rounds : Nat} (done : checkAll handlers rounds s = .ok after) :
    ∃ actions, TransitionRuns.run (clockStep handlers) s actions = .ok after := by
  induction rounds generalizing s with
  | zero => cases done
  | succ rounds ih =>
      obtain ⟨⟨fired, middle⟩, checked, rest⟩ := bind_eq_ok_iff.mp done
      have first := clockStep_checkIfDue checked
      dsimp only at rest
      split at rest
      · obtain ⟨actions, reached⟩ := ih rest
        exact ⟨.checkIfDue false :: actions, run_cons_eq_ok_iff.mpr ⟨middle, first, reached⟩⟩
      · cases rest
        exact ⟨[.checkIfDue false], run_cons_eq_ok_iff.mpr ⟨after, first, rfl⟩⟩

theorem oneTick_runs (done : s.oneTick handlers = .ok after) :
    ∃ actions, TransitionRuns.run (clockStep handlers) s actions = .ok after := by
  unfold oneTick at done
  split at done
  · cases done
  next small =>
  obtain ⟨drained, loop, finished⟩ := bind_eq_ok_iff.mp done
  obtain ⟨peeks, peeked⟩ := checkAll_runs loop
  let last : ClockAction Handler :=
    if drained.yieldOnReturn then .assign .on .system false drained.halted
    else .assign .on drained.status drained.yieldOnReturn drained.halted
  have ended : clockStep handlers drained last = .ok after := by
    dsimp only [last]
    split at finished
    · next yields =>
      rw [if_pos yields]
      exact finished
    · next stays =>
      rw [if_neg stays]
      exact finished
  have ticked : clockStep handlers s .tick = .ok s.tick := if_neg small
  refine ⟨.tick :: .assign .off s.tick.status s.tick.yieldOnReturn s.tick.halted ::
    (peeks ++ [last]), ?_⟩
  rw [run_cons_of_ok ticked, run_cons_eq_ok_iff]
  refine ⟨_, rfl, run_append_eq_ok_iff.mpr ⟨drained, peeked, ?_⟩⟩
  rw [run_cons_of_ok ended]
  rfl

theorem idle_runs (done : s.idle handlers = .ok after) :
    ∃ actions, TransitionRuns.run (clockStep handlers) s actions = .ok after := by
  obtain ⟨⟨fired, checked⟩, first, finished⟩ := bind_eq_ok_iff.mp done
  have peeked := clockStep_checkIfDue first
  have begun : clockStep handlers s (.assign s.level .idle s.yieldOnReturn s.halted) =
      .ok { s with status := .idle } := rfl
  dsimp only at finished
  split at finished
  · obtain ⟨drained, loop, finished⟩ := bind_eq_ok_iff.mp finished
    obtain ⟨peeks, drains⟩ := checkAll_runs loop
    refine ⟨.assign s.level .idle s.yieldOnReturn s.halted :: .checkIfDue true ::
      (peeks ++ [.assign drained.level .system false drained.halted]), ?_⟩
    rw [run_cons_of_ok begun, run_cons_of_ok peeked]
    refine run_append_eq_ok_iff.mpr ⟨drained, drains, ?_⟩
    cases finished
    rfl
  · refine ⟨[.assign s.level .idle s.yieldOnReturn s.halted, .checkIfDue true,
      .assign checked.level checked.status checked.yieldOnReturn true], ?_⟩
    rw [run_cons_of_ok begun, run_cons_of_ok peeked]
    cases finished
    rfl

/-- Every request is a run of these actions. -/
theorem step_runs {request : Request Handler} (done : s.step handlers request = .ok after) :
    ∃ actions, TransitionRuns.run (clockStep handlers) s actions = .ok after := by
  unfold Interrupt.step at done
  split at done
  · cases done
  cases request with
  | schedule handler arg fromNow type =>
      exact ⟨[.schedule handler arg fromNow type], run_cons_eq_ok_iff.mpr ⟨after, done, rfl⟩⟩
  | oneTick => exact oneTick_runs done
  | setLevel now =>
      dsimp only at done
      unfold setLevel at done
      have assigned : clockStep handlers s (.assign now s.status s.yieldOnReturn s.halted) =
          .ok { s with level := now } := rfl
      split at done
      · split at done
        · obtain ⟨actions, reached⟩ := oneTick_runs done
          exact ⟨_ :: actions, (run_cons_of_ok assigned actions).trans reached⟩
        · cases done
          exact ⟨[_], (run_cons_of_ok assigned []).trans rfl⟩
      · cases done
  | idle => exact idle_runs done
  | setStatus status isBusy =>
      cases done
      exact ⟨[.assign s.level status s.yieldOnReturn s.halted], rfl⟩

end Requests

section RestOfMachine

/-- The handlers keep a property of the rest of the machine. -/
def HandlersKeep (handlers : Handlers Handler World) (keeps : World → Prop) : Prop :=
  ∀ handler arg totalTicks world, keeps world →
    keeps (handlers handler arg totalTicks world).1

variable {handlers : Handlers Handler World} {s after : Interrupt Handler World}
  {keeps : World → Prop}

theorem schedule_world {handler : Handler} {arg : CInt} {fromNow : Int} {type : IntType}
    (done : s.schedule handler arg fromNow type = .ok after) : after.world = s.world := by
  unfold schedule at done
  dsimp only at done
  split at done
  · cases done
  · split at done
    · cases done
      rfl
    · cases done

theorem requestYield_world (done : s.requestYield = .ok after) : after.world = s.world := by
  unfold requestYield at done
  split at done
  · cases done
    rfl
  · cases done

theorem perform_world {calls : List (HandlerCall Handler)} (done : s.perform calls = .ok after) :
    after.world = s.world := by
  induction calls generalizing s with
  | nil =>
      cases done
      rfl
  | cons call calls ih =>
      cases call with
      | schedule handler arg fromNow type =>
          obtain ⟨middle, first, rest⟩ := bind_eq_ok_iff.mp done
          exact (ih rest).trans (schedule_world first)
      | yieldOnReturn =>
          obtain ⟨middle, first, rest⟩ := bind_eq_ok_iff.mp done
          exact (ih rest).trans (requestYield_world first)

theorem invoke_world {toOccur : PendingInterrupt Handler} (kept : HandlersKeep handlers keeps)
    (done : s.invoke handlers toOccur = .ok after) (before : keeps s.world) :
    keeps after.world := by
  obtain ⟨performed, calls, returned⟩ := bind_eq_ok_iff.mp done
  cases returned
  have same := perform_world calls
  dsimp only at same ⊢
  rw [same]
  exact kept _ _ _ _ before

theorem fireUnlessDone_world {toOccur : PendingInterrupt Handler} {when : Int} {fired : Bool}
    (kept : HandlersKeep handlers keeps)
    (done : s.fireUnlessDone handlers toOccur when = .ok (fired, after))
    (before : keeps s.world) : keeps after.world := by
  unfold fireUnlessDone at done
  split at done
  · cases done
    exact before
  · obtain ⟨invoked, calls, returned⟩ := bind_eq_ok_iff.mp done
    cases returned
    exact invoke_world kept calls before

theorem clockStep_world {action : ClockAction Handler} (kept : HandlersKeep handlers keeps)
    (done : clockStep handlers s action = .ok after) (before : keeps s.world) :
    keeps after.world := by
  cases action with
  | schedule handler arg fromNow type => rwa [schedule_world done]
  | tick =>
      dsimp only [clockStep] at done
      split at done
      · cases done
      · cases done
        unfold tick
        split <;> exact before
  | checkIfDue advanceClock =>
      obtain ⟨⟨fired, checked⟩, looked, same⟩ := map_eq_ok_iff.mp done
      cases same
      rcases checkIfDue_cases looked with ⟨-, -, rfl⟩ | ⟨first, rest, -, found⟩
      · exact before
      rcases found with ⟨-, -, fires⟩ | ⟨-, -, -, rfl⟩ | ⟨-, fires⟩
      · exact fireUnlessDone_world kept fires before
      · exact before
      · exact fireUnlessDone_world kept fires before
  | assign level status yieldOnReturn halted =>
      cases done
      exact before

/-- What the handlers keep of the rest of the machine, every request keeps. -/
theorem step_world {request : Request Handler} (kept : HandlersKeep handlers keeps)
    (done : s.step handlers request = .ok after) (before : keeps s.world) :
    keeps after.world := by
  obtain ⟨actions, reached⟩ := step_runs done
  have along : AlongRun (clockStep handlers) (fun state => keeps state.world) s actions :=
    alongRun_of_preserved (fun state action next now stepped =>
      clockStep_world kept stepped now) before
  have last := alongRun_last along reached
  exact last

end RestOfMachine

section Order

variable {handlers : Handlers Handler World} {s after : Interrupt Handler World}

/-- The interrupts with one key, once another one has been inserted. -/
theorem Sorted.filter_items_insert {list : LinkedList (PendingInterrupt Handler)}
    (sorted : Sorted list) (item : PendingInterrupt Handler) (time : Int) :
    (list.sortedInsert item item.when).items.filter (fun other => other.when = time) =
      list.items.filter (fun other => other.when = time) ++
        [item].filter fun other => other.when = time := by
  have byKey : ∀ {elements : List (ListElement (PendingInterrupt Handler))},
      (∀ element ∈ elements, element.key = element.item.when) →
        (elements.map ListElement.item).filter (fun other => other.when = time) =
          (elements.filter fun element => element.key = time).map ListElement.item := by
    intro elements keyed
    rw [List.filter_map]
    congr 1
    apply List.filter_congr
    intro element member
    simp [keyed element member]
  unfold LinkedList.items
  rw [byKey (sorted.insert item).keyed, byKey sorted.keyed]
  unfold LinkedList.sortedInsert
  rw [LinkedList.filter_insertElement _ sorted.sorted, List.map_append]
  by_cases same : item.when = time <;> simp [same]

theorem schedule_inOrder (sorted : Sorted s.pending) (inOrder : s.InOrder) {handler : Handler}
    {arg : CInt} {fromNow : Int} {type : IntType}
    (done : s.schedule handler arg fromNow type = .ok after) : after.InOrder := by
  unfold schedule at done
  dsimp only at done
  split at done
  · cases done
  split at done
  · cases done
    intro time
    have before := inOrder time
    rw [List.filter_append] at before ⊢
    dsimp only
    rw [List.filter_append, ← before,
      sorted.filter_items_insert ⟨handler, arg, s.stats.totalTicks + fromNow, type⟩ time,
      List.append_assoc]
  · cases done

theorem perform_inOrder (sorted : Sorted s.pending) (inOrder : s.InOrder)
    {calls : List (HandlerCall Handler)} (done : s.perform calls = .ok after) :
    after.InOrder := by
  induction calls generalizing s with
  | nil =>
      cases done
      exact inOrder
  | cons call calls ih =>
      cases call with
      | schedule handler arg fromNow type =>
          obtain ⟨middle, first, rest⟩ := bind_eq_ok_iff.mp done
          exact ih (schedule_serves sorted first).1.sorted (schedule_inOrder sorted inOrder first)
            rest
      | yieldOnReturn =>
          obtain ⟨middle, first, rest⟩ := bind_eq_ok_iff.mp done
          unfold requestYield at first
          split at first
          · cases first
            exact @ih { s with yieldOnReturn := true } sorted inOrder rest
          · cases first

/-- An interrupt that fires comes off the front of the list. -/
theorem fireUnlessDone_inOrder {first : ListElement (PendingInterrupt Handler)}
    {rest : List (ListElement (PendingInterrupt Handler))} (elements : s.pending = ⟨first :: rest⟩)
    (sorted : Sorted s.pending) (inOrder : s.InOrder) {fired : Bool}
    (done : { s with pending := ⟨rest⟩ }.fireUnlessDone handlers first.item first.key =
      .ok (fired, after)) : after.InOrder := by
  unfold fireUnlessDone at done
  split at done
  · next quiet =>
    cases done
    obtain rfl : rest = [] := by
      simpa [LinkedList.items] using LinkedList.isEmpty_eq_true_iff.mp quiet.2.2
    intro time
    rw [← inOrder time, elements]
    rfl
  · obtain ⟨performed, invoked, finished⟩ := bind_eq_ok_iff.mp done
    cases finished
    obtain ⟨called, calls, finished⟩ := bind_eq_ok_iff.mp invoked
    cases finished
    rw [elements] at sorted
    apply perform_inOrder (by exact sorted.tail) _ calls
    intro time
    rw [← inOrder time, elements]
    simp [LinkedList.items]

/-- What holds between the actions. -/
structure OrderedDelivery (s : Interrupt Handler World) : Prop where
  sorted : Sorted s.pending
  inOrder : s.InOrder

/-- A peek that disturbs nothing keeps the order. -/
theorem OrderedDelivery.checkIfDue (ordered : s.OrderedDelivery) {advanceClock fired : Bool}
    (undisturbed : advanceClock = false → s.PeekUndisturbed)
    (done : s.checkIfDue handlers advanceClock = .ok (fired, after)) : after.OrderedDelivery := by
  obtain ⟨sorted, inOrder⟩ := ordered
  rcases checkIfDue_cases done with ⟨-, rfl, rfl⟩ | ⟨first, rest, pending, found⟩
  · exact ⟨sorted, inOrder⟩
  · rcases found with ⟨-, early, fires⟩ | ⟨rfl, early, rfl, rfl⟩ | ⟨arrived, fires⟩
    · refine ⟨?_, @fireUnlessDone_inOrder _ _ handlers (s.advanceClock first.key) _ _ _ pending
        sorted inOrder _ fires⟩
      exact (@fireUnlessDone_serves _ _ handlers (s.advanceClock first.key) _ _ _ pending sorted
        (Int.le_refl _) _ fires).1.sorted
    · have still := undisturbed rfl
      unfold PeekUndisturbed at still
      rw [pending] at still
      have same : LinkedList.sortedInsert ⟨rest⟩ first.item first.key = s.pending := by
        rw [pending]
        apply congrArg LinkedList.mk
        exact LinkedList.insertElement_eq_cons_iff_takeWhile.mpr (still early)
      rw [same]
      exact ⟨sorted, inOrder⟩
    · exact ⟨(fireUnlessDone_serves pending sorted arrived fires).1.sorted,
        fireUnlessDone_inOrder pending sorted inOrder fires⟩

theorem OrderedDelivery.clockStep (ordered : s.OrderedDelivery) {action : ClockAction Handler}
    (undisturbed : action = .checkIfDue false → s.PeekUndisturbed)
    (done : clockStep handlers s action = .ok after) : after.OrderedDelivery := by
  cases action with
  | schedule handler arg fromNow type =>
      exact ⟨(schedule_serves ordered.sorted done).1.sorted,
        schedule_inOrder ordered.sorted ordered.inOrder done⟩
  | tick =>
      unfold Interrupt.clockStep at done
      dsimp only at done
      split at done
      · cases done
      · cases done
        unfold tick
        split <;> exact ⟨ordered.sorted, ordered.inOrder⟩
  | checkIfDue advanceClock =>
      change (s.checkIfDue handlers advanceClock).map Prod.snd = .ok after at done
      cases checked : s.checkIfDue handlers advanceClock with
      | error abort =>
          rw [checked] at done
          cases done
      | ok result =>
          rw [checked] at done
          cases done
          apply ordered.checkIfDue _ checked
          rintro rfl
          exact undisturbed rfl
  | assign level status yieldOnReturn halted =>
      cases done
      exact ⟨ordered.sorted, ordered.inOrder⟩

/-- When a peek fires nothing it leaves the pending list as it is if and only if it does not
move the first interrupt behind a different one. -/
theorem pending_eq_iff (done : s.checkIfDue handlers false = .ok (false, after)) :
    after.pending = s.pending ↔ s.PeekUndisturbed := by
  unfold PeekUndisturbed
  rcases checkIfDue_cases done with ⟨empty, -, rfl⟩ | ⟨first, rest, pending, found⟩
  · rw [empty]
    simp
  · rw [pending]
    rcases found with ⟨advance, -⟩ | ⟨-, early, -, rfl⟩ | ⟨arrived, fires⟩
    · cases advance
    · have place : LinkedList.sortedInsert ⟨rest⟩ first.item first.key = ⟨first :: rest⟩ ↔
          LinkedList.insertElement first rest = first :: rest := by
        unfold LinkedList.sortedInsert
        rw [LinkedList.mk.injEq]
      dsimp only
      rw [place, LinkedList.insertElement_eq_cons_iff_takeWhile]
      simp [early]
    · have due : ¬ s.stats.totalTicks < first.key := by omega
      simp only [due, false_implies, iff_true]
      unfold fireUnlessDone at fires
      split at fires
      · next quiet =>
        cases fires
        obtain rfl : rest = [] := by
          simpa [LinkedList.items] using LinkedList.isEmpty_eq_true_iff.mp quiet.2.2
        rfl
      · obtain ⟨performed, invoked, finished⟩ := bind_eq_ok_iff.mp fires
        cases finished

theorem orderedDelivery_new (world : World) :
    (new world : Interrupt Handler World).OrderedDelivery :=
  ⟨sorted_empty, fun _ => rfl⟩

/-- When `CheckIfDue` fires nothing, the pending list is unchanged if and only if the first
interrupt is due or none of those behind it that are due no later differs from it.  In every
run whose peeks all meet this condition, the interrupts for each tick are delivered in the
order in which they were scheduled. -/
theorem peeks_and_delivery_order (handlers : Handlers Handler World) :
    (∀ s after : Interrupt Handler World, s.checkIfDue handlers false = .ok (false, after) →
        (after.pending = s.pending ↔ s.PeekUndisturbed)) ∧
      ∀ world actions,
        RunAllowed (clockStep handlers)
            (fun s action => action = .checkIfDue false → s.PeekUndisturbed) (new world) actions →
          AlongRun (clockStep handlers) InOrder (new world) actions := by
  constructor
  · intro s after done
    exact pending_eq_iff done
  · intro world actions undisturbed
    refine (alongRun_of_invariant ?_ (orderedDelivery_new world) undisturbed).mono
      fun s ordered => ordered.inOrder
    intro s action after ordered allowed done
    exact ordered.clockStep allowed done

/-- Two disk interrupts for tick 20 change places when `OneTick` peeks at tick 10, and fire
in that order at tick 20. -/
theorem not_peeks_and_delivery_order :
    let handlers : Handlers Nat Unit := fun _ _ _ _ => ((), [])
    (∃ s after : Interrupt Nat Unit, s.checkIfDue handlers false = .ok (false, after) ∧
        after.pending ≠ s.pending) ∧
      (TransitionRuns.run (Interrupt.step handlers) (new ())
        [.schedule 1 0 20 .disk, .schedule 2 0 20 .disk, .oneTick, .oneTick]).map (fun s =>
          (s.scheduled.map PendingInterrupt.handler,
            s.fired.map fun entry => (entry.1.handler, entry.1.when, entry.2))) =
        .ok ([1, 2], [(2, 20, 20), (1, 20, 20)]) := by
  constructor
  · let first : PendingInterrupt Nat := ⟨1, 0, 20, .disk⟩
    let second : PendingInterrupt Nat := ⟨2, 0, 20, .disk⟩
    refine ⟨{ new () with pending := ⟨[⟨first, 20⟩, ⟨second, 20⟩]⟩ },
      { new () with pending := ⟨[⟨second, 20⟩, ⟨first, 20⟩]⟩ }, rfl, ?_⟩
    decide
  · rfl

end Order

end Interrupt

end Nachos
