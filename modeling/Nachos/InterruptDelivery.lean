import Nachos.Interrupt
import Nachos.TimedEvents
import Nachos.TransitionRuns

/-!
# The delivery of interrupts

The pending list stays sorted by its keys, so that the first interrupt on it is the one
that is due first.  A handler only schedules interrupts for later.  Hence the object keeps
to the rules for timed events, and each round of the loops in `OneTick` and `Idle` uses up
one of the interrupts that were due when the loop started.
-/

namespace Nachos

open TimedEvents TransitionRuns Relation

namespace Interrupt

variable {Handler World : Type}

/-- The interrupts as timed events. -/
def timeline (s : Interrupt Handler World) : Timeline (PendingInterrupt Handler) Int where
  now := s.stats.totalTicks
  posted := s.scheduled
  pending := s.pending.items
  happened := s.fired

/-- The number of pending interrupts whose time has come. -/
def numDue (s : Interrupt Handler World) : Nat :=
  overdue PendingInterrupt.when s.timeline

/-- The list is sorted, and its keys are the times when the interrupts are due. -/
structure Sorted (list : LinkedList (PendingInterrupt Handler)) : Prop where
  sorted : list.elements.Pairwise fun first second => first.key ≤ second.key
  keyed : ∀ element ∈ list.elements, element.key = element.item.when

/-- Interrupts have been scheduled and have fired while the clock stood still. -/
structure Serves (s after : Interrupt Handler World) : Prop where
  steps : ReflTransGen (Step PendingInterrupt.when) s.timeline after.timeline
  sorted : Sorted after.pending
  stats : after.stats = s.stats
  level : after.level = s.level
  status : after.status = s.status

theorem Serves.refl {s : Interrupt Handler World} (sorted : Sorted s.pending) : Serves s s :=
  ⟨ReflTransGen.refl, sorted, rfl, rfl, rfl⟩

theorem Serves.trans {s middle after : Interrupt Handler World} (first : Serves s middle)
    (second : Serves middle after) : Serves s after where
  steps := first.steps.trans second.steps
  sorted := second.sorted
  stats := second.stats.trans first.stats
  level := second.level.trans first.level
  status := second.status.trans first.status

section Lists

variable {list : LinkedList (PendingInterrupt Handler)} {item : PendingInterrupt Handler}

theorem sorted_empty : Sorted (LinkedList.empty : LinkedList (PendingInterrupt Handler)) :=
  ⟨List.Pairwise.nil, nofun⟩

theorem Sorted.insert (sorted : Sorted list) (item : PendingInterrupt Handler) :
    Sorted (list.sortedInsert item item.when) where
  sorted := LinkedList.sorted_insertElement _ sorted.sorted
  keyed element member := by
    rcases LinkedList.mem_insertElement.mp member with rfl | old
    · rfl
    · exact sorted.keyed element old

theorem Sorted.tail {first : ListElement (PendingInterrupt Handler)}
    {rest : List (ListElement (PendingInterrupt Handler))} (sorted : Sorted ⟨first :: rest⟩) :
    Sorted ⟨rest⟩ where
  sorted := (List.pairwise_cons.mp sorted.sorted).2
  keyed element member := sorted.keyed element (List.mem_cons_of_mem _ member)

/-- The first interrupt on the list is the one that is due first. -/
theorem Sorted.first_earliest {first : ListElement (PendingInterrupt Handler)}
    {rest : List (ListElement (PendingInterrupt Handler))} (sorted : Sorted ⟨first :: rest⟩) :
    ∀ other ∈ (⟨rest⟩ : LinkedList (PendingInterrupt Handler)).items,
      first.item.when ≤ other.when := by
  intro other member
  obtain ⟨element, inRest, rfl⟩ := List.mem_map.mp member
  rw [← sorted.keyed first List.mem_cons_self,
    ← sorted.keyed element (List.mem_cons_of_mem _ inRest)]
  exact (List.pairwise_cons.mp sorted.sorted).1 element inRest

theorem items_sortedInsert (list : LinkedList (PendingInterrupt Handler))
    (item : PendingInterrupt Handler) (key : Int) :
    ((list.sortedInsert item key).items : Multiset (PendingInterrupt Handler)) =
      item ::ₘ (list.items : Multiset (PendingInterrupt Handler)) :=
  Multiset.coe_eq_coe.mpr ((LinkedList.perm_insertElement _ _).map ListElement.item)

end Lists

section Handlers

variable {handlers : Handlers Handler World} {s after : Interrupt Handler World}

/-- `Schedule` posts an event. -/
theorem schedule_serves (sorted : Sorted s.pending) {handler : Handler} {arg : CInt}
    {fromNow : Int} {type : IntType} (done : s.schedule handler arg fromNow type = .ok after) :
    Serves s after ∧ after.numDue = s.numDue := by
  unfold schedule at done
  dsimp only at done
  split at done
  · cases done
  split at done
  · next positive =>
    cases done
    let toOccur : PendingInterrupt Handler :=
      ⟨handler, arg, s.stats.totalTicks + fromNow, type⟩
    have ahead : s.timeline.now < toOccur.when := Int.lt_add_of_pos_right _ positive
    have posted : ((s.scheduled ++ [toOccur] : List (PendingInterrupt Handler)) :
        Multiset (PendingInterrupt Handler)) = toOccur ::ₘ s.scheduled :=
      Multiset.coe_eq_coe.mpr (List.perm_append_singleton _ _)
    have timeline : { s with
        pending := s.pending.sortedInsert toOccur toOccur.when
        scheduled := s.scheduled ++ [toOccur] }.timeline = { s.timeline with
          posted := toOccur ::ₘ s.timeline.posted
          pending := toOccur ::ₘ s.timeline.pending } := by
      simp only [Interrupt.timeline, posted, items_sortedInsert]
    constructor
    · refine ⟨?_, sorted.insert toOccur, rfl, rfl, rfl⟩
      change ReflTransGen _ _ { s with
        pending := s.pending.sortedInsert toOccur toOccur.when
        scheduled := s.scheduled ++ [toOccur] }.timeline
      rw [timeline]
      exact ReflTransGen.single (.post ahead)
    · change overdue _ { s with
        pending := s.pending.sortedInsert toOccur toOccur.when
        scheduled := s.scheduled ++ [toOccur] }.timeline = _
      rw [timeline]
      exact overdue_post ahead
  · cases done

/-- The calls of a handler post events. -/
theorem perform_serves (sorted : Sorted s.pending) {calls : List (HandlerCall Handler)}
    (done : s.perform calls = .ok after) : Serves s after ∧ after.numDue = s.numDue := by
  induction calls generalizing s with
  | nil =>
      cases done
      exact ⟨Serves.refl sorted, rfl⟩
  | cons call calls ih =>
      cases call with
      | schedule handler arg fromNow type =>
          obtain ⟨middle, first, rest⟩ := bind_eq_ok_iff.mp done
          obtain ⟨serves, numDue⟩ := schedule_serves sorted first
          obtain ⟨later, laterDue⟩ := ih serves.sorted rest
          exact ⟨serves.trans later, laterDue.trans numDue⟩
      | yieldOnReturn =>
          obtain ⟨middle, first, rest⟩ := bind_eq_ok_iff.mp done
          unfold requestYield at first
          split at first
          · cases first
            obtain ⟨later, laterDue⟩ := @ih { s with yieldOnReturn := true } sorted rest
            exact ⟨⟨later.steps, later.sorted, later.stats, later.level, later.status⟩, laterDue⟩
          · cases first

/-- The first interrupt, which is due, is taken off the list and fires. -/
theorem invoke_serves {first : ListElement (PendingInterrupt Handler)}
    {rest : List (ListElement (PendingInterrupt Handler))} (elements : s.pending = ⟨first :: rest⟩)
    (sorted : Sorted s.pending) (arrived : first.key ≤ s.stats.totalTicks)
    (done : { s with pending := ⟨rest⟩ }.invoke handlers first.item = .ok after) :
    Serves s after ∧ after.numDue + 1 = s.numDue := by
  rw [elements] at sorted
  obtain ⟨performed, calls, finished⟩ := bind_eq_ok_iff.mp done
  cases finished
  obtain ⟨serves, numDue⟩ := perform_serves (by exact sorted.tail) calls
  have pending : s.timeline.pending = first.item ::ₘ
      ((⟨rest⟩ : LinkedList (PendingInterrupt Handler)).items :
        Multiset (PendingInterrupt Handler)) := by
    simp only [timeline, elements]
    rfl
  have isDue : first.item.when ≤ s.timeline.now := by
    rw [← sorted.keyed first List.mem_cons_self]
    exact arrived
  have fires := Step.happen pending isDue fun other member => sorted.first_earliest other member
  constructor
  · exact {
      steps := (ReflTransGen.single fires).trans serves.steps
      sorted := serves.sorted
      stats := serves.stats
      level := serves.level
      status := rfl }
  · have fewer := overdue_happen pending isDue
    change performed.numDue + 1 = s.numDue
    rw [numDue]
    exact fewer

/-- Putting the first interrupt back changes nothing but its place among those that are
due at the same time. -/
theorem putBack_serves {first : ListElement (PendingInterrupt Handler)}
    {rest : List (ListElement (PendingInterrupt Handler))} (elements : s.pending = ⟨first :: rest⟩)
    (sorted : Sorted s.pending) :
    Serves s { s with
      pending := LinkedList.sortedInsert ⟨rest⟩ first.item first.key } ∧
      numDue { s with pending := LinkedList.sortedInsert ⟨rest⟩ first.item first.key } =
        s.numDue := by
  rw [elements] at sorted
  have same : timeline { s with
      pending := LinkedList.sortedInsert ⟨rest⟩ first.item first.key } = s.timeline := by
    simp only [timeline, items_sortedInsert, elements]
    rfl
  constructor
  · refine ⟨by rw [same], ?_, rfl, rfl, rfl⟩
    rw [sorted.keyed first List.mem_cons_self]
    exact sorted.tail.insert first.item
  · rw [numDue, same]
    rfl

/-- From the point where the first interrupt is due, `CheckIfDue` fires it, or the machine
has nothing to do but to wait for its timer. -/
theorem fireUnlessDone_serves {first : ListElement (PendingInterrupt Handler)}
    {rest : List (ListElement (PendingInterrupt Handler))} (elements : s.pending = ⟨first :: rest⟩)
    (sorted : Sorted s.pending) (arrived : first.key ≤ s.stats.totalTicks) {fired : Bool}
    (done : { s with pending := ⟨rest⟩ }.fireUnlessDone handlers first.item first.key =
      .ok (fired, after)) :
    Serves s after ∧ (fired = true ∧ after.numDue + 1 = s.numDue ∨
      fired = false ∧ s.status = .idle) := by
  unfold fireUnlessDone at done
  split at done
  · next quiet =>
    cases done
    exact ⟨(putBack_serves elements sorted).1, Or.inr ⟨rfl, quiet.1⟩⟩
  · obtain ⟨performed, invoked, finished⟩ := bind_eq_ok_iff.mp done
    cases finished
    obtain ⟨serves, numDue⟩ := invoke_serves elements sorted arrived invoked
    exact ⟨serves, Or.inl ⟨rfl, numDue⟩⟩

end Handlers

section Loops

variable {handlers : Handlers Handler World} {s after : Interrupt Handler World} {fired : Bool}

theorem numDue_eq_zero_iff :
    s.numDue = 0 ↔ ∀ item ∈ s.pending.items, s.stats.totalTicks < item.when := by
  unfold numDue overdue
  rw [Multiset.countP_eq_zero]
  simp [timeline]

/-- If the first interrupt is not due then none is. -/
theorem Sorted.none_due {first : ListElement (PendingInterrupt Handler)}
    {rest : List (ListElement (PendingInterrupt Handler))} (elements : s.pending = ⟨first :: rest⟩)
    (sorted : Sorted s.pending) (early : s.stats.totalTicks < first.key) : s.numDue = 0 := by
  rw [numDue_eq_zero_iff, elements]
  rw [elements] at sorted
  have key := sorted.keyed first List.mem_cons_self
  intro item member
  rcases List.mem_cons.mp member with rfl | inRest
  · rwa [← key]
  · have later := sorted.first_earliest item inRest
    omega

/-- What `CheckIfDue` does: there is no interrupt, or it sets the clock to the first one,
or puts that back, or it has become due. -/
theorem checkIfDue_cases {advance : Bool}
    (done : s.checkIfDue handlers advance = .ok (fired, after)) :
    s.pending.elements = [] ∧ fired = false ∧ after = s ∨
      ∃ first rest, s.pending = ⟨first :: rest⟩ ∧
        (advance = true ∧ s.stats.totalTicks < first.key ∧
            ({ s with pending := ⟨rest⟩ }.advanceClock first.key).fireUnlessDone handlers
              first.item first.key = .ok (fired, after) ∨
          advance = false ∧ s.stats.totalTicks < first.key ∧ fired = false ∧
            after = { s with pending := LinkedList.sortedInsert ⟨rest⟩ first.item first.key } ∨
          first.key ≤ s.stats.totalTicks ∧
            { s with pending := ⟨rest⟩ }.fireUnlessDone handlers first.item first.key =
              .ok (fired, after)) := by
  unfold checkIfDue LinkedList.sortedRemove at done
  split at done
  · cases elements : s.pending.elements with
    | nil =>
        simp only [elements] at done
        cases done
        exact Or.inl ⟨rfl, rfl, rfl⟩
    | cons first rest =>
        right
        refine ⟨first, rest, by rw [← elements], ?_⟩
        simp only [elements] at done
        split at done
        · next advances => exact Or.inl ⟨advances.1, advances.2, done⟩
        · next stays =>
          split at done
          · next early =>
            cases done
            exact Or.inr (Or.inl ⟨by simpa [early] using stays, early, rfl, rfl⟩)
          · next arrived => exact Or.inr (Or.inr ⟨not_lt.mp arrived, done⟩)
  · cases done

/-- `CheckIfDue` that does not advance the clock: it fires an interrupt that is due, or
none is due, or the machine is idle. -/
theorem checkIfDue_serves (sorted : Sorted s.pending)
    (done : s.checkIfDue handlers false = .ok (fired, after)) :
    Serves s after ∧ (fired = true ∧ after.numDue + 1 = s.numDue ∨
      fired = false ∧ (s.status = .idle ∨ after.numDue = 0)) := by
  rcases checkIfDue_cases done with ⟨empty, rfl, rfl⟩ | ⟨first, rest, pending, found⟩
  · refine ⟨Serves.refl sorted, Or.inr ⟨rfl, Or.inr ?_⟩⟩
    rw [numDue_eq_zero_iff, LinkedList.items, empty]
    intro interrupt member
    cases member
  · rcases found with ⟨advance, -⟩ | ⟨-, early, rfl, rfl⟩ | ⟨arrived, fires⟩
    · cases advance
    · obtain ⟨serves, numDue⟩ := putBack_serves pending sorted
      refine ⟨serves, Or.inr ⟨rfl, Or.inr ?_⟩⟩
      rw [numDue]
      exact sorted.none_due pending early
    · obtain ⟨serves, outcome⟩ := fireUnlessDone_serves pending sorted arrived fires
      refine ⟨serves, outcome.imp_right ?_⟩
      rintro ⟨notFired, idle⟩
      exact ⟨notFired, Or.inl idle⟩

/-- The loop serves all interrupts that are due, unless the machine is idle. -/
theorem checkAll_serves {rounds : Nat} (sorted : Sorted s.pending)
    (done : checkAll handlers rounds s = .ok after) :
    Serves s after ∧ (s.status = .idle ∨ after.numDue = 0) := by
  induction rounds generalizing s with
  | zero => cases done
  | succ rounds ih =>
      obtain ⟨⟨fired, middle⟩, checked, rest⟩ := bind_eq_ok_iff.mp done
      obtain ⟨serves, outcome⟩ := checkIfDue_serves sorted checked
      rcases outcome with ⟨rfl, -⟩ | ⟨rfl, nothing⟩
      · obtain ⟨later, nothing⟩ := ih serves.sorted rest
        rw [serves.status] at nothing
        exact ⟨serves.trans later, nothing⟩
      · cases rest
        exact ⟨serves, nothing⟩

theorem schedule_ne_diverged (handler : Handler) (arg : CInt) (fromNow : Int) (type : IntType) :
    s.schedule handler arg fromNow type ≠ .error .diverged := by
  unfold schedule
  dsimp only
  split
  · exact nofun
  · split <;> exact nofun

theorem perform_ne_diverged (calls : List (HandlerCall Handler)) :
    s.perform calls ≠ .error .diverged := by
  induction calls generalizing s with
  | nil => exact nofun
  | cons call calls ih =>
      intro failed
      cases call with
      | schedule handler arg fromNow type =>
          rcases bind_eq_error_iff.mp failed with failed | ⟨middle, -, failed⟩
          · exact schedule_ne_diverged _ _ _ _ failed
          · exact ih failed
      | yieldOnReturn =>
          rcases bind_eq_error_iff.mp failed with failed | ⟨middle, -, failed⟩
          · unfold requestYield at failed
            split at failed <;> cases failed
          · exact ih failed

theorem fireUnlessDone_ne_diverged (item : PendingInterrupt Handler) (key : Int) :
    s.fireUnlessDone handlers item key ≠ .error .diverged := by
  unfold fireUnlessDone
  split
  · exact nofun
  · intro failed
    rcases bind_eq_error_iff.mp failed with failed | ⟨middle, -, failed⟩
    · rcases bind_eq_error_iff.mp failed with failed | ⟨middle, -, failed⟩
      · exact perform_ne_diverged _ failed
      · cases failed
    · cases failed

theorem checkIfDue_ne_diverged (advance : Bool) :
    s.checkIfDue handlers advance ≠ .error .diverged := by
  unfold checkIfDue LinkedList.sortedRemove
  split
  · cases elements : s.pending.elements with
    | nil => exact nofun
    | cons first rest =>
        dsimp only
        split
        · exact fireUnlessDone_ne_diverged _ _
        · split
          · exact nofun
          · exact fireUnlessDone_ne_diverged _ _
  · exact nofun

/-- Each round of the loop but the last uses up an interrupt that is due, and the
handlers add none. -/
theorem checkAll_ne_diverged {rounds : Nat} (sorted : Sorted s.pending)
    (enough : s.numDue < rounds) : checkAll handlers rounds s ≠ .error .diverged := by
  induction rounds generalizing s with
  | zero => omega
  | succ rounds ih =>
      intro failed
      rcases bind_eq_error_iff.mp failed with failed | ⟨⟨fired, middle⟩, checked, failed⟩
      · exact checkIfDue_ne_diverged false failed
      · obtain ⟨serves, outcome⟩ := checkIfDue_serves sorted checked
        rcases outcome with ⟨rfl, fewer⟩ | ⟨rfl, -⟩
        · exact ih serves.sorted (by omega) failed
        · cases failed

/-- The loops of `OneTick` and `Idle` come to an end. -/
theorem drain_ne_diverged (sorted : Sorted s.pending) :
    s.drain handlers ≠ .error .diverged := by
  apply checkAll_ne_diverged sorted
  have bound : s.numDue ≤ s.timeline.pending.card := overdue_le_card
  have size : s.timeline.pending.card = s.pending.elements.length := by
    simp [timeline, LinkedList.items]
  omega

end Loops

section Requests

variable {handlers : Handlers Handler World} {s after : Interrupt Handler World}

/-- The total is the sum of its parts. -/
def Statistics.Balanced (stats : Statistics) : Prop :=
  stats.totalTicks = stats.idleTicks + stats.systemTicks + stats.userTicks

/-- Time has passed, and interrupts have been scheduled and have fired. -/
structure Proceeds (s after : Interrupt Handler World) : Prop where
  steps : ReflTransGen (Step PendingInterrupt.when) s.timeline after.timeline
  sorted : Sorted after.pending
  balanced : Statistics.Balanced s.stats → Statistics.Balanced after.stats

theorem Serves.proceeds (serves : Serves s after) : Proceeds s after where
  steps := serves.steps
  sorted := serves.sorted
  balanced := by
    rw [serves.stats]
    exact id

theorem Proceeds.trans {middle : Interrupt Handler World} (first : Proceeds s middle)
    (second : Proceeds middle after) : Proceeds s after where
  steps := first.steps.trans second.steps
  sorted := second.sorted
  balanced := second.balanced ∘ first.balanced

/-- The clock goes forward, and the ticks are added where they belong. -/
theorem proceeds_of_stats (sorted : Sorted s.pending) {stats : Statistics}
    (later : s.stats.totalTicks ≤ stats.totalTicks)
    (balanced : Statistics.Balanced s.stats → Statistics.Balanced stats) :
    Proceeds s { s with stats := stats } where
  steps := ReflTransGen.single (.advance later)
  sorted := sorted
  balanced := balanced

theorem tick_proceeds (sorted : Sorted s.pending) : Proceeds s s.tick := by
  unfold tick
  split
  · apply proceeds_of_stats sorted
    · exact Int.le_add_of_nonneg_right (by decide)
    · unfold Statistics.Balanced
      dsimp only
      omega
  · apply proceeds_of_stats sorted
    · exact Int.le_add_of_nonneg_right (by decide)
    · unfold Statistics.Balanced
      dsimp only
      omega

theorem status_tick : s.tick.status = s.status := by
  unfold tick
  split <;> rfl

/-- After `OneTick` no interrupt is due. -/
theorem oneTick_proceeds (sorted : Sorted s.pending) (busy : s.status ≠ .idle)
    (done : s.oneTick handlers = .ok after) :
    Proceeds s after ∧ after.numDue = 0 ∧ after.status ≠ .idle := by
  unfold oneTick at done
  split at done
  · cases done
  obtain ⟨drained, loop, finished⟩ := bind_eq_ok_iff.mp done
  have ticked := tick_proceeds sorted
  obtain ⟨serves, nothing⟩ := checkAll_serves (by exact ticked.sorted) loop
  have status : drained.status = s.status := serves.status.trans status_tick
  have noneDue := nothing.resolve_left (by rw [← status_tick] at busy; exact busy)
  have proceeds : Proceeds s drained :=
    ticked.trans ⟨serves.steps, serves.sorted, serves.proceeds.balanced⟩
  split at finished
  · cases finished
    exact ⟨⟨proceeds.steps, proceeds.sorted, proceeds.balanced⟩, noneDue, nofun⟩
  · cases finished
    refine ⟨⟨proceeds.steps, proceeds.sorted, proceeds.balanced⟩, noneDue, ?_⟩
    rw [← status] at busy
    exact busy

/-- `CheckIfDue` that may advance the clock of an idle machine. -/
theorem checkIfDue_proceeds (sorted : Sorted s.pending) {fired : Bool}
    (done : s.checkIfDue handlers true = .ok (fired, after)) :
    Proceeds s after ∧ after.status = s.status := by
  rcases checkIfDue_cases done with ⟨-, rfl, rfl⟩ | ⟨first, rest, pending, found⟩
  · exact ⟨(Serves.refl sorted).proceeds, rfl⟩
  · rcases found with ⟨-, early, fires⟩ | ⟨noAdvance, -⟩ | ⟨arrived, fires⟩
    · have advanced : Proceeds s (s.advanceClock first.key) := by
        apply proceeds_of_stats sorted
        · exact Int.le_of_lt early
        · unfold Statistics.Balanced
          dsimp only
          omega
      obtain ⟨serves, -⟩ := @fireUnlessDone_serves _ _ handlers (s.advanceClock first.key) _ _ _
        pending sorted (Int.le_refl _) _ fires
      exact ⟨advanced.trans serves.proceeds, serves.status⟩
    · cases noAdvance
    · obtain ⟨serves, -⟩ := fireUnlessDone_serves pending sorted arrived fires
      exact ⟨serves.proceeds, serves.status⟩

theorem idle_proceeds (sorted : Sorted s.pending) (done : s.idle handlers = .ok after) :
    Proceeds s after ∧ (after.halted = false → after.status ≠ .idle) := by
  obtain ⟨⟨fired, checked⟩, first, finished⟩ := bind_eq_ok_iff.mp done
  obtain ⟨proceeds, status⟩ :=
    @checkIfDue_proceeds _ _ handlers { s with status := .idle } _ sorted _ first
  have proceeds : Proceeds s checked := ⟨proceeds.steps, proceeds.sorted, proceeds.balanced⟩
  dsimp only at finished
  split at finished
  · obtain ⟨drained, loop, finished⟩ := bind_eq_ok_iff.mp finished
    cases finished
    obtain ⟨serves, -⟩ := checkAll_serves proceeds.sorted loop
    have later := proceeds.trans serves.proceeds
    exact ⟨⟨later.steps, later.sorted, later.balanced⟩, fun _ => nofun⟩
  · cases finished
    exact ⟨⟨proceeds.steps, proceeds.sorted, proceeds.balanced⟩, nofun⟩

/-- What holds between the requests. -/
structure Sound (s : Interrupt Handler World) : Prop where
  sorted : Sorted s.pending
  timely : Timely PendingInterrupt.when s.timeline
  balanced : Statistics.Balanced s.stats
  busy : s.halted = false → s.status ≠ .idle

theorem sound_new (world : World) : Sound (new world : Interrupt Handler World) where
  sorted := sorted_empty
  timely := timely_start 0
  balanced := rfl
  busy _ := nofun

/-- The request makes simulated time pass in `OneTick`. -/
def Request.Ticks (s : Interrupt Handler World) : Request Handler → Prop
  | .oneTick => True
  | .setLevel now => now = .on ∧ s.level = .off
  | _ => False

/-- Every request keeps to the rules of timed events. -/
theorem Sound.step (sound : Sound s) {request : Request Handler}
    (done : s.step handlers request = .ok after) :
    Proceeds s after ∧ (after.halted = false → after.status ≠ .idle) ∧
      (request.Ticks s → after.numDue = 0) := by
  have busy := sound.busy
  unfold Interrupt.step at done
  split at done
  · cases done
  next running =>
  have busy := busy (by simpa using running)
  cases request with
  | schedule handler arg fromNow type =>
      obtain ⟨serves, -⟩ := schedule_serves sound.sorted done
      refine ⟨serves.proceeds, fun _ => ?_, nofun⟩
      rwa [serves.status]
  | oneTick =>
      obtain ⟨proceeds, nothing, status⟩ := oneTick_proceeds sound.sorted busy done
      exact ⟨proceeds, fun _ => status, fun _ => nothing⟩
  | setLevel now =>
      dsimp only at done
      unfold setLevel at done
      split at done
      · split at done
        · obtain ⟨proceeds, nothing, status⟩ :=
            @oneTick_proceeds _ _ handlers { s with level := now } _ sound.sorted busy done
          exact ⟨⟨proceeds.steps, proceeds.sorted, proceeds.balanced⟩, fun _ => status,
            fun _ => nothing⟩
        · next noTick =>
          cases done
          exact ⟨⟨ReflTransGen.refl, sound.sorted, id⟩, fun _ => busy,
            fun ticks => absurd ticks noTick⟩
      · cases done
  | idle =>
      obtain ⟨proceeds, status⟩ := idle_proceeds sound.sorted done
      exact ⟨proceeds, status, nofun⟩
  | setStatus status isBusy =>
      cases done
      exact ⟨⟨ReflTransGen.refl, sound.sorted, id⟩, fun _ => isBusy, nofun⟩

theorem Sound.preserved (sound : Sound s) {request : Request Handler}
    (done : s.step handlers request = .ok after) : Sound after := by
  obtain ⟨proceeds, busy, -⟩ := sound.step done
  exact {
    sorted := proceeds.sorted
    timely := timely_of_steps proceeds.steps sound.timely
    balanced := proceeds.balanced sound.balanced
    busy := busy }

/-- No request gets stuck in a loop. -/
theorem Sound.step_ne_diverged (sound : Sound s) (request : Request Handler) :
    s.step handlers request ≠ .error .diverged := by
  have ticks : ∀ {t : Interrupt Handler World}, Sorted t.pending →
      t.oneTick handlers ≠ .error .diverged := by
    intro t sorted failed
    unfold oneTick at failed
    split at failed
    · cases failed
    · rcases bind_eq_error_iff.mp failed with failed | ⟨middle, -, failed⟩
      · exact drain_ne_diverged (by exact (tick_proceeds sorted).sorted) failed
      · split at failed <;> cases failed
  unfold Interrupt.step
  split
  · exact nofun
  · cases request with
    | schedule handler arg fromNow type => exact schedule_ne_diverged _ _ _ _
    | oneTick => exact ticks sound.sorted
    | setLevel now =>
        dsimp only
        unfold setLevel
        split
        · split
          · exact ticks sound.sorted
          · exact nofun
        · exact nofun
    | idle =>
        intro failed
        rcases bind_eq_error_iff.mp failed with failed | ⟨⟨fired, checked⟩, first, failed⟩
        · exact checkIfDue_ne_diverged _ failed
        · obtain ⟨proceeds, -⟩ :=
            @checkIfDue_proceeds _ _ handlers { s with status := .idle } _ sound.sorted _ first
          dsimp only at failed
          split at failed
          · rcases bind_eq_error_iff.mp failed with failed | ⟨middle, -, failed⟩
            · exact drain_ne_diverged proceeds.sorted failed
            · cases failed
          · cases failed
    | setStatus status isBusy => exact nofun

/-- In every state of every run, each interrupt that was scheduled is pending or has
fired, exactly once, none fired before it was due, they fired in the order in which they
were due, and the ticks add up.  No request gets stuck in a loop or sets the clock back,
and after `OneTick` no interrupt is due. -/
theorem delivered_along_run (handlers : Handlers Handler World) (world : World)
    (requests : List (Request Handler)) :
    AlongRun (Interrupt.step handlers) (fun s =>
        (s.pending.items ++ s.fired.map Prod.fst).Perm s.scheduled ∧
        (∀ entry ∈ s.fired, entry.1.when ≤ entry.2) ∧
        (s.fired.Pairwise fun earlier later => earlier.1.when ≤ later.1.when) ∧
        s.stats.totalTicks =
          s.stats.idleTicks + s.stats.systemTicks + s.stats.userTicks ∧
        ∀ request : Request Handler, s.step handlers request ≠ .error .diverged ∧
          ∀ next, s.step handlers request = .ok next →
            s.stats.totalTicks ≤ next.stats.totalTicks ∧
            (request.Ticks s → ∀ item ∈ next.pending.items, next.stats.totalTicks < item.when))
      (new world) requests := by
  apply (alongRun_of_preserved (fun s request next sound done => Sound.preserved sound done)
    (sound_new world)).mono
  intro s sound
  refine ⟨?_, sound.timely.onTime, sound.timely.ordered, sound.balanced, ?_⟩
  · exact Multiset.coe_eq_coe.mp sound.timely.accounted
  · intro request
    constructor
    · exact sound.step_ne_diverged request
    · intro next done
      obtain ⟨proceeds, -, nothing⟩ := sound.step done
      constructor
      · exact now_le_of_steps proceeds.steps
      · intro ticks
        exact numDue_eq_zero_iff.mp (nothing ticks)

/-- A disk interrupt that is scheduled before a console interrupt fires after it when it is
due later, and the console interrupt that the handler schedules stays pending. -/
example :
    let handlers : Handlers Bool Unit := fun repeats _ _ _ =>
      ((), if repeats then [.schedule true 0 100 .consoleRead] else [])
    (run (Interrupt.step handlers) (new ()) [.schedule false 0 8 .disk,
        .schedule true 0 3 .consoleRead, .oneTick]).map (fun s =>
          (s.fired.map fun entry => (entry.1.type, entry.1.when, entry.2),
            s.pending.items.map PendingInterrupt.when)) =
      .ok ([(.consoleRead, 3, 10), (.disk, 8, 10)], [110]) := by
  rfl

end Requests

end Interrupt

end Nachos
