import Nachos.TransitionRuns
import Nachos.WrappingClock

/-!
# Due times in the range of an `int`

An interrupt whose due time is in the range of an `int` is never due too early, even when
the clock itself wraps around, for then it is only late.  A due time beyond the range comes
out negative.  Such an interrupt is due at once, and a device that schedules itself anew each
time keeps the loops of `OneTick` and `Idle` going for ever.
-/

namespace Nachos

open TransitionRuns CInt

/-- The due time of the interrupt that is scheduled does not wrap around. -/
def DeviceCall.InRange {Handler : Type} (totalTicks : CInt) : DeviceCall Handler → Prop
  | .schedule _ _ fromNow _ => totalTicks.toInt + fromNow.toInt < 2 ^ 31
  | .yieldOnReturn => True

namespace WrappingClock

variable {Handler World : Type}

/-- No due time that is computed in a step wraps around. -/
def SchedulesInRange (handlers : DeviceHandlers Handler World) (s : WrappingClock Handler World) :
    Action Handler → Prop
  | .schedule _ _ fromNow _ => s.totalTicks.toInt + fromNow.toInt < 2 ^ 31
  | .checkIfDue advance => s.level = .off →
      ∀ toOccur taken, s.takeDue advance = (some toOccur, taken) →
        ∀ call ∈ (handlers toOccur.handler toOccur.arg taken.totalTicks taken.world).2,
          call.InRange taken.totalTicks
  | .tick | .assign _ _ _ _ => True

/-- The interrupts that have fired did so when their delay was over, and those that are due
now have waited for as long. -/
def OnTime (s : WrappingClock Handler World) : Prop :=
  (∀ entry ∈ s.fired, entry.1.bookedAt + entry.1.fromNow.toInt ≤ entry.2) ∧
    ∀ element ∈ s.pending.elements, element.key ≤ s.totalTicks.toInt →
      element.item.bookedAt + element.item.fromNow.toInt ≤ s.elapsed

/-- What holds between the steps: the clock has to go as far as the delays last. -/
structure Punctual (s : WrappingClock Handler World) : Prop where
  onTime : ∀ entry ∈ s.fired, entry.1.bookedAt + entry.1.fromNow.toInt ≤ entry.2
  keys : ∀ element ∈ s.pending.elements, Fits element.key
  remaining : ∀ element ∈ s.pending.elements,
    element.item.bookedAt + element.item.fromNow.toInt - s.elapsed ≤
      element.key - s.totalTicks.toInt

/-- The number of pending interrupts whose time has come. -/
def numDue (s : WrappingClock Handler World) : Nat :=
  s.pending.elements.countP fun element => element.key ≤ s.totalTicks.toInt

section Handlers

variable {handlers : DeviceHandlers Handler World} {s after : WrappingClock Handler World}

theorem punctual_new (world : World) : (new world : WrappingClock Handler World).Punctual where
  onTime := nofun
  keys := nofun
  remaining := nofun

theorem Punctual.toOnTime (punctual : s.Punctual) : s.OnTime := by
  refine ⟨punctual.onTime, ?_⟩
  intro element member due
  have waits := punctual.remaining element member
  omega

/-- What the calls of a handler leave alone. -/
structure Keeps (s after : WrappingClock Handler World) : Prop where
  level : after.level = s.level
  totalTicks : after.totalTicks = s.totalTicks
  elapsed : after.elapsed = s.elapsed
  fired : after.fired = s.fired
  pending : ∀ element ∈ s.pending.elements, element ∈ after.pending.elements

theorem Keeps.trans {middle : WrappingClock Handler World} (first : Keeps s middle)
    (second : Keeps middle after) : Keeps s after where
  level := second.level.trans first.level
  totalTicks := second.totalTicks.trans first.totalTicks
  elapsed := second.elapsed.trans first.elapsed
  fired := second.fired.trans first.fired
  pending element member := second.pending element (first.pending element member)

theorem schedule_eq_ok {handler : Handler} {arg fromNow : CInt} {type : IntType}
    (done : s.schedule handler arg fromNow type = .ok after) :
    0 < fromNow.toInt ∧ after = { s with
      pending := s.pending.sortedInsert
        ⟨handler, arg, s.totalTicks + fromNow, type, fromNow, s.elapsed⟩
        (s.totalTicks + fromNow).toInt } := by
  unfold schedule at done
  dsimp only at done
  split at done
  · next positive =>
    cases done
    exact ⟨positive, rfl⟩
  · cases done

theorem requestYield_eq_ok (done : s.requestYield = .ok after) :
    after = { s with yieldOnReturn := true } := by
  unfold requestYield at done
  split at done
  · cases done
    rfl
  · cases done

theorem schedule_keeps {handler : Handler} {arg fromNow : CInt} {type : IntType}
    (done : s.schedule handler arg fromNow type = .ok after) : Keeps s after := by
  obtain ⟨-, rfl⟩ := schedule_eq_ok done
  refine ⟨rfl, rfl, rfl, rfl, ?_⟩
  intro element member
  exact LinkedList.mem_insertElement.mpr (Or.inr member)

theorem perform_keeps {calls : List (DeviceCall Handler)} (done : s.perform calls = .ok after) :
    Keeps s after := by
  induction calls generalizing s with
  | nil =>
      cases done
      exact ⟨rfl, rfl, rfl, rfl, fun element member => member⟩
  | cons call calls ih =>
      cases call with
      | schedule handler arg fromNow type =>
          obtain ⟨middle, first, rest⟩ := bind_eq_ok_iff.mp done
          exact (schedule_keeps first).trans (ih rest)
      | yieldOnReturn =>
          obtain ⟨middle, first, rest⟩ := bind_eq_ok_iff.mp done
          cases requestYield_eq_ok first
          have later := ih rest
          exact ⟨later.level, later.totalTicks, later.elapsed, later.fired, later.pending⟩

theorem toInt_when {totalTicks fromNow : CInt} (positive : 0 < fromNow.toInt)
    (inRange : totalTicks.toInt + fromNow.toInt < 2 ^ 31) :
    (totalTicks + fromNow).toInt = totalTicks.toInt + fromNow.toInt := by
  have lower := (fits_toInt totalTicks).1
  exact toInt_add_of_fits ⟨by omega, inRange⟩

/-- An interrupt whose due time is in range is not due yet. -/
theorem schedule_punctual {handler : Handler} {arg fromNow : CInt} {type : IntType}
    (inRange : s.totalTicks.toInt + fromNow.toInt < 2 ^ 31)
    (done : s.schedule handler arg fromNow type = .ok after) :
    (s.Punctual → after.Punctual) ∧ after.numDue = s.numDue := by
  obtain ⟨positive, rfl⟩ := schedule_eq_ok done
  have when := toInt_when positive inRange
  constructor
  · intro punctual
    constructor
    · exact punctual.onTime
    · intro element member
      rcases LinkedList.mem_insertElement.mp member with rfl | old
      · exact fits_toInt _
      · exact punctual.keys element old
    · intro element member
      rcases LinkedList.mem_insertElement.mp member with rfl | old
      · dsimp only
        omega
      · exact punctual.remaining element old
  · unfold numDue
    change (LinkedList.insertElement _ s.pending.elements).countP _ = _
    rw [(LinkedList.perm_insertElement _ _).countP_eq, List.countP_cons_of_neg]
    simp only [decide_eq_true_eq]
    omega

theorem perform_punctual {calls : List (DeviceCall Handler)}
    (inRange : ∀ call ∈ calls, call.InRange s.totalTicks) (done : s.perform calls = .ok after) :
    (s.Punctual → after.Punctual) ∧ after.numDue = s.numDue := by
  induction calls generalizing s with
  | nil =>
      cases done
      exact ⟨id, rfl⟩
  | cons call calls ih =>
      obtain ⟨now, later⟩ := List.forall_mem_cons.mp inRange
      cases call with
      | schedule handler arg fromNow type =>
          obtain ⟨middle, first, rest⟩ := bind_eq_ok_iff.mp done
          obtain ⟨middlePunctual, same⟩ := schedule_punctual now first
          rw [← (schedule_keeps first).totalTicks] at later
          obtain ⟨afterPunctual, sameAfter⟩ := ih later rest
          exact ⟨afterPunctual ∘ middlePunctual, sameAfter.trans same⟩
      | yieldOnReturn =>
          obtain ⟨middle, first, rest⟩ := bind_eq_ok_iff.mp done
          cases requestYield_eq_ok first
          obtain ⟨afterPunctual, same⟩ := @ih { s with yieldOnReturn := true } later rest
          refine ⟨fun punctual => afterPunctual ?_, same⟩
          exact ⟨punctual.onTime, punctual.keys, punctual.remaining⟩

/-- An interrupt whose due time wraps around is due at once. -/
theorem schedule_due {handler : Handler} {arg fromNow : CInt} {type : IntType}
    (outOfRange : ¬ s.totalTicks.toInt + fromNow.toInt < 2 ^ 31)
    (done : s.schedule handler arg fromNow type = .ok after) :
    ∃ element ∈ after.pending.elements, element.key ≤ s.totalTicks.toInt ∧
      s.elapsed < element.item.bookedAt + element.item.fromNow.toInt := by
  obtain ⟨positive, rfl⟩ := schedule_eq_ok done
  refine ⟨_, LinkedList.mem_insertElement.mpr (Or.inl rfl), ?_, ?_⟩
  · dsimp only
    rw [toInt_add_of_overflow (by omega)]
    have upper := (fits_toInt fromNow).2
    omega
  · dsimp only
    omega

theorem perform_due {calls : List (DeviceCall Handler)} {call : DeviceCall Handler}
    (member : call ∈ calls) (outOfRange : ¬ call.InRange s.totalTicks)
    (done : s.perform calls = .ok after) :
    ∃ element ∈ after.pending.elements, element.key ≤ s.totalTicks.toInt ∧
      s.elapsed < element.item.bookedAt + element.item.fromNow.toInt := by
  induction calls generalizing s with
  | nil => cases member
  | cons head calls ih =>
      cases head with
      | schedule handler arg fromNow type =>
          obtain ⟨middle, first, rest⟩ := bind_eq_ok_iff.mp done
          have kept := schedule_keeps first
          rcases List.mem_cons.mp member with rfl | later
          · obtain ⟨element, isPending, due, early⟩ := schedule_due outOfRange first
            exact ⟨element, (perform_keeps rest).pending element isPending, due, early⟩
          · rw [← kept.totalTicks, ← kept.elapsed]
            exact ih later (by rwa [kept.totalTicks]) rest
      | yieldOnReturn =>
          obtain ⟨middle, first, rest⟩ := bind_eq_ok_iff.mp done
          cases requestYield_eq_ok first
          rcases List.mem_cons.mp member with rfl | later
          · exact absurd trivial outOfRange
          · exact @ih { s with yieldOnReturn := true } later outOfRange rest

end Handlers

section Peeks

variable {handlers : DeviceHandlers Handler World} {s after taken : WrappingClock Handler World}
  {advance : Bool} {due : Option (Booking Handler)}

/-- The first interrupt is put back, or it fires. -/
theorem unlessDone_cases {toOccur : Booking Handler} {when : Int}
    (done : s.unlessDone toOccur when = (due, taken)) :
    due = none ∧ taken = { s with pending := s.pending.sortedInsert toOccur when } ∨
      due = some toOccur ∧ taken = s := by
  unfold unlessDone at done
  split at done
  · cases done
    exact Or.inl ⟨rfl, rfl⟩
  · cases done
    exact Or.inr ⟨rfl, rfl⟩

/-- There is no interrupt, or the clock is set to the first one, or that is put back, or it
has become due. -/
theorem takeDue_cases (done : s.takeDue advance = (due, taken)) :
    due = none ∧ taken = s ∨
      ∃ first rest, s.pending = ⟨first :: rest⟩ ∧
        (advance = true ∧ s.totalTicks.toInt < first.key ∧
            ({ s with pending := ⟨rest⟩ }.advanceClock first.key).unlessDone first.item
              first.key = (due, taken) ∨
          due = none ∧
            taken = { s with pending := LinkedList.sortedInsert ⟨rest⟩ first.item first.key } ∨
          first.key ≤ s.totalTicks.toInt ∧
            { s with pending := ⟨rest⟩ }.unlessDone first.item first.key = (due, taken)) := by
  unfold takeDue LinkedList.sortedRemove at done
  cases elements : s.pending.elements with
  | nil =>
      simp only [elements] at done
      cases done
      exact Or.inl ⟨rfl, rfl⟩
  | cons first rest =>
      right
      refine ⟨first, rest, by rw [← elements], ?_⟩
      simp only [elements] at done
      split at done
      · next advances => exact Or.inl ⟨advances.1, advances.2, done⟩
      · split at done
        · cases done
          exact Or.inr (Or.inl ⟨rfl, rfl⟩)
        · next arrived => exact Or.inr (Or.inr ⟨Int.not_lt.mp arrived, done⟩)

/-- The order of the pending list does not matter. -/
theorem Punctual.of_subset (punctual : s.Punctual) {pending : LinkedList (Booking Handler)}
    (subset : ∀ element ∈ pending.elements, element ∈ s.pending.elements) :
    { s with pending := pending }.Punctual where
  onTime := punctual.onTime
  keys element member := punctual.keys element (subset element member)
  remaining element member := punctual.remaining element (subset element member)

theorem Punctual.advanceClock (punctual : s.Punctual) {when : Int} (fits : Fits when) :
    (s.advanceClock when).Punctual where
  onTime := punctual.onTime
  keys := punctual.keys
  remaining element member := by
    have waits := punctual.remaining element member
    unfold WrappingClock.advanceClock
    dsimp only
    rw [toInt_ofInt_of_fits fits]
    omega

/-- The first interrupt is taken from the queue and put back. -/
theorem Punctual.putBack {first : ListElement (Booking Handler)}
    {rest : List (ListElement (Booking Handler))} (pending : s.pending = ⟨first :: rest⟩)
    (punctual : s.Punctual) :
    { s with pending := LinkedList.sortedInsert ⟨rest⟩ first.item first.key }.Punctual := by
  apply punctual.of_subset
  intro element member
  rw [pending]
  exact List.mem_cons.mpr (LinkedList.mem_insertElement.mp member)

theorem Punctual.unlessDone {first : ListElement (Booking Handler)}
    {rest : List (ListElement (Booking Handler))} (pending : s.pending = ⟨first :: rest⟩)
    (punctual : s.Punctual) (arrived : first.key ≤ s.totalTicks.toInt)
    (done : { s with pending := ⟨rest⟩ }.unlessDone first.item first.key = (due, taken)) :
    taken.Punctual ∧ ∀ toOccur ∈ due,
      toOccur.bookedAt + toOccur.fromNow.toInt ≤ taken.elapsed := by
  rcases unlessDone_cases done with ⟨rfl, rfl⟩ | ⟨rfl, rfl⟩
  · have again := punctual.putBack pending
    exact ⟨again, nofun⟩
  · constructor
    · apply punctual.of_subset
      intro element member
      rw [pending]
      exact List.mem_cons_of_mem _ member
    · intro toOccur isFirst
      cases isFirst
      have waits := punctual.remaining first (by rw [pending]; exact List.mem_cons_self)
      dsimp only
      omega

/-- An interrupt that fires has waited for its delay. -/
theorem Punctual.takeDue (punctual : s.Punctual) (done : s.takeDue advance = (due, taken)) :
    taken.Punctual ∧ ∀ toOccur ∈ due,
      toOccur.bookedAt + toOccur.fromNow.toInt ≤ taken.elapsed := by
  rcases takeDue_cases done with ⟨rfl, rfl⟩ | ⟨first, rest, pending, found⟩
  · exact ⟨punctual, nofun⟩
  · rcases found with ⟨-, later, found⟩ | ⟨rfl, rfl⟩ | ⟨arrived, found⟩
    · have fits : Fits first.key :=
        punctual.keys first (by rw [pending]; exact List.mem_cons_self)
      have advanced := punctual.advanceClock fits
      refine @Punctual.unlessDone _ _ (s.advanceClock first.key) _ _ _ _ pending advanced ?_ found
      unfold WrappingClock.advanceClock
      dsimp only
      exact Int.le_of_eq (toInt_ofInt_of_fits fits).symm
    · exact ⟨punctual.putBack pending, nofun⟩
    · exact punctual.unlessDone pending arrived found

/-- When the clock stands still, an interrupt that fires was one of those that are due. -/
theorem numDue_takeDue {toOccur : Booking Handler}
    (done : s.takeDue false = (some toOccur, taken)) : taken.numDue + 1 = s.numDue := by
  rcases takeDue_cases done with ⟨isNone, -⟩ | ⟨first, rest, pending, found⟩
  · cases isNone
  · rcases found with ⟨advance, -⟩ | ⟨isNone, -⟩ | ⟨arrived, found⟩
    · cases advance
    · cases isNone
    · rcases unlessDone_cases found with ⟨isNone, -⟩ | ⟨-, rfl⟩
      · cases isNone
      · unfold numDue
        rw [pending]
        exact (List.countP_cons_of_pos (by simpa using arrived)).symm

end Peeks

section Steps

variable {handlers : DeviceHandlers Handler World} {s after taken : WrappingClock Handler World}
  {advance fired : Bool} {toOccur : Booking Handler}

/-- The calls of the handler are made in a state that differs from `s` only in `fired` and
where neither the clock nor the pending list is. -/
theorem invoke_eq_ok (done : s.invoke handlers toOccur = .ok after) :
    ∃ called performed : WrappingClock Handler World,
      called.perform (handlers toOccur.handler toOccur.arg s.totalTicks s.world).2 =
        .ok performed ∧
      called.totalTicks = s.totalTicks ∧ called.elapsed = s.elapsed ∧
      called.pending = s.pending ∧ called.fired = s.fired ++ [(toOccur, s.elapsed)] ∧
      after = { performed with status := s.status, inHandler := false } := by
  obtain ⟨performed, calls, finished⟩ := bind_eq_ok_iff.mp done
  cases finished
  exact ⟨_, performed, calls, rfl, rfl, rfl, rfl, rfl⟩

theorem invoke_punctual
    (inRange : ∀ call ∈ (handlers toOccur.handler toOccur.arg s.totalTicks s.world).2,
      call.InRange s.totalTicks)
    (done : s.invoke handlers toOccur = .ok after) :
    (s.Punctual → toOccur.bookedAt + toOccur.fromNow.toInt ≤ s.elapsed → after.Punctual) ∧
      after.numDue = s.numDue := by
  obtain ⟨called, performed, calls, total, elapsed, pending, fired, rfl⟩ := invoke_eq_ok done
  rw [← total] at inRange
  obtain ⟨performedPunctual, same⟩ := perform_punctual (by rwa [total] at inRange ⊢) calls
  constructor
  · intro punctual waited
    have result := performedPunctual {
      onTime := by
        intro entry member
        rw [fired] at member
        rcases List.mem_append.mp member with old | new
        · exact punctual.onTime entry old
        · rw [List.mem_singleton.mp new]
          exact waited
      keys := by
        rw [pending]
        exact punctual.keys
      remaining := by
        rw [pending, total, elapsed]
        exact punctual.remaining }
    exact ⟨result.onTime, result.keys, result.remaining⟩
  · change performed.numDue = s.numDue
    rw [same]
    unfold numDue
    rw [pending, total]

theorem checkIfDue_cases (done : s.checkIfDue handlers advance = .ok (fired, after)) :
    s.level = .off ∧ (fired = false ∧ s.takeDue advance = (none, after) ∨
      fired = true ∧ ∃ toOccur taken, s.takeDue advance = (some toOccur, taken) ∧
        taken.invoke handlers toOccur = .ok after) := by
  unfold checkIfDue at done
  split at done
  · next off =>
    refine ⟨off, ?_⟩
    split at done
    · next taken isTaken =>
      cases done
      exact Or.inl ⟨rfl, isTaken⟩
    · next toOccur taken isTaken =>
      obtain ⟨invoked, invoking, finished⟩ := bind_eq_ok_iff.mp done
      cases finished
      exact Or.inr ⟨rfl, toOccur, taken, isTaken, invoking⟩
  · cases done

theorem step_checkIfDue (done : step handlers s (.checkIfDue advance) = .ok after) :
    ∃ fired, s.checkIfDue handlers advance = .ok (fired, after) := by
  change (s.checkIfDue handlers advance).map Prod.snd = .ok after at done
  cases checked : s.checkIfDue handlers advance with
  | error abort =>
      rw [checked] at done
      cases done
  | ok result =>
      rw [checked] at done
      cases done
      exact ⟨result.1, rfl⟩

/-- The clock does not run faster than the ticks. -/
theorem toInt_add_tick_le (totalTicks : CInt) {ticks : Int} (lower : 0 ≤ ticks)
    (upper : ticks < 2 ^ 31) :
    (totalTicks + BitVec.ofInt 32 ticks).toInt ≤ totalTicks.toInt + ticks := by
  have total := fits_toInt totalTicks
  have value : (BitVec.ofInt 32 ticks).toInt = ticks :=
    toInt_ofInt_of_fits ⟨by omega, upper⟩
  by_cases inRange : totalTicks.toInt + ticks < 2 ^ 31
  · have lowest := total.1
    have exactly := @toInt_add_of_fits totalTicks (BitVec.ofInt 32 ticks)
      (by rw [value]; exact ⟨by omega, inRange⟩)
    rw [value] at exactly
    exact Int.le_of_eq exactly
  · rw [toInt_add_of_overflow (by rw [value]; omega), value]
    omega

theorem Punctual.tick (punctual : s.Punctual) : s.tick.Punctual := by
  unfold WrappingClock.tick
  split
  · refine ⟨punctual.onTime, punctual.keys, ?_⟩
    intro element member
    have waits := punctual.remaining element member
    have slow := @toInt_add_tick_le s.totalTicks systemTick (by decide) (by decide)
    dsimp only
    omega
  · refine ⟨punctual.onTime, punctual.keys, ?_⟩
    intro element member
    have waits := punctual.remaining element member
    have slow := @toInt_add_tick_le s.totalTicks userTick (by decide) (by decide)
    dsimp only
    omega

theorem Punctual.step (punctual : s.Punctual) {action : Action Handler}
    (inRange : SchedulesInRange handlers s action) (done : step handlers s action = .ok after) :
    after.Punctual := by
  cases action with
  | schedule handler arg fromNow type => exact (schedule_punctual inRange done).1 punctual
  | tick =>
      cases done
      exact punctual.tick
  | checkIfDue advance =>
      obtain ⟨fired, checked⟩ := step_checkIfDue done
      obtain ⟨off, ⟨-, isTaken⟩ | ⟨-, toOccur, taken, isTaken, invoking⟩⟩ :=
        checkIfDue_cases checked
      · exact (punctual.takeDue isTaken).1
      · obtain ⟨takenPunctual, waited⟩ := punctual.takeDue isTaken
        exact (invoke_punctual (inRange off toOccur taken isTaken) invoking).1 takenPunctual
          (waited toOccur rfl)
  | assign level status yieldOnReturn halted =>
      cases done
      exact ⟨punctual.onTime, punctual.keys, punctual.remaining⟩

/-- After a due time has wrapped around, an interrupt is due too early. -/
theorem not_onTime {action : Action Handler}
    (outOfRange : ¬ SchedulesInRange handlers s action)
    (done : WrappingClock.step handlers s action = .ok after) : ¬ after.OnTime := by
  cases action with
  | schedule handler arg fromNow type =>
      intro onTime
      have kept := schedule_keeps done
      obtain ⟨element, isPending, due, early⟩ := schedule_due outOfRange done
      have waited := onTime.2 element isPending (by rw [kept.totalTicks]; exact due)
      rw [kept.elapsed] at waited
      omega
  | tick => exact absurd trivial outOfRange
  | checkIfDue advance =>
      obtain ⟨fired, checked⟩ := step_checkIfDue done
      unfold SchedulesInRange at outOfRange
      push Not at outOfRange
      obtain ⟨-, item, popped, isPopped, call, member, beyond⟩ := outOfRange
      obtain ⟨-, ⟨-, isTaken⟩ | ⟨-, toOccur, taken, isTaken, invoking⟩⟩ :=
        checkIfDue_cases checked
      · rw [isTaken] at isPopped
        cases isPopped
      · rw [isTaken] at isPopped
        cases isPopped
        obtain ⟨called, performed, calls, total, elapsed, -, -, rfl⟩ := invoke_eq_ok invoking
        have kept := perform_keeps calls
        rw [← total] at beyond
        obtain ⟨element, isPending, due, early⟩ := perform_due member beyond calls
        intro onTime
        have waited := onTime.2 element isPending (by rw [kept.totalTicks]; exact due)
        have sameTime : performed.elapsed = called.elapsed := kept.elapsed
        dsimp only at waited
        omega
  | assign level status yieldOnReturn halted => exact absurd trivial outOfRange

theorem perform_ne_diverged (calls : List (DeviceCall Handler)) :
    s.perform calls ≠ .error .diverged := by
  induction calls generalizing s with
  | nil => exact nofun
  | cons call calls ih =>
      intro failed
      cases call with
      | schedule handler arg fromNow type =>
          rcases bind_eq_error_iff.mp failed with failed | ⟨middle, -, failed⟩
          · unfold schedule at failed
            dsimp only at failed
            split at failed <;> cases failed
          · exact ih failed
      | yieldOnReturn =>
          rcases bind_eq_error_iff.mp failed with failed | ⟨middle, -, failed⟩
          · unfold requestYield at failed
            split at failed <;> cases failed
          · exact ih failed

theorem checkIfDue_ne_diverged (advance : Bool) :
    s.checkIfDue handlers advance ≠ .error .diverged := by
  intro failed
  unfold checkIfDue at failed
  split at failed
  · split at failed
    · cases failed
    · rcases bind_eq_error_iff.mp failed with failed | ⟨middle, -, failed⟩
      · rcases bind_eq_error_iff.mp failed with failed | ⟨performed, -, failed⟩
        · exact perform_ne_diverged _ failed
        · cases failed
      · cases failed
  · cases failed

/-- The loop comes to an end when no due time wraps around in its rounds. -/
theorem checkAll_ne_diverged {rounds : Nat} (enough : s.numDue < rounds)
    (inRange : ∀ count, RunAllowed (step handlers) (SchedulesInRange handlers) s
      (List.replicate count (.checkIfDue false))) :
    checkAll handlers rounds s ≠ .error .diverged := by
  induction rounds generalizing s with
  | zero => omega
  | succ rounds ih =>
      intro failed
      rcases bind_eq_error_iff.mp failed with failed | ⟨⟨fired, middle⟩, checked, failed⟩
      · exact checkIfDue_ne_diverged false failed
      · have stepped : step handlers s (.checkIfDue false) = .ok middle := by
          change (s.checkIfDue handlers false).map Prod.snd = .ok middle
          rw [checked]
          rfl
        dsimp only at failed
        split at failed
        · next fires =>
          obtain ⟨off, ⟨notFired, -⟩ | ⟨-, toOccur, taken, isTaken, invoking⟩⟩ :=
            checkIfDue_cases checked
          · rw [fires] at notFired
            cases notFired
          · have now := (inRange 1 middle stepped).1
            have fewer := numDue_takeDue isTaken
            have same := (invoke_punctual (now off toOccur taken isTaken) invoking).2
            refine ih (by omega) (fun count => ?_) failed
            exact (inRange (count + 1) middle stepped).2
        · cases failed

end Steps

section Rearming

variable {handlers : DeviceHandlers Handler World} {s after : WrappingClock Handler World}
  {booking : Booking Handler} {fromNow : CInt} {key : Int}

/-- Whenever it is called, the handler schedules itself anew, and it may ask for a context
switch then. -/
def Rearms (handlers : DeviceHandlers Handler World) (booking : Booking Handler)
    (fromNow : CInt) : Prop :=
  ∀ totalTicks world, ∃ yields, (handlers booking.handler booking.arg totalTicks world).2 =
    .schedule booking.handler booking.arg fromNow booking.type ::
      List.replicate yields .yieldOnReturn

theorem perform_yields (inHandler : s.inHandler = true) (yields : Nat) :
    ∃ after, s.perform (List.replicate yields .yieldOnReturn) = .ok after ∧
      after.pending = s.pending := by
  induction yields generalizing s with
  | zero => exact ⟨s, rfl, rfl⟩
  | succ yields ih =>
      obtain ⟨after, performed, same⟩ := @ih { s with yieldOnReturn := true } inHandler
      refine ⟨after, ?_, same⟩
      rw [List.replicate_succ, perform, requestYield, if_pos inHandler, ok_bind]
      exact performed

/-- One round for a device that is alone and due: it fires and is pending again. -/
theorem checkIfDue_rearms (rearms : Rearms handlers booking fromNow)
    (positive : 0 < fromNow.toInt) (off : s.level = .off) (busy : s.status ≠ .idle)
    (pending : s.pending = ⟨[⟨booking, key⟩]⟩) (due : key ≤ s.totalTicks.toInt) :
    ∃ after, s.checkIfDue handlers false = .ok (true, after) ∧ after.level = .off ∧
      after.status ≠ .idle ∧ after.totalTicks = s.totalTicks ∧
      after.pending = ⟨[⟨⟨booking.handler, booking.arg, s.totalTicks + fromNow, booking.type,
        fromNow, s.elapsed⟩, (s.totalTicks + fromNow).toInt⟩]⟩ := by
  have isTaken : s.takeDue false = (some booking, { s with pending := ⟨[]⟩ }) := by
    have arrived : ¬ key > s.totalTicks.toInt := by omega
    simp [takeDue, LinkedList.sortedRemove, pending, arrived, unlessDone, busy]
  obtain ⟨yields, calls⟩ := rearms s.totalTicks s.world
  let called : WrappingClock Handler World := { s with
    pending := ⟨[]⟩
    inHandler := true
    status := .system
    world := (handlers booking.handler booking.arg s.totalTicks s.world).1
    fired := s.fired ++ [(booking, s.elapsed)] }
  let next : Booking Handler := ⟨booking.handler, booking.arg, s.totalTicks + fromNow,
    booking.type, fromNow, s.elapsed⟩
  let scheduled : WrappingClock Handler World := { called with
    pending := ⟨[⟨next, (s.totalTicks + fromNow).toInt⟩]⟩ }
  obtain ⟨performed, yielded, same⟩ := @perform_yields _ _ scheduled rfl yields
  have kept := perform_keeps yielded
  have first : called.schedule booking.handler booking.arg fromNow booking.type =
      .ok scheduled := if_pos positive
  refine ⟨{ performed with status := s.status, inHandler := false }, ?_, ?_, busy, ?_, ?_⟩
  · rw [checkIfDue, if_pos off, isTaken]
    change (invoke handlers { s with pending := ⟨[]⟩ } booking >>= fun s => pure (true, s)) = _
    rw [invoke]
    dsimp only
    rw [calls, perform]
    change ((called.schedule booking.handler booking.arg fromNow booking.type >>= fun s =>
      s.perform (List.replicate yields .yieldOnReturn)) >>= _) >>= _ = _
    rw [first, ok_bind, yielded]
    rfl
  · exact kept.level.trans off
  · exact kept.totalTicks
  · exact same

/-- It keeps the loop going for ever if and only if its due time wraps around. -/
theorem ends_iff_of_rearms (rearms : Rearms handlers booking fromNow)
    (positive : 0 < fromNow.toInt) (off : s.level = .off) (busy : s.status ≠ .idle)
    (pending : s.pending = ⟨[⟨booking, key⟩]⟩) (due : key ≤ s.totalTicks.toInt) :
    (∃ rounds, checkAll handlers rounds s ≠ .error .diverged) ↔
      s.totalTicks.toInt + fromNow.toInt < 2 ^ 31 := by
  constructor
  · rintro ⟨rounds, ends⟩
    by_contra beyond
    have wrapped : (s.totalTicks + fromNow).toInt ≤ s.totalTicks.toInt := by
      rw [toInt_add_of_overflow (by omega)]
      have upper := (fits_toInt fromNow).2
      omega
    apply ends
    clear ends
    induction rounds generalizing s booking key with
    | zero => rfl
    | succ rounds ih =>
        obtain ⟨after, checked, afterOff, afterBusy, total, again⟩ :=
          checkIfDue_rearms rearms positive off busy pending due
        rw [checkAll, checked, ok_bind]
        rw [← total] at beyond wrapped
        refine ih ?_ afterOff afterBusy again ?_ beyond wrapped
        · exact rearms
        · rw [total] at wrapped ⊢
          exact wrapped
  · intro inRange
    obtain ⟨after, checked, afterOff, -, total, again⟩ :=
      checkIfDue_rearms rearms positive off busy pending due
    refine ⟨2, ?_⟩
    have when := toInt_when positive inRange
    have later : (s.totalTicks + fromNow).toInt > s.totalTicks.toInt := by omega
    have early : ∃ back, after.takeDue false = (none, back) := by
      rw [takeDue, LinkedList.sortedRemove, again]
      dsimp only
      rw [if_neg (by simp), total, if_pos later]
      exact ⟨_, rfl⟩
    obtain ⟨back, early⟩ := early
    rw [checkAll, checked, ok_bind]
    dsimp only
    rw [if_pos rfl, checkAll, checkIfDue, if_pos afterOff, early]
    intro failed
    cases failed

end Rearming

/-- Along every run, the interrupts fire when their delay is over and none is due earlier, if
and only if no due time wraps around.  Then the loop in `OneTick` comes to an end as well,
and for a device that schedules itself anew it does so only then. -/
theorem onTime_iff_schedulesInRange (handlers : DeviceHandlers Handler World) :
    (∀ world actions, AlongRun (step handlers) OnTime (new world) actions ↔
        RunAllowed (step handlers) (SchedulesInRange handlers) (new world) actions) ∧
      (∀ s, (∀ count, RunAllowed (step handlers) (SchedulesInRange handlers) s
          (List.replicate count (.checkIfDue false))) →
        ∃ rounds, checkAll handlers rounds s ≠ .error .diverged) ∧
      ∀ (s : WrappingClock Handler World) booking key (fromNow : CInt),
        Rearms handlers booking fromNow → 0 < fromNow.toInt → s.level = .off →
        s.status ≠ .idle → s.pending = ⟨[⟨booking, key⟩]⟩ → key ≤ s.totalTicks.toInt →
          ((∃ rounds, checkAll handlers rounds s ≠ .error .diverged) ↔
            s.totalTicks.toInt + fromNow.toInt < 2 ^ 31) := by
  refine ⟨?_, ?_, ?_⟩
  · intro world actions
    apply @alongRun_iff_runAllowed _ _ _ (step handlers) Punctual OnTime _ _
      (fun s punctual => punctual.toOnTime) _ _ _ (punctual_new world)
    · intro s action next punctual inRange done
      exact punctual.step inRange done
    · intro s action next _ outOfRange done
      exact not_onTime outOfRange done
  · intro s inRange
    exact ⟨s.numDue + 1, checkAll_ne_diverged (Nat.lt_succ_self _) inRange⟩
  · intro s booking key fromNow rearms positive off busy pending due
    exact ends_iff_of_rearms rearms positive off busy pending due

/-- The console polls for input every 100 ticks.  Its poll at tick 2147483600 schedules the
next one for tick -2147483596, which fires at once, and `OneTick` does not return. -/
theorem not_onTime_near_wrap :
    let handlers : DeviceHandlers Unit Unit := fun _ _ _ _ =>
      ((), [.schedule () 0 100 .consoleRead])
    let poll : Booking Unit := ⟨(), 0, 2147483600, .consoleRead, 100, 2147483500⟩
    let s : WrappingClock Unit Unit := { new () with
      totalTicks := 2147483590
      elapsed := 2147483590
      pending := ⟨[⟨poll, 2147483600⟩]⟩ }
    (TransitionRuns.run (step handlers) s [.tick, .checkIfDue false, .checkIfDue false]).map
        (fun s => s.fired.map fun entry => (entry.1.when.toInt, entry.1.bookedAt, entry.2)) =
      .ok [(2147483600, 2147483500, 2147483600), (-2147483596, 2147483600, 2147483600)] ∧
      ∀ rounds, s.oneTick handlers rounds = .error .diverged := by
  intro handlers poll s
  refine ⟨by decide +kernel, ?_⟩
  intro rounds
  have rearms : Rearms handlers poll 100 := fun _ _ => ⟨0, rfl⟩
  have noEnd := (@ends_iff_of_rearms _ _ handlers { s.tick with level := .off } poll 100
    2147483600 rearms (by decide) rfl nofun rfl (by decide)).not.mpr (by decide)
  have loops : checkAll handlers rounds { s.tick with level := .off } = .error .diverged := by
    by_contra ends
    exact noEnd ⟨rounds, ends⟩
  rw [oneTick, loops]
  rfl

end WrappingClock

end Nachos
