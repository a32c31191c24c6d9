import Nachos.ClockRange
import Nachos.PendingOrder

/-!
# The two models of the clock

The model that stops when a sum leaves the range of an `int` is the one with words as long
as it does not stop: each of its actions is one of the wrapping clock, and their clocks and
pending lists stay the same.
-/

namespace Nachos

open TransitionRuns CInt

section Erasure

variable {Handler World : Type}

/-- A pending interrupt without the record of when it was scheduled. -/
def Booking.interrupt (booking : Booking Handler) : PendingInterrupt Handler :=
  ⟨booking.handler, booking.arg, booking.when.toInt, booking.type⟩

def DeviceCall.call : DeviceCall Handler → HandlerCall Handler
  | .schedule handler arg fromNow type => .schedule handler arg fromNow.toInt type
  | .yieldOnReturn => .yieldOnReturn

def WrappingClock.Action.clockAction : Action Handler → Interrupt.ClockAction Handler
  | .schedule handler arg fromNow type => .schedule handler arg fromNow.toInt type
  | .tick => .tick
  | .checkIfDue advance => .checkIfDue advance
  | .assign level status yieldOnReturn halted => .assign level status yieldOnReturn halted

/-- The handlers do the same, whichever way the clock is read. -/
def SameHandlers (handlers : DeviceHandlers Handler World) (checked : Handlers Handler World) :
    Prop :=
  ∀ handler arg (totalTicks : CInt) world, checked handler arg totalTicks.toInt world =
    ((handlers handler arg totalTicks world).1,
      (handlers handler arg totalTicks world).2.map DeviceCall.call)

def erase (list : LinkedList (Booking Handler)) : LinkedList (PendingInterrupt Handler) :=
  ⟨list.elements.map fun element => ⟨element.item.interrupt, element.key⟩⟩

theorem erase_sortedInsert (list : LinkedList (Booking Handler)) (booking : Booking Handler)
    (key : Int) : erase (list.sortedInsert booking key) =
      (erase list).sortedInsert booking.interrupt key := by
  obtain ⟨elements⟩ := list
  unfold erase LinkedList.sortedInsert
  congr 1
  dsimp only
  induction elements with
  | nil => rfl
  | cons first rest ih =>
      rw [List.map_cons]
      unfold LinkedList.insertElement
      dsimp only
      split
      · rfl
      · rw [List.map_cons, ih]

theorem isEmpty_erase (list : LinkedList (Booking Handler)) :
    (erase list).isEmpty = list.isEmpty := by
  obtain ⟨elements⟩ := list
  cases elements <;> rfl

end Erasure

namespace WrappingClock

variable {Handler World : Type} {handlers : DeviceHandlers Handler World}
  {checked : Handlers Handler World} {s : WrappingClock Handler World}
  {t after : Interrupt Handler World}

/-- The two models have the same clock, the same pending list and the same other members. -/
structure Agrees (s : WrappingClock Handler World) (t : Interrupt Handler World) : Prop where
  totalTicks : t.stats.totalTicks = s.totalTicks.toInt
  pending : t.pending = erase s.pending
  keys : ∀ element ∈ s.pending.elements, Fits element.key
  level : t.level = s.level
  inHandler : t.inHandler = s.inHandler
  yieldOnReturn : t.yieldOnReturn = s.yieldOnReturn
  status : t.status = s.status
  world : t.world = s.world
  halted : t.halted = s.halted

theorem agrees_new (world : World) :
    Agrees (new world : WrappingClock Handler World) (Interrupt.new world) :=
  ⟨rfl, rfl, nofun, rfl, rfl, rfl, rfl, rfl, rfl⟩

theorem Agrees.insert (agrees : Agrees s t) (booking : Booking Handler) {key : Int}
    (fits : Fits key) :
    ∀ element ∈ (s.pending.sortedInsert booking key).elements, Fits element.key := by
  intro element member
  rcases LinkedList.mem_insertElement.mp member with rfl | old
  · exact fits
  · exact agrees.keys element old

theorem Agrees.schedule (agrees : Agrees s t) {handler : Handler} {arg fromNow : CInt}
    {type : IntType} (done : t.schedule handler arg fromNow.toInt type = .ok after) :
    ∃ next, s.schedule handler arg fromNow type = .ok next ∧ Agrees next after := by
  unfold Interrupt.schedule at done
  rw [agrees.totalTicks] at done
  dsimp only at done
  split at done
  · cases done
  next inRange =>
  split at done
  · next positive =>
    cases done
    have when := toInt_when positive (Int.not_le.mp inRange)
    refine ⟨_, if_pos positive, ?_⟩
    refine { agrees with pending := ?_, keys := agrees.insert _ (fits_toInt _) }
    dsimp only
    rw [erase_sortedInsert, agrees.pending, Booking.interrupt]
    dsimp only
    rw [when]
  · cases done

theorem Agrees.perform {calls : List (DeviceCall Handler)} (agrees : Agrees s t)
    (done : t.perform (calls.map DeviceCall.call) = .ok after) :
    ∃ next, s.perform calls = .ok next ∧ Agrees next after := by
  induction calls generalizing s t with
  | nil =>
      cases done
      exact ⟨s, rfl, agrees⟩
  | cons call calls ih =>
      cases call with
      | schedule handler arg fromNow type =>
          obtain ⟨middle, first, rest⟩ := bind_eq_ok_iff.mp done
          obtain ⟨scheduled, same, agreesMiddle⟩ := agrees.schedule first
          obtain ⟨next, performed, agreesAfter⟩ := ih agreesMiddle rest
          refine ⟨next, ?_, agreesAfter⟩
          rw [WrappingClock.perform, same]
          exact performed
      | yieldOnReturn =>
          obtain ⟨middle, first, rest⟩ := bind_eq_ok_iff.mp done
          unfold Interrupt.requestYield at first
          split at first
          · next inHandler =>
            cases first
            have agreesYield : Agrees { s with yieldOnReturn := true }
                { t with yieldOnReturn := true } := { agrees with yieldOnReturn := rfl }
            obtain ⟨next, performed, agreesAfter⟩ := ih agreesYield rest
            refine ⟨next, ?_, agreesAfter⟩
            rw [agrees.inHandler] at inHandler
            rw [WrappingClock.perform, requestYield, if_pos inHandler]
            exact performed
          · cases first

theorem Agrees.invoke (same : SameHandlers handlers checked) (agrees : Agrees s t)
    {toOccur : Booking Handler}
    (done : t.invoke checked toOccur.interrupt = .ok after) :
    ∃ next, s.invoke handlers toOccur = .ok next ∧ Agrees next after := by
  obtain ⟨performed, calls, finished⟩ := bind_eq_ok_iff.mp done
  cases finished
  have handled := same toOccur.handler toOccur.arg s.totalTicks s.world
  rw [agrees.totalTicks, agrees.world] at calls
  change Interrupt.perform { t with
    inHandler := true
    status := .system
    world := (checked toOccur.handler toOccur.arg s.totalTicks.toInt s.world).1
    fired := t.fired ++ [(toOccur.interrupt, s.totalTicks.toInt)] }
    (checked toOccur.handler toOccur.arg s.totalTicks.toInt s.world).2 = .ok performed at calls
  rw [handled] at calls
  have begun : Agrees
      { s with
        inHandler := true
        status := .system
        world := (handlers toOccur.handler toOccur.arg s.totalTicks s.world).1
        fired := s.fired ++ [(toOccur, s.elapsed)] }
      { t with
        inHandler := true
        status := .system
        world := (handlers toOccur.handler toOccur.arg s.totalTicks s.world).1
        fired := t.fired ++ [(toOccur.interrupt, s.totalTicks.toInt)] } :=
    ⟨agrees.totalTicks, agrees.pending, agrees.keys, agrees.level, rfl, agrees.yieldOnReturn,
      rfl, rfl, agrees.halted⟩
  obtain ⟨next, performs, agreesAfter⟩ := begun.perform calls
  refine ⟨{ next with status := s.status, inHandler := false }, ?_, ?_⟩
  · rw [WrappingClock.invoke]
    rw [performs]
    rfl
  · exact { agreesAfter with status := agrees.status, inHandler := rfl }

theorem Agrees.fireUnlessDone (same : SameHandlers handlers checked) (agrees : Agrees s t)
    {toOccur : Booking Handler} {key : Int} (fits : Fits key) {fired : Bool}
    (done : t.fireUnlessDone checked toOccur.interrupt key = .ok (fired, after)) :
    (fired = false ∧ ∃ next, s.unlessDone toOccur key = (none, next) ∧ Agrees next after) ∨
      fired = true ∧ s.unlessDone toOccur key = (some toOccur, s) ∧
        ∃ next, s.invoke handlers toOccur = .ok next ∧ Agrees next after := by
  unfold Interrupt.fireUnlessDone at done
  rw [agrees.status, agrees.pending, isEmpty_erase] at done
  unfold unlessDone
  split at done
  · next quiet =>
    cases done
    refine Or.inl ⟨rfl, _, if_pos quiet, ?_⟩
    refine { agrees with pending := ?_, keys := agrees.insert _ fits, status := rfl }
    exact (erase_sortedInsert _ _ _).symm
  · next active =>
    obtain ⟨invoked, invoking, finished⟩ := bind_eq_ok_iff.mp done
    cases finished
    exact Or.inr ⟨rfl, if_neg active, agrees.invoke same invoking⟩

theorem Agrees.checkIfDue (same : SameHandlers handlers checked) (agrees : Agrees s t)
    {advance fired : Bool} (done : t.checkIfDue checked advance = .ok (fired, after)) :
    ∃ next, s.checkIfDue handlers advance = .ok (fired, next) ∧ Agrees next after := by
  have off : s.level = .off := by
    unfold Interrupt.checkIfDue at done
    split at done
    · next off => rw [← agrees.level, off]
    · cases done
  -- it is enough to follow what happens up to the call of the handler
  suffices taken : (fired = false ∧ ∃ next, s.takeDue advance = (none, next) ∧
      Agrees next after) ∨ fired = true ∧ ∃ toOccur middle next,
        s.takeDue advance = (some toOccur, middle) ∧
        middle.invoke handlers toOccur = .ok next ∧ Agrees next after by
    rw [WrappingClock.checkIfDue, if_pos off]
    rcases taken with ⟨rfl, next, isTaken, agreesAfter⟩ |
      ⟨rfl, toOccur, middle, next, isTaken, invoking, agreesAfter⟩
    · rw [isTaken]
      exact ⟨next, rfl, agreesAfter⟩
    · rw [isTaken]
      dsimp only
      rw [invoking]
      exact ⟨next, rfl, agreesAfter⟩
  unfold takeDue LinkedList.sortedRemove
  cases elements : s.pending.elements with
  | nil =>
      have empty : t.pending = ⟨[]⟩ := by rw [agrees.pending, erase, elements]; rfl
      rcases Interrupt.checkIfDue_cases done with ⟨-, rfl, rfl⟩ | ⟨first, rest, pending, -⟩
      · exact Or.inl ⟨rfl, s, rfl, agrees⟩
      · rw [empty] at pending
        cases pending
  | cons first rest =>
      have fits : Fits first.key := agrees.keys first (by rw [elements]; exact List.mem_cons_self)
      have filled : t.pending = ⟨⟨first.item.interrupt, first.key⟩ :: (erase ⟨rest⟩).elements⟩ := by
        rw [agrees.pending, erase, elements]
        rfl
      have removed : Agrees { s with pending := ⟨rest⟩ } { t with pending := erase ⟨rest⟩ } := by
        refine { agrees with pending := rfl, keys := ?_ }
        intro element member
        apply agrees.keys
        rw [elements]
        exact List.mem_cons_of_mem _ member
      rcases Interrupt.checkIfDue_cases done with ⟨empty, -⟩ | ⟨head, tail, pending, found⟩
      · rw [filled] at empty
        cases empty
      rw [filled] at pending
      cases pending
      rw [agrees.totalTicks] at found
      dsimp only
      rcases found with ⟨rfl, later, fires⟩ | ⟨rfl, early, rfl, rfl⟩ | ⟨arrived, fires⟩
      · have advanced : Agrees ({ s with pending := ⟨rest⟩ }.advanceClock first.key)
            ({ t with pending := erase ⟨rest⟩ }.advanceClock first.key) :=
          { removed with totalTicks := (toInt_ofInt_of_fits fits).symm }
        rw [if_pos ⟨rfl, later⟩]
        rcases advanced.fireUnlessDone same fits fires with found | ⟨rfl, isTaken, next, found⟩
        · exact Or.inl found
        · exact Or.inr ⟨rfl, _, _, next, isTaken, found⟩
      · rw [if_neg (fun both => Bool.false_ne_true both.1), if_pos early]
        refine Or.inl ⟨rfl, _, rfl, ?_⟩
        refine { agrees with pending := ?_, keys := removed.insert _ fits }
        exact (erase_sortedInsert _ _ _).symm
      · have notLater : ¬ first.key > s.totalTicks.toInt := Int.not_lt.mpr arrived
        rw [if_neg (fun both => notLater both.2), if_neg notLater]
        rcases removed.fireUnlessDone same fits fires with found | ⟨rfl, isTaken, next, found⟩
        · exact Or.inl found
        · exact Or.inr ⟨rfl, _, _, next, isTaken, found⟩

/-- While the clock is in range, `tick` adds the same. -/
theorem Agrees.tick (agrees : Agrees s t) (inRange : t.tick.stats.totalTicks < 2 ^ 31) :
    Agrees s.tick t.tick := by
  have lower := (fits_toInt s.totalTicks).1
  have total := agrees.totalTicks
  have added : ∀ {ticks : Int}, 0 ≤ ticks → ticks < 2 ^ 31 →
      t.stats.totalTicks + ticks < 2 ^ 31 →
        t.stats.totalTicks + ticks = (s.totalTicks + BitVec.ofInt 32 ticks).toInt := by
    intro ticks nonneg bound small
    rw [total] at small ⊢
    have value : (BitVec.ofInt 32 ticks).toInt = ticks := toInt_ofInt_of_fits ⟨by omega, bound⟩
    rw [toInt_add_of_fits (by rw [value]; exact ⟨by omega, small⟩), value]
  unfold Interrupt.tick at inRange ⊢
  unfold WrappingClock.tick
  rw [agrees.status] at inRange ⊢
  split
  · next isSystem =>
    rw [if_pos isSystem] at inRange
    exact { agrees with totalTicks := added (by decide) (by decide) inRange, status := rfl }
  · next other =>
    rw [if_neg other] at inRange
    exact { agrees with totalTicks := added (by decide) (by decide) inRange, status := rfl }

/-- Each action that the one model completes is one of the wrapping clock. -/
theorem Agrees.step (same : SameHandlers handlers checked) (agrees : Agrees s t)
    {action : Action Handler}
    (done : t.clockStep checked action.clockAction = .ok after) :
    ∃ next, WrappingClock.step handlers s action = .ok next ∧ Agrees next after := by
  cases action with
  | schedule handler arg fromNow type => exact agrees.schedule done
  | tick =>
      change (if 2 ^ 31 ≤ t.tick.stats.totalTicks then Except.error Abort.overflow
        else Except.ok t.tick) = .ok after at done
      split at done
      · cases done
      · next inRange =>
        cases done
        exact ⟨s.tick, rfl, agrees.tick (Int.not_le.mp inRange)⟩
  | checkIfDue advance =>
      change (t.checkIfDue checked advance).map Prod.snd = .ok after at done
      cases peeked : t.checkIfDue checked advance with
      | error abort =>
          rw [peeked] at done
          cases done
      | ok result =>
          rw [peeked] at done
          cases done
          obtain ⟨next, checks, agreesAfter⟩ := agrees.checkIfDue same peeked
          refine ⟨next, ?_, agreesAfter⟩
          change (s.checkIfDue handlers advance).map Prod.snd = .ok next
          rw [checks]
          rfl
  | assign level status yieldOnReturn halted =>
      cases done
      exact ⟨_, rfl, agrees.totalTicks, agrees.pending, agrees.keys, rfl, agrees.inHandler, rfl,
        rfl, agrees.world, rfl⟩

/-- A run in which no sum leaves the range of an `int` is one of the wrapping clock. -/
theorem Agrees.run (same : SameHandlers handlers checked) {actions : List (Action Handler)}
    (agrees : Agrees s t)
    (reached : TransitionRuns.run (Interrupt.clockStep checked) t
      (actions.map Action.clockAction) = .ok after) :
    ∃ last, TransitionRuns.run (WrappingClock.step handlers) s actions = .ok last ∧
      Agrees last after := by
  induction actions generalizing s t with
  | nil =>
      cases reached
      exact ⟨s, rfl, agrees⟩
  | cons action actions ih =>
      obtain ⟨middle, stepped, rest⟩ := run_cons_eq_ok_iff.mp reached
      obtain ⟨next, steps, agreesNext⟩ := agrees.step same stepped
      obtain ⟨last, runs, agreesLast⟩ := ih agreesNext rest
      exact ⟨last, (run_cons_of_ok steps actions).trans runs, agreesLast⟩

end WrappingClock

end Nachos
