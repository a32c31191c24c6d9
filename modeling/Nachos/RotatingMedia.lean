import Mathlib.Data.Int.ModEq
import Mathlib.Order.Bounds.Basic

/-!
# Rotating media

The sectors of a track pass under the head one after the other, each for one period.
Time is divided into slots accordingly: slot `k` lasts from `k * period` to
`(k + 1) * period`, and the sector that passes in it is congruent to `k`.  This file finds
the first slot in which a sector passes entirely, and tells from the movements of the arm
over which track the head is.
-/

namespace RotatingMedia

section Rotation

/-- The time from some moment to the next boundary between two slots. -/
def untilBoundary (period time : Int) : Int :=
  if 0 < time % period then period - time % period else 0

/-- The number of slots from one sector to another. -/
def distance (sectors target current : Int) : Int :=
  (target % sectors - current % sectors + sectors) % sectors

/-- The first slot that begins at or after some time. -/
def nextSlot (period time : Int) : Int :=
  (time + untilBoundary period time) / period

/-- The first slot after some time in which a sector passes. -/
def firstPass (period sectors time sector : Int) : Int :=
  nextSlot period time + distance sectors sector (nextSlot period time)

variable {period sectors : Int}

theorem untilBoundary_nonneg (positive : 0 < period) (time : Int) :
    0 ≤ untilBoundary period time := by
  have := Int.emod_lt_of_pos time positive
  unfold untilBoundary
  split <;> omega

theorem untilBoundary_lt (positive : 0 < period) (time : Int) :
    untilBoundary period time < period := by
  unfold untilBoundary
  split <;> omega

theorem add_untilBoundary (positive : 0 < period) (time : Int) :
    time + untilBoundary period time = nextSlot period time * period := by
  have division := Int.emod_add_mul_ediv time period
  have nonneg := Int.emod_nonneg time positive.ne'
  refine (Int.ediv_mul_cancel ?_).symm
  unfold untilBoundary
  split
  · refine ⟨time / period + 1, ?_⟩
    rw [mul_add, mul_one]
    omega
  · exact ⟨time / period, by omega⟩

theorem nextSlot_nonneg (positive : 0 < period) {time : Int} (nonneg : 0 ≤ time) :
    0 ≤ nextSlot period time :=
  Int.ediv_nonneg (Int.add_nonneg nonneg (untilBoundary_nonneg positive time)) positive.le

/-- The slots that begin at or after some time are those from the first one on. -/
theorem nextSlot_le_iff (positive : 0 < period) {time slot : Int} :
    nextSlot period time ≤ slot ↔ time ≤ slot * period := by
  have boundary := add_untilBoundary positive time
  have nonneg := untilBoundary_nonneg positive time
  have below := untilBoundary_lt positive time
  constructor
  · intro le
    have := Int.mul_le_mul_of_nonneg_right le positive.le
    omega
  · intro le
    by_contra before
    have next : slot + 1 ≤ nextSlot period time := by omega
    have := Int.mul_le_mul_of_nonneg_right next positive.le
    rw [add_mul, one_mul] at this
    omega

theorem distance_nonneg (positive : 0 < sectors) (target current : Int) :
    0 ≤ distance sectors target current :=
  Int.emod_nonneg _ positive.ne'

theorem distance_lt (positive : 0 < sectors) (target current : Int) :
    distance sectors target current < sectors :=
  Int.emod_lt_of_pos _ positive

theorem distance_modEq (target current : Int) :
    current + distance sectors target current ≡ target [ZMOD sectors] := by
  have rotated : distance sectors target current ≡ target - current [ZMOD sectors] := by
    calc distance sectors target current
        ≡ target % sectors - current % sectors + sectors [ZMOD sectors] := Int.mod_modEq _ _
      _ ≡ target % sectors - current % sectors [ZMOD sectors] := Int.add_modEq_right
      _ ≡ target - current [ZMOD sectors] := (Int.mod_modEq _ _).sub (Int.mod_modEq _ _)
  calc current + distance sectors target current
      ≡ current + (target - current) [ZMOD sectors] := rotated.add_left current
    _ = target := by omega

/-- No slot in between belongs to the same sector. -/
theorem add_distance_le (positive : 0 < sectors) {target current slot : Int}
    (later : current ≤ slot) (same : slot ≡ target [ZMOD sectors]) :
    current + distance sectors target current ≤ slot := by
  obtain ⟨turns, apart⟩ := ((distance_modEq target current).trans same.symm).dvd
  have below := distance_lt positive target current
  have nonneg : 0 ≤ turns := by
    by_contra negative
    have back : sectors * turns ≤ sectors * -1 :=
      Int.mul_le_mul_of_nonneg_left (by omega) positive.le
    omega
  have := Int.mul_nonneg positive.le nonneg
  omega

/-- The slots in which a sector passes entirely after some time have a first one. -/
theorem isLeast_firstPass (rotates : 0 < period) (positive : 0 < sectors) (time sector : Int) :
    IsLeast {slot | slot ≡ sector [ZMOD sectors] ∧ time ≤ slot * period}
      (firstPass period sectors time sector) := by
  constructor
  · refine ⟨distance_modEq _ _, (nextSlot_le_iff rotates).mp ?_⟩
    have := distance_nonneg positive sector (nextSlot period time)
    unfold firstPass
    omega
  · rintro slot ⟨same, later⟩
    exact add_distance_le positive ((nextSlot_le_iff rotates).mpr later) same

/-- A sector passes entirely between two slots when its distance is small enough. -/
theorem passes_between_iff (positive : 0 < sectors) {sector first last : Int} :
    (∃ slot, slot ≡ sector [ZMOD sectors] ∧ first ≤ slot ∧ slot + 1 ≤ last) ↔
      distance sectors sector first < last - first := by
  constructor
  · rintro ⟨slot, same, later, before⟩
    have := add_distance_le positive later same
    omega
  · intro near
    have := distance_nonneg positive sector first
    exact ⟨_, distance_modEq sector first, by omega, by omega⟩

end Rotation

section Arm

variable {Track : Type*}

/-- One movement of the arm. -/
structure Movement (Track : Type*) where
  start : Int
  arrival : Int
  track : Track

/-- The track that is under the head at some time, unless the arm is moving.  The latest
movement comes first. -/
def trackAt (initial : Track) : List (Movement Track) → Int → Option Track
  | [], _ => some initial
  | last :: earlier, time =>
      if last.arrival ≤ time then some last.track
      else if last.start < time then none
      else trackAt initial earlier time

/-- The head stays over one track from some time on. -/
def Settled (initial : Track) (movements : List (Movement Track)) (since : Int)
    (track : Track) : Prop :=
  ∀ time, since ≤ time → trackAt initial movements time = some track

variable {initial track : Track} {movements : List (Movement Track)} {since : Int}

theorem settled_nil (initial : Track) (since : Int) : Settled initial [] since initial :=
  fun _ _ => rfl

/-- After a movement the head is over another track. -/
theorem settled_cons {last : Movement Track} (arrived : last.arrival ≤ since) :
    Settled initial (last :: movements) since last.track := by
  intro time later
  exact if_pos (arrived.trans later)

/-- A movement to the same track takes no time. -/
theorem Settled.stay (settled : Settled initial movements since track) (time : Int) :
    Settled initial (⟨time, time, track⟩ :: movements) since track := by
  intro other later
  unfold trackAt
  by_cases arrived : time ≤ other
  · exact if_pos arrived
  · rw [if_neg arrived, if_neg (by dsimp only; omega)]
    exact settled other later

end Arm

end RotatingMedia
