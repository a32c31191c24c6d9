import Mathlib.Data.Multiset.Filter
import Mathlib.Logic.Relation
import Mathlib.Order.Defs.LinearOrder
import Mathlib.Tactic.Common

/-!
# Timed events

Events are posted for a time that is still to come, the clock moves on, and an event
happens when its time has come and no other one was due earlier.  That is enough for the
events to happen in the order of their times, each of them once, and never too early.
The number of overdue events bounds the events that can happen before the clock moves
again, whatever is posted meanwhile.
-/

namespace TimedEvents

open Relation

/-- The clock, all events that were posted, those that are still to come, and those that
have happened, each with the time when it did. -/
structure Timeline (Event Time : Type*) where
  now : Time
  posted : Multiset Event
  pending : Multiset Event
  happened : List (Event × Time)

variable {Event Time : Type*} [LinearOrder Time] (due : Event → Time)

/-- What can happen on a timeline. -/
inductive Step : Timeline Event Time → Timeline Event Time → Prop
  | post {t event} (ahead : t.now < due event) :
      Step t { t with posted := event ::ₘ t.posted, pending := event ::ₘ t.pending }
  | advance {t later} (forward : t.now ≤ later) : Step t { t with now := later }
  | happen {t event rest} (first : t.pending = event ::ₘ rest) (arrived : due event ≤ t.now)
      (earliest : ∀ other ∈ rest, due event ≤ due other) :
      Step t { t with pending := rest, happened := t.happened ++ [(event, t.now)] }

/-- Nothing happens twice, too early, or out of order. -/
structure Timely (t : Timeline Event Time) : Prop where
  accounted : t.pending + (t.happened.map Prod.fst : Multiset Event) = t.posted
  onTime : ∀ entry ∈ t.happened, due entry.1 ≤ entry.2
  past : ∀ entry ∈ t.happened, entry.2 ≤ t.now
  ordered : t.happened.Pairwise fun earlier later => due earlier.1 ≤ due later.1
  behind : ∀ entry ∈ t.happened, ∀ event ∈ t.pending, due entry.1 ≤ due event

/-- The events whose time has come. -/
def overdue (t : Timeline Event Time) : Nat :=
  t.pending.countP fun event => due event ≤ t.now

variable {due} {t t' : Timeline Event Time}

theorem timely_start (now : Time) : Timely due (⟨now, 0, 0, []⟩ : Timeline Event Time) where
  accounted := rfl
  onTime := nofun
  past := nofun
  ordered := List.Pairwise.nil
  behind := nofun

theorem Step.now_le (step : Step due t t') : t.now ≤ t'.now := by
  cases step with
  | post ahead => exact le_refl _
  | advance forward => exact forward
  | happen first arrived earliest => exact le_refl _

theorem Step.timely (step : Step due t t') (timely : Timely due t) : Timely due t' := by
  cases step with
  | @post event ahead =>
      refine { timely with accounted := ?_, behind := ?_ }
      · change event ::ₘ t.pending + _ = event ::ₘ t.posted
        rw [Multiset.cons_add, timely.accounted]
      · intro entry happened other isPending
        rcases Multiset.mem_cons.mp isPending with rfl | old
        · exact ((timely.onTime entry happened).trans (timely.past entry happened)).trans
            (le_of_lt ahead)
        · exact timely.behind entry happened other old
  | advance forward =>
      exact { timely with past := fun entry happened => (timely.past entry happened).trans forward }
  | @happen event rest first arrived earliest =>
      have inPending : event ∈ t.pending := by
        rw [first]
        exact Multiset.mem_cons_self event rest
      constructor
      · have accounted := timely.accounted
        rw [first] at accounted
        rw [← accounted, List.map_append, ← Multiset.coe_add, Multiset.cons_add]
        change rest + (_ + {event}) = _
        rw [Multiset.add_comm _ {event}, Multiset.singleton_add, Multiset.add_cons]
      · intro entry happened
        rcases List.mem_append.mp happened with old | new
        · exact timely.onTime entry old
        · rw [List.mem_singleton.mp new]
          exact arrived
      · intro entry happened
        rcases List.mem_append.mp happened with old | new
        · exact timely.past entry old
        · rw [List.mem_singleton.mp new]
      · apply List.pairwise_append.mpr
        refine ⟨timely.ordered, List.pairwise_singleton _ _, ?_⟩
        intro entry happened last isLast
        rw [List.mem_singleton.mp isLast]
        exact timely.behind entry happened event inPending
      · intro entry happened other isPending
        rcases List.mem_append.mp happened with old | new
        · apply timely.behind entry old other
          rw [first]
          exact Multiset.mem_cons_of_mem isPending
        · rw [List.mem_singleton.mp new]
          exact earliest other isPending

/-- The run rule. -/
theorem timely_of_steps (steps : ReflTransGen (Step due) t t') (timely : Timely due t) :
    Timely due t' := by
  induction steps with
  | refl => exact timely
  | tail _ step ih => exact step.timely ih

theorem now_le_of_steps (steps : ReflTransGen (Step due) t t') : t.now ≤ t'.now := by
  induction steps with
  | refl => exact le_refl _
  | tail _ step ih => exact ih.trans step.now_le

/-- New events are not overdue. -/
theorem overdue_post {event : Event} (ahead : t.now < due event) :
    overdue due { t with posted := event ::ₘ t.posted, pending := event ::ₘ t.pending } =
      overdue due t :=
  Multiset.countP_cons_of_neg _ (not_le_of_gt ahead)

theorem overdue_happen {event : Event} {rest : Multiset Event}
    (first : t.pending = event ::ₘ rest) (arrived : due event ≤ t.now) :
    overdue due { t with pending := rest, happened := t.happened ++ [(event, t.now)] } + 1 =
      overdue due t := by
  unfold overdue
  rw [first]
  exact (Multiset.countP_cons_of_pos (p := fun event => due event ≤ t.now) rest arrived).symm

theorem overdue_le_card : overdue due t ≤ t.pending.card :=
  Multiset.countP_le_card _ _

end TimedEvents
