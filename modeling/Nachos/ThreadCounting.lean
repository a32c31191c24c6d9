import Mathlib.Data.Fintype.Card
import Mathlib.Data.Finset.Card
import Mathlib.Algebra.BigOperators.Group.Finset.Piecewise
import Mathlib.Tactic.Common

/-!
# Counting threads

A concurrent program is described by the place where each of its finitely many
threads is.  Its invariants relate shared counters to the number of threads at
certain places.  This file counts threads and says how a count changes when one
thread moves.
-/

namespace ThreadCounting

variable {Thread Place Other : Type*} [Fintype Thread]

/-- The number of threads that are at a place of the given kind. -/
def count (kind : Place → Bool) (place : Thread → Place) : Nat :=
  (Finset.univ.filter fun thread => kind (place thread) = true).card

theorem count_congr {kind : Place → Bool} {otherKind : Other → Bool}
    {place : Thread → Place} {other : Thread → Other}
    (same : ∀ thread, kind (place thread) = otherKind (other thread)) :
    count kind place = count otherKind other := by
  simp only [count, same]

theorem count_pos_iff {kind : Place → Bool} {place : Thread → Place} :
    0 < count kind place ↔ ∃ thread, kind (place thread) = true := by
  simp [count, Finset.card_pos, Finset.Nonempty]

theorem count_eq_zero_iff {kind : Place → Bool} {place : Thread → Place} :
    count kind place = 0 ↔ ∀ thread, kind (place thread) = false := by
  simp [count, Finset.card_eq_zero, Finset.filter_eq_empty_iff]

theorem count_pos {kind : Place → Bool} {place : Thread → Place} (thread : Thread)
    (here : kind (place thread) = true) : 0 < count kind place :=
  count_pos_iff.mpr ⟨thread, here⟩

/-- Among places that only one thread can be at there is at most one thread. -/
theorem count_le_one {kind : Place → Bool} {place : Thread → Place}
    (unique : ∀ first second, kind (place first) = true → kind (place second) = true →
      first = second) : count kind place ≤ 1 := by
  rw [count, Finset.card_le_one]
  intro first firstHere second secondHere
  exact unique first second (by simpa using firstHere) (by simpa using secondHere)

/-- All threads are counted exactly when the count is their number. -/
theorem count_eq_card_iff {kind : Place → Bool} {place : Thread → Place} :
    count kind place = Fintype.card Thread ↔ ∀ thread, kind (place thread) = true := by
  rw [count, Finset.card_eq_iff_eq_univ]
  simp [Finset.ext_iff]

/-- A place of the given kind is of exactly one of two kinds. -/
theorem count_add {kind : Place → Bool} (first second : Place → Bool)
    {place : Thread → Place}
    (split : ∀ thread, (kind (place thread)).toNat =
      (first (place thread)).toNat + (second (place thread)).toNat) :
    count kind place = count first place + count second place := by
  have asSum : ∀ other : Place → Bool,
      count other place = ∑ thread, (other (place thread)).toNat := by
    intro other
    rw [count, Finset.card_filter]
    apply Finset.sum_congr rfl
    intro thread _
    cases other (place thread) <;> rfl
  rw [asSum, asSum, asSum, ← Finset.sum_add_distrib]
  exact Finset.sum_congr rfl fun thread _ => split thread

variable [DecidableEq Thread]

/-- How a count changes when one thread moves. -/
theorem count_update (kind : Place → Bool) (place : Thread → Place) (thread : Thread)
    (target : Place) :
    count kind (Function.update place thread target) + (kind (place thread)).toNat =
      count kind place + (kind target).toNat := by
  have split : ∀ moved : Thread → Place,
      (∀ other, other ≠ thread → moved other = place other) →
      count kind moved =
        (Finset.univ.filter fun other => other ≠ thread ∧ kind (place other) = true).card +
          (kind (moved thread)).toNat := by
    intro moved elsewhere
    have cover : (Finset.univ.filter fun other => kind (moved other) = true) =
        (Finset.univ.filter fun other => other ≠ thread ∧ kind (place other) = true) ∪
          (Finset.univ.filter fun other => other = thread ∧ kind (moved other) = true) := by
      ext other
      by_cases same : other = thread
      · simp [same]
      · simp [same, elsewhere other same]
    have apart : Disjoint
        (Finset.univ.filter fun other => other ≠ thread ∧ kind (place other) = true)
        (Finset.univ.filter fun other => other = thread ∧ kind (moved other) = true) := by
      rw [Finset.disjoint_filter]
      rintro other - ⟨different, -⟩ ⟨same, -⟩
      exact different same
    rw [count, cover, Finset.card_union_of_disjoint apart]
    congr 1
    cases here : kind (moved thread) with
    | true =>
        rw [Bool.toNat_true, Finset.card_eq_one]
        refine ⟨thread, ?_⟩
        ext other
        by_cases same : other = thread
        · simp [same, here]
        · simp [same]
    | false =>
        rw [Bool.toNat_false, Finset.card_eq_zero, Finset.filter_eq_empty_iff]
        rintro other - ⟨rfl, counted⟩
        rw [here] at counted
        cases counted
  rw [split (Function.update place thread target) (fun other different => by simp [different]),
    split place fun _ _ => rfl, Function.update_self]
  omega

/-- A move between places of the same kind is not noticed. -/
theorem count_update_same {kind : Place → Bool} {place : Thread → Place} {thread : Thread}
    {target : Place} (same : kind target = kind (place thread)) :
    count kind (Function.update place thread target) = count kind place := by
  have moved := count_update kind place thread target
  rw [same] at moved
  omega

section Census

variable [DecidableEq Place]

/-- How many threads are at each place. -/
def census (place : Thread → Place) (here : Place) : Nat :=
  count (fun other => decide (other = here)) place

/-- The census after one thread has moved. -/
def moved (numbers : Place → Nat) (source target here : Place) : Nat :=
  numbers here + (if here = target then 1 else 0) - if here = source then 1 else 0

omit [DecidableEq Thread] in
theorem census_pos {place : Thread → Place} {here : Place} (thread : Thread)
    (isHere : place thread = here) : 0 < census place here :=
  count_pos thread (by simpa using isHere)

omit [DecidableEq Thread] in
theorem census_pos_iff {place : Thread → Place} {here : Place} :
    0 < census place here ↔ ∃ thread, place thread = here := by
  simp [census, count_pos_iff]

omit [DecidableEq Thread] in
theorem census_eq_zero_iff {place : Thread → Place} {here : Place} :
    census place here = 0 ↔ ∀ thread, place thread ≠ here := by
  simp [census, count_eq_zero_iff]

omit [DecidableEq Thread] in
theorem eq_of_census_le_one {place : Thread → Place} {here : Place} (few : census place here ≤ 1)
    {first second : Thread} (firstHere : place first = here) (secondHere : place second = here) :
    first = second :=
  Finset.card_le_one.mp few first (by simpa using firstHere) second (by simpa using secondHere)

omit [DecidableEq Thread] in
/-- The census of threads that are all at the same place. -/
theorem census_const (start here : Place) :
    census (fun _ : Thread => start) here = if here = start then Fintype.card Thread else 0 := by
  split
  · next same =>
    rw [census, count_eq_card_iff]
    simp [same]
  · next different =>
    rw [census_eq_zero_iff]
    exact fun _ => Ne.symm different

theorem census_update (place : Thread → Place) (thread : Thread) (target : Place) :
    census (Function.update place thread target) =
      moved (census place) (place thread) target := by
  ext here
  have changed := count_update (fun other => decide (other = here)) place thread target
  simp only [census, moved]
  by_cases left : place thread = here
  · by_cases reached : target = here
    · simp [left, reached] at changed ⊢
      omega
    · simp [left, reached, Ne.symm reached] at changed ⊢
      omega
  · by_cases reached : target = here
    · simp [left, reached, Ne.symm left] at changed ⊢
      omega
    · simp [left, reached, Ne.symm left, Ne.symm reached] at changed ⊢
      omega

end Census

end ThreadCounting
