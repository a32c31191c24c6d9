import Mathlib.Data.List.Nodup
import Mathlib.Logic.Function.Basic
import Mathlib.Tactic.Common

/-!
# Exclusive ownership of resources

Several owners hold lists of resources, and a map of marks says which resources
are taken.  The ledger is in order when no resource is held twice and the marks
are exactly the resources held.  Allocation of unmarked resources and release of
everything an owner holds keep it in order.
-/

namespace ExclusiveOwnership

variable {Owner Resource : Type*} {held : Owner → List Resource}

/-- No resource is held twice, by one owner or by two. -/
structure Exclusive (held : Owner → List Resource) : Prop where
  nodup : ∀ owner, (held owner).Nodup
  unique : ∀ {first second : Owner} {resource : Resource},
    resource ∈ held first → resource ∈ held second → first = second

/-- The marks are exactly the resources held, each by one owner. -/
structure Ledger (held : Owner → List Resource) (marked : Resource → Bool) : Prop
    extends Exclusive held where
  marks : ∀ resource, marked resource = true ↔ ∃ owner, resource ∈ held owner

theorem Exclusive.nodup_flatMap (exclusive : Exclusive held) {owners : List Owner}
    (distinct : owners.Nodup) : (owners.flatMap held).Nodup := by
  rw [List.nodup_flatMap]
  refine ⟨fun owner _ => exclusive.nodup owner, ?_⟩
  apply distinct.imp
  intro first second different resource inFirst inSecond
  exact different (exclusive.unique inFirst inSecond)

theorem Ledger.not_held_of_unmarked {marked : Resource → Bool}
    (ledger : Ledger held marked) {resource : Resource}
    (unmarked : marked resource = false) (owner : Owner) : resource ∉ held owner := by
  intro member
  have taken := (ledger.marks resource).mpr ⟨owner, member⟩
  rw [unmarked] at taken
  cases taken

theorem Ledger.marked_of_held {marked : Resource → Bool}
    (ledger : Ledger held marked) {owner : Owner} {resource : Resource}
    (member : resource ∈ held owner) : marked resource = true :=
  (ledger.marks resource).mpr ⟨owner, member⟩

/-- Nobody holds more than before. -/
theorem Exclusive.sublist {later : Owner → List Resource} (exclusive : Exclusive held)
    (sub : ∀ owner, (later owner).Sublist (held owner)) : Exclusive later where
  nodup owner := (exclusive.nodup owner).sublist (sub owner)
  unique inFirst inSecond :=
    exclusive.unique ((sub _).subset inFirst) ((sub _).subset inSecond)

/-- A resource that nobody holds gets an owner. -/
theorem Exclusive.take {later : Owner → List Resource} (exclusive : Exclusive held)
    (owner : Owner) {resource : Resource} (free : ∀ other, resource ∉ held other)
    (taken : (later owner).Perm (resource :: held owner))
    (others : ∀ other, other ≠ owner → later other = held other) : Exclusive later where
  nodup other := by
    by_cases same : other = owner
    · rw [same, taken.nodup_iff, List.nodup_cons]
      exact ⟨free owner, exclusive.nodup owner⟩
    · rw [others other same]
      exact exclusive.nodup other
  unique := by
    have holders : ∀ {other : Owner} {item : Resource}, item ∈ later other →
        (other = owner ∧ item = resource) ∨ item ∈ held other := by
      intro other item member
      by_cases same : other = owner
      · rw [same, taken.mem_iff, List.mem_cons] at member
        rcases member with rfl | old
        · exact Or.inl ⟨same, rfl⟩
        · exact Or.inr (by rwa [same])
      · rw [others other same] at member
        exact Or.inr member
    intro first second item inFirst inSecond
    rcases holders inFirst with ⟨rfl, rfl⟩ | oldFirst <;>
      rcases holders inSecond with ⟨rfl, same⟩ | oldSecond
    · rfl
    · exact absurd oldSecond (free second)
    · rw [same] at oldFirst
      exact absurd oldFirst (free first)
    · exact exclusive.unique oldFirst oldSecond

variable [DecidableEq Owner]

/-- What is held when one owner has exchanged its resources. -/
theorem mem_update_iff {owner other : Owner} {exchanged : List Resource} {resource : Resource} :
    resource ∈ Function.update held owner exchanged other ↔
      other = owner ∧ resource ∈ exchanged ∨ other ≠ owner ∧ resource ∈ held other := by
  by_cases same : other = owner
  · subst same
    simp
  · simp [same]

/-- An owner that holds nothing takes distinct unmarked resources. -/
theorem Ledger.allocate {marked marked' : Resource → Bool}
    (ledger : Ledger held marked) {owner : Owner} (idle : held owner = [])
    {taken : List Resource} (distinct : taken.Nodup)
    (unmarked : ∀ resource ∈ taken, marked resource = false)
    (updates : ∀ resource,
      marked' resource = true ↔ resource ∈ taken ∨ marked resource = true) :
    Ledger (Function.update held owner taken) marked' where
  nodup := by
    apply (Function.forall_update_iff held fun _ owned => owned.Nodup).mpr
    exact ⟨distinct, fun other _ => ledger.nodup other⟩
  unique {first second resource} inFirst inSecond := by
    rcases mem_update_iff.mp inFirst with ⟨firstSame, newFirst⟩ | ⟨-, oldFirst⟩ <;>
      rcases mem_update_iff.mp inSecond with ⟨secondSame, newSecond⟩ | ⟨-, oldSecond⟩
    · rw [firstSame, secondSame]
    · exact absurd oldSecond
        (ledger.not_held_of_unmarked (unmarked resource newFirst) second)
    · exact absurd oldFirst
        (ledger.not_held_of_unmarked (unmarked resource newSecond) first)
    · exact ledger.unique oldFirst oldSecond
  marks resource := by
    rw [updates, ledger.marks]
    constructor
    · rintro (member | ⟨other, member⟩)
      · exact ⟨owner, mem_update_iff.mpr (Or.inl ⟨rfl, member⟩)⟩
      · have different : other ≠ owner := by
          rintro rfl
          simp [idle] at member
        exact ⟨other, mem_update_iff.mpr (Or.inr ⟨different, member⟩)⟩
    · rintro ⟨other, member⟩
      rcases mem_update_iff.mp member with ⟨-, new⟩ | ⟨-, old⟩
      · exact Or.inl new
      · exact Or.inr ⟨other, old⟩

/-- An owner gives back everything it holds. -/
theorem Ledger.release {marked marked' : Resource → Bool}
    (ledger : Ledger held marked) (owner : Owner)
    (updates : ∀ resource,
      marked' resource = true ↔ resource ∉ held owner ∧ marked resource = true) :
    Ledger (Function.update held owner []) marked' where
  nodup := by
    apply (Function.forall_update_iff held fun _ owned => owned.Nodup).mpr
    exact ⟨List.nodup_nil, fun other _ => ledger.nodup other⟩
  unique {first second resource} inFirst inSecond := by
    rcases mem_update_iff.mp inFirst with ⟨-, none⟩ | ⟨-, oldFirst⟩
    · cases none
    · rcases mem_update_iff.mp inSecond with ⟨-, none⟩ | ⟨-, oldSecond⟩
      · cases none
      · exact ledger.unique oldFirst oldSecond
  marks resource := by
    rw [updates, ledger.marks]
    constructor
    · rintro ⟨absent, other, member⟩
      have different : other ≠ owner := by
        rintro rfl
        exact absent member
      exact ⟨other, mem_update_iff.mpr (Or.inr ⟨different, member⟩)⟩
    · rintro ⟨other, member⟩
      rcases mem_update_iff.mp member with ⟨-, none⟩ | ⟨different, old⟩
      · cases none
      · exact ⟨fun inOwner => different (ledger.unique old inOwner), other, old⟩

end ExclusiveOwnership
