import Mathlib.Algebra.BigOperators.Group.Finset.Basic
import Mathlib.Data.Finmap
import Mathlib.Data.Fintype.Card
import Mathlib.Data.Fintype.EquivFin

/-!
# Finite maps in tables of slots

A table with a fixed number of slots stores a finite map: every slot is empty or
holds one key with its value, and no key is stored twice.  A key that is stored
in an empty slot is inserted into the map, and a slot that is emptied erases its
key.
-/

namespace SlotMap

variable {κ α : Type*} [DecidableEq κ] {size : Nat}

/-- The slots store exactly the entries of the map. -/
structure Represents (slots : Fin size → Option (κ × α)) (map : Finmap fun _ : κ => α) :
    Prop where
  distinct : ∀ {first second : Fin size} {key : κ} {value other : α},
    slots first = some (key, value) → slots second = some (key, other) → first = second
  lookup : ∀ {key : κ} {value : α},
    map.lookup key = some value ↔ ∃ index, slots index = some (key, value)

variable {slots : Fin size → Option (κ × α)} {map : Finmap fun _ : κ => α}

theorem represents_empty (free : ∀ index, slots index = none) :
    Represents slots ∅ where
  distinct first := by
    rw [free] at first
    cases first
  lookup := by
    simp [free]

namespace Represents

theorem mem_iff (represents : Represents slots map) {key : κ} :
    key ∈ map ↔ ∃ index value, slots index = some (key, value) := by
  rw [Finmap.mem_iff]
  constructor
  · rintro ⟨value, found⟩
    obtain ⟨index, stored⟩ := represents.lookup.mp found
    exact ⟨index, value, stored⟩
  · rintro ⟨index, value, stored⟩
    exact ⟨value, represents.lookup.mpr ⟨index, stored⟩⟩

/-- A key that is not in the map is stored in an empty slot. -/
theorem insert (represents : Represents slots map) {index : Fin size}
    (free : slots index = none) {key : κ} (absent : key ∉ map) (value : α) :
    Represents (Function.update slots index (some (key, value)))
      (map.insert key value) := by
  have unused : ∀ other stored, slots other ≠ some (key, stored) :=
    fun other stored same => absent (represents.mem_iff.mpr ⟨other, stored, same⟩)
  constructor
  · intro first second name one two firstSlot secondSlot
    by_cases atFirst : first = index
    · by_cases atSecond : second = index
      · rw [atFirst, atSecond]
      · rw [atFirst, Function.update_self] at firstSlot
        rw [Function.update_of_ne atSecond] at secondSlot
        obtain ⟨rfl, -⟩ := Prod.mk.inj (Option.some.inj firstSlot)
        exact absurd secondSlot (unused _ _)
    · rw [Function.update_of_ne atFirst] at firstSlot
      by_cases atSecond : second = index
      · rw [atSecond, Function.update_self] at secondSlot
        obtain ⟨rfl, -⟩ := Prod.mk.inj (Option.some.inj secondSlot)
        exact absurd firstSlot (unused _ _)
      · rw [Function.update_of_ne atSecond] at secondSlot
        exact represents.distinct firstSlot secondSlot
  · intro name stored
    by_cases same : name = key
    · subst same
      rw [Finmap.lookup_insert]
      constructor
      · intro found
        exact ⟨index, by rw [Function.update_self, Option.some.inj found]⟩
      · rintro ⟨other, slot⟩
        by_cases here : other = index
        · rw [here, Function.update_self] at slot
          exact congrArg (Option.map Prod.snd) slot
        · rw [Function.update_of_ne here] at slot
          exact absurd slot (unused _ _)
    · rw [Finmap.lookup_insert_of_ne _ same, represents.lookup]
      constructor
      · rintro ⟨other, slot⟩
        have elsewhere : other ≠ index := by
          rintro rfl
          rw [free] at slot
          cases slot
        exact ⟨other, by rw [Function.update_of_ne elsewhere, slot]⟩
      · rintro ⟨other, slot⟩
        by_cases here : other = index
        · rw [here, Function.update_self] at slot
          exact absurd (Prod.mk.inj (Option.some.inj slot)).1.symm same
        · exact ⟨other, by rwa [Function.update_of_ne here] at slot⟩

/-- A key gets another value in the slot in which it is stored. -/
theorem replace (represents : Represents slots map) {index : Fin size} {key : κ}
    {old : α} (stored : slots index = some (key, old)) (value : α) :
    Represents (Function.update slots index (some (key, value)))
      (map.insert key value) := by
  have before {other : Fin size} {name : κ} {content : α}
      (slot : Function.update slots index (some (key, value)) other = some (name, content)) :
      ∃ content', slots other = some (name, content') := by
    by_cases here : other = index
    · rw [here, Function.update_self] at slot
      obtain ⟨rfl, -⟩ := Prod.mk.inj (Option.some.inj slot)
      exact ⟨old, by rw [here, stored]⟩
    · exact ⟨content, by rwa [Function.update_of_ne here] at slot⟩
  constructor
  · intro first second name one two firstSlot secondSlot
    obtain ⟨_, firstSlot⟩ := before firstSlot
    obtain ⟨_, secondSlot⟩ := before secondSlot
    exact represents.distinct firstSlot secondSlot
  · intro name content
    by_cases same : name = key
    · subst same
      rw [Finmap.lookup_insert]
      constructor
      · intro found
        exact ⟨index, by rw [Function.update_self, Option.some.inj found]⟩
      · rintro ⟨other, slot⟩
        obtain ⟨content', present⟩ := before slot
        rw [represents.distinct present stored, Function.update_self] at slot
        exact congrArg (Option.map Prod.snd) slot
    · rw [Finmap.lookup_insert_of_ne _ same, represents.lookup]
      apply exists_congr
      intro other
      by_cases here : other = index
      · rw [here, Function.update_self, stored]
        simp [Ne.symm same]
      · rw [Function.update_of_ne here]

/-- A slot that is emptied takes its key out of the map. -/
theorem erase (represents : Represents slots map) {index : Fin size} {key : κ}
    {value : α} (stored : slots index = some (key, value)) :
    Represents (Function.update slots index none) (map.erase key) := by
  have kept : ∀ {other : Fin size} {entry : κ × α},
      Function.update slots index none other = some entry →
        other ≠ index ∧ slots other = some entry := by
    intro other entry slot
    by_cases here : other = index
    · rw [here, Function.update_self] at slot
      cases slot
    · exact ⟨here, by rwa [Function.update_of_ne here] at slot⟩
  constructor
  · intro first second name one two firstSlot secondSlot
    exact represents.distinct (kept firstSlot).2 (kept secondSlot).2
  · intro name other
    by_cases same : name = key
    · subst same
      rw [Finmap.lookup_erase]
      apply iff_of_false (Option.some_ne_none _).symm
      rintro ⟨position, slot⟩
      exact (kept slot).1 (represents.distinct (kept slot).2 stored)
    · rw [Finmap.lookup_erase_ne same, represents.lookup]
      constructor
      · rintro ⟨position, slot⟩
        have elsewhere : position ≠ index := by
          rintro rfl
          exact same (Prod.mk.inj (Option.some.inj (slot.symm.trans stored))).1
        exact ⟨position, by rw [Function.update_of_ne elsewhere, slot]⟩
      · rintro ⟨position, slot⟩
        exact ⟨position, (kept slot).2⟩

/-- What the entries of the map add up to, slot by slot. -/
theorem sum_keys (represents : Represents slots map) (weight : α → Nat) :
    ∑ key ∈ map.keys, ((map.lookup key).map weight).getD 0 =
      ∑ index, ((slots index).map fun entry => weight entry.2).getD 0 := by
  have idle : ∀ index ∈ Finset.univ,
      index ∉ Finset.univ.filter (fun index => (slots index).isSome) →
        ((slots index).map fun entry => weight entry.2).getD 0 = 0 := by
    intro index _ unused
    rw [Finset.mem_filter, not_and, Option.not_isSome_iff_eq_none] at unused
    rw [unused (Finset.mem_univ index)]
    rfl
  rw [← Finset.sum_subset (Finset.filter_subset _ _) idle]
  symm
  apply Finset.sum_bij fun index used => ((slots index).get (by simpa using used)).1
  · intro index used
    rw [Finmap.mem_keys, represents.mem_iff]
    exact ⟨index, _, (Option.some_get _).symm⟩
  · intro first firstUsed second secondUsed same
    obtain ⟨⟨key, value⟩, firstSlot⟩ :=
      Option.isSome_iff_exists.mp (show (slots first).isSome by simpa using firstUsed)
    obtain ⟨⟨name, other⟩, secondSlot⟩ :=
      Option.isSome_iff_exists.mp (show (slots second).isSome by simpa using secondUsed)
    obtain rfl : key = name := by simpa [firstSlot, secondSlot] using same
    exact represents.distinct firstSlot secondSlot
  · intro key inside
    rw [Finmap.mem_keys, represents.mem_iff] at inside
    obtain ⟨index, value, slot⟩ := inside
    exact ⟨index, by simp [slot], by simp [slot]⟩
  · intro index used
    obtain ⟨⟨key, value⟩, slot⟩ :=
      Option.isSome_iff_exists.mp (show (slots index).isSome by simpa using used)
    have name : ((slots index).get (by simpa using used)).1 = key := by simp [slot]
    rw [name, represents.lookup.mpr ⟨index, slot⟩, slot]
    rfl

/-- The map has as many keys as there are slots in use. -/
theorem card_keys (represents : Represents slots map) :
    map.keys.card = (Finset.univ.filter fun index => (slots index).isSome).card := by
  symm
  apply Finset.card_bij fun index used => ((slots index).get (by simpa using used)).1
  · intro index used
    rw [Finmap.mem_keys, represents.mem_iff]
    exact ⟨index, _, (Option.some_get _).symm⟩
  · intro first firstUsed second secondUsed same
    obtain ⟨⟨key, value⟩, firstSlot⟩ :=
      Option.isSome_iff_exists.mp (show (slots first).isSome by simpa using firstUsed)
    obtain ⟨⟨name, other⟩, secondSlot⟩ :=
      Option.isSome_iff_exists.mp (show (slots second).isSome by simpa using secondUsed)
    obtain rfl : key = name := by simpa [firstSlot, secondSlot] using same
    exact represents.distinct firstSlot secondSlot
  · intro key inside
    rw [Finmap.mem_keys, represents.mem_iff] at inside
    obtain ⟨index, value, slot⟩ := inside
    exact ⟨index, by simp [slot], by simp [slot]⟩

/-- There is an empty slot exactly when the map has fewer keys than the table
has slots. -/
theorem card_keys_lt_iff (represents : Represents slots map) :
    map.keys.card < size ↔ ∃ index, slots index = none := by
  rw [represents.card_keys]
  constructor
  · intro few
    by_contra full
    push Not at full
    have all : (Finset.univ.filter fun index => (slots index).isSome) = Finset.univ := by
      apply Finset.filter_true_of_mem
      intro index _
      exact Option.isSome_iff_ne_none.mpr (full index)
    rw [all, Finset.card_univ, Fintype.card_fin] at few
    exact Nat.lt_irrefl _ few
  · rintro ⟨index, free⟩
    have proper : (Finset.univ.filter fun index => (slots index).isSome) ⊂ Finset.univ := by
      apply Finset.filter_ssubset.mpr
      exact ⟨index, Finset.mem_univ _, by simp [free]⟩
    simpa using Finset.card_lt_card proper

end Represents

end SlotMap
