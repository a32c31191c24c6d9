import Mathlib.Data.Set.Lattice
import Mathlib.Order.ConditionallyCompleteLattice.Basic

/-!
# Images of memory

A file that can be executed says which cells are to be loaded at which addresses, and
which addresses are to be zeroed.  Images are ordered by what they say, so that parts are put
together by suprema.
-/

namespace MemoryImages

variable {α : Type*}

/-- Cells at their addresses, and the addresses that are zeroed. -/
abbrev Image (α : Type*) := Set (Int × α) × Set Int

/-- Data at the addresses from `address` on. -/
def placed (address : Int) (data : List α) : Image α :=
  ({cell | ∃ offset : Nat, cell.1 = address + offset ∧ data[offset]? = some cell.2}, ∅)

def zeroed (address size : Int) : Image α :=
  (∅, {place | address ≤ place ∧ place < address + size})

theorem placed_nil (address : Int) : placed address ([] : List α) = ⊥ := by
  apply Prod.ext
  · apply Set.eq_empty_of_forall_notMem
    rintro cell ⟨offset, -, found⟩
    simp at found
  · rfl

theorem zeroed_zero (address : Int) : (zeroed address 0 : Image α) = ⊥ := by
  apply Prod.ext
  · rfl
  · apply Set.eq_empty_of_forall_notMem
    rintro place ⟨lower, upper⟩
    omega

/-- Zeroed addresses contribute nothing to the cells of an image. -/
theorem placed_le_of_le_sup_zeroed {address start size : Int} {data : List α}
    {image : Image α} (inside : placed address data ≤ image ⊔ zeroed start size) :
    placed address data ≤ image := by
  constructor
  · intro cell placed
    rcases inside.1 placed with kept | none
    · exact kept
    · exact False.elim none
  · exact Set.empty_subset _

/-- Data that starts at address 0 has the cells of the image at their addresses, and zeros where
the image has zeroed memory. -/
def Shows (zero : α) (data : List α) (image : Image α) : Prop :=
  image.1 ⊆ (placed 0 data).1 ∧ ∀ address ∈ image.2, (address, zero) ∈ (placed 0 data).1

variable {zero : α} {data : List α}

theorem Shows.mono {smaller larger : Image α} (shows_ : Shows zero data larger)
    (smaller_le : smaller ≤ larger) : Shows zero data smaller :=
  ⟨smaller_le.1.trans shows_.1, fun address zeroed => shows_.2 address (smaller_le.2 zeroed)⟩

/-- An image is shown when each of its parts is. -/
theorem shows_iSup {ι : Sort*} {images : ι → Image α}
    (parts : ∀ index, Shows zero data (images index)) :
    Shows zero data (⨆ index, images index) := by
  constructor
  · rw [Prod.fst_iSup, Set.iSup_eq_iUnion]
    exact Set.iUnion_subset fun index => (parts index).1
  · intro address zeroed
    rw [Prod.snd_iSup, Set.iSup_eq_iUnion] at zeroed
    obtain ⟨index, zeroed⟩ := Set.mem_iUnion.mp zeroed
    exact (parts index).2 address zeroed

theorem shows_placed (zero : α) (front middle back : List α) :
    Shows zero (front ++ middle ++ back) (placed front.length middle) := by
  refine ⟨?_, fun address none => False.elim none⟩
  rintro ⟨address, cell⟩ ⟨offset, there, found⟩
  refine ⟨front.length + offset, ?_, ?_⟩
  · simpa using there
  · rw [List.append_assoc, List.getElem?_append_right (Nat.le_add_right _ _),
      Nat.add_sub_cancel_left, List.getElem?_append_left (List.getElem?_eq_some_iff.mp found).1]
    exact found

theorem shows_zeroed (zero : α) (front : List α) {count : Nat} {start size : Int}
    (lower : front.length ≤ start) (upper : start + size ≤ front.length + count) :
    Shows zero (front ++ List.replicate count zero) (zeroed start size) := by
  refine ⟨fun cell none => False.elim none, ?_⟩
  rintro address ⟨above, below⟩
  refine ⟨address.toNat, by omega, ?_⟩
  rw [List.getElem?_append_right (by omega), List.getElem?_replicate, if_pos (by omega)]

end MemoryImages
