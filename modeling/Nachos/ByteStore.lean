import Mathlib.Data.List.Basic
import Mathlib.Tactic.Common

/-!
# Stores of cells

A store assigns a cell to every address.  Data is written to a segment of
consecutive addresses and read from one; a file is a store of which only the
first cells exist, and it grows when it is written beyond its end.
-/

namespace ByteStore

variable {α : Type*}

/-- The `count` cells from address `start` on. -/
def segment (cells : Nat → α) (start count : Nat) : List α :=
  (List.range count).map fun index => cells (start + index)

/-- Write `data` to the addresses from `start` on. -/
def overwrite (cells : Nat → α) (start : Nat) (data : List α) : Nat → α :=
  fun address =>
    if start ≤ address then (data[address - start]?).getD (cells address)
    else cells address

@[simp]
theorem length_segment (cells : Nat → α) (start count : Nat) :
    (segment cells start count).length = count := by
  simp [segment]

theorem segment_congr {first second : Nat → α} {start count : Nat}
    (same : ∀ address, start ≤ address → address < start + count →
      first address = second address) :
    segment first start count = segment second start count := by
  apply List.map_congr_left
  intro index member
  have bound := List.mem_range.mp member
  exact same _ (by omega) (by omega)

theorem overwrite_outside (cells : Nat → α) {start address : Nat} {data : List α}
    (outside : address < start ∨ start + data.length ≤ address) :
    overwrite cells start data address = cells address := by
  unfold overwrite
  split
  next after =>
    rw [List.getElem?_eq_none (by omega), Option.getD_none]
  next => rfl

/-- A segment that the data does not reach keeps its cells. -/
theorem segment_overwrite_disjoint (cells : Nat → α) {start count position : Nat}
    {data : List α}
    (disjoint : start + count ≤ position ∨ position + data.length ≤ start) :
    segment (overwrite cells position data) start count =
      segment cells start count := by
  apply segment_congr
  intro address lower upper
  exact overwrite_outside cells (by omega)

/-- The data is read back from where it was written. -/
theorem segment_overwrite_same (cells : Nat → α) (start : Nat) (data : List α) :
    segment (overwrite cells start data) start data.length = data := by
  apply List.ext_getElem
  · simp
  · intro index inSegment inData
    simp [segment, overwrite, inData]

theorem segment_add (cells : Nat → α) (start first second : Nat) :
    segment cells start (first + second) =
      segment cells start first ++ segment cells (start + first) second := by
  simp only [segment, List.range_add, List.map_append, List.map_map]
  congr 1
  apply List.map_congr_left
  intro index member
  exact congrArg cells (Nat.add_assoc start first index).symm

/-- Put other cells over those from `base` on, where there are any. -/
def overlay (base : Nat) (others : Nat → Option α) (cells : Nat → α) : Nat → α :=
  fun address =>
    if base ≤ address then (others (address - base)).getD (cells address)
    else cells address

theorem overlay_none (base : Nat) (cells : Nat → α) :
    overlay base (fun _ => none) cells = cells := by
  funext address
  simp [overlay]

/-- To write data is to put it over the cells. -/
theorem overwrite_eq_overlay (cells : Nat → α) (base start : Nat) (data : List α) :
    overwrite cells (base + start) data =
      overlay base (fun offset => if start ≤ offset then data[offset - start]? else none)
        cells := by
  funext address
  by_cases reached : base + start ≤ address
  · have position : address - base - start = address - (base + start) := by omega
    simp only [overwrite, overlay, if_pos reached, if_pos (show base ≤ address by omega),
      if_pos (show start ≤ address - base by omega), position]
  · have before : ¬ (base ≤ address ∧ start ≤ address - base) := by omega
    simp only [overwrite, overlay, if_neg reached]
    split
    · next above => rw [if_neg fun after => before ⟨above, after⟩, Option.getD_none]
    · rfl

/-- What is put over the cells last hides what was put there before. -/
theorem overlay_overlay (base : Nat) (first second : Nat → Option α) (cells : Nat → α) :
    overlay base second (overlay base first cells) =
      overlay base (fun offset => (second offset).or (first offset)) cells := by
  funext address
  by_cases reached : base ≤ address
  · simp only [overlay, if_pos reached]
    cases second (address - base) <;> rfl
  · simp only [overlay, if_neg reached]

/-- Only the first `length` cells of a file exist. -/
structure File (α : Type*) where
  cells : Nat → α
  length : Nat

namespace File

/-- Up to `count` cells from `position` on, as many as there are. -/
def read (file : File α) (position count : Nat) : List α :=
  segment file.cells position (min count (file.length - position))

/-- Write `data` at `position`; a gap behind the old end is filled. -/
def write (file : File α) (filler : α) (position : Nat) (data : List α) : File α where
  cells := overwrite
    (fun address => if address < file.length then file.cells address else filler)
    position data
  length := if data.isEmpty then file.length
    else max file.length (position + data.length)

theorem length_le_length_write (file : File α) (filler : α) (position : Nat)
    (data : List α) : file.length ≤ (file.write filler position data).length := by
  simp only [write]
  split
  next => exact Nat.le_refl _
  next => exact Nat.le_max_left _ _

theorem length_write_behind (file : File α) (filler : α) {position : Nat} {data : List α}
    (behind : file.length ≤ position) (nonempty : data ≠ []) :
    (file.write filler position data).length = position + data.length := by
  have present : data.isEmpty = false := List.isEmpty_eq_false_iff.mpr nonempty
  simp only [write, present]
  exact Nat.max_eq_right (by omega)

/-- A read inside the file returns all the cells asked for. -/
theorem read_eq_segment (file : File α) {position count : Nat}
    (inside : position + count ≤ file.length) :
    file.read position count = segment file.cells position count := by
  rw [read, Nat.min_eq_left (by omega)]

/-- The data is read back from where it was written. -/
theorem read_write_same (file : File α) (filler : α) (position : Nat) (data : List α) :
    (file.write filler position data).read position data.length = data := by
  by_cases empty : data = []
  · simp [empty, read, segment]
  · have inside : position + data.length ≤ (file.write filler position data).length := by
      simp only [write, List.isEmpty_iff, empty, if_false]
      exact Nat.le_max_right _ _
    rw [read_eq_segment _ inside, write, segment_overwrite_same]

/-- A write keeps the cells of the file that the data does not reach. -/
theorem cells_write (file : File α) (filler : α) {position address : Nat} {data : List α}
    (inside : address < file.length)
    (outside : address < position ∨ position + data.length ≤ address) :
    (file.write filler position data).cells address = file.cells address := by
  simp only [write, overwrite_outside _ outside, if_pos inside]

/-- A write elsewhere does not change what a read inside the file returns. -/
theorem read_write_disjoint (file : File α) (filler : α)
    {position count written : Nat} {data : List α}
    (inside : position + count ≤ file.length)
    (disjoint : position + count ≤ written ∨ written + data.length ≤ position) :
    (file.write filler written data).read position count =
      file.read position count := by
  have grown := file.length_le_length_write filler written data
  rw [read_eq_segment _ (Nat.le_trans inside grown), read_eq_segment _ inside, write,
    segment_overwrite_disjoint _ disjoint]
  apply segment_congr
  intro address lower upper
  exact if_pos (by omega)

/-- All the cells of a file. -/
def contents (file : File α) : List α :=
  segment file.cells 0 file.length

@[simp]
theorem length_contents (file : File α) : file.contents.length = file.length :=
  length_segment _ _ _

/-- Data that is written behind the end gets there, behind a gap that is filled. -/
theorem contents_write_behind (file : File α) (filler : α) {position : Nat} {data : List α}
    (behind : file.length ≤ position) (nonempty : data ≠ []) :
    (file.write filler position data).contents =
      file.contents ++ List.replicate (position - file.length) filler ++ data := by
  rw [contents, length_write_behind file filler behind nonempty, segment_add, Nat.zero_add, write,
    segment_overwrite_same, segment_overwrite_disjoint _ (Or.inl (by omega))]
  congr 1
  have split : position = file.length + (position - file.length) := by omega
  rw [split, segment_add, Nat.zero_add, Nat.add_sub_cancel_left]
  congr 1
  · apply segment_congr
    intro address _ upper
    exact if_pos (by omega)
  · apply List.eq_replicate_iff.mpr
    refine ⟨length_segment _ _ _, fun cell member => ?_⟩
    obtain ⟨index, -, rfl⟩ := List.mem_map.mp member
    exact if_neg (by omega)

/-- Data that is written at the end is appended. -/
theorem contents_write_end (file : File α) (filler : α) (data : List α) :
    (file.write filler file.length data).contents = file.contents ++ data := by
  by_cases empty : data = []
  · subst empty
    rw [List.append_nil]
    apply segment_congr
    intro address _ upper
    have inside : address < file.length := by simpa [write] using upper
    exact cells_write file filler inside (Or.inl inside)
  · rw [contents_write_behind file filler (Nat.le_refl _) empty, Nat.sub_self]
    simp

end File

end ByteStore
