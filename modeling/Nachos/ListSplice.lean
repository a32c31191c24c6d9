import Mathlib.Data.List.Basic
import Mathlib.Tactic.Common

/-!
# Overwriting a segment of a list

Buffers of bytes are lists of fixed length.  Copying data into the middle of
such a buffer replaces one segment and keeps the rest; reading equal-sized
blocks one after another concatenates them.  The lemmas here describe both
operations elementwise.
-/

namespace ListSplice

variable {α β : Type*}

/-- Overwrite the segment of `buffer` that starts at `offset` by `data`. -/
def splice (buffer : List α) (offset : Nat) (data : List α) : List α :=
  buffer.take offset ++ data ++ buffer.drop (offset + data.length)

@[simp]
theorem length_splice {buffer data : List α} {offset : Nat}
    (fits : offset + data.length ≤ buffer.length) :
    (splice buffer offset data).length = buffer.length := by
  simp only [splice, List.length_append, List.length_take, List.length_drop]
  omega

@[simp]
theorem splice_nil (buffer : List α) (offset : Nat) :
    splice buffer offset [] = buffer := by
  simp [splice]

theorem getElem?_splice {buffer data : List α} {offset : Nat}
    (fits : offset + data.length ≤ buffer.length) (index : Nat) :
    (splice buffer offset data)[index]? =
      if offset ≤ index ∧ index < offset + data.length then
        data[index - offset]?
      else buffer[index]? := by
  have frontLength : (buffer.take offset).length = offset := by
    simp only [List.length_take]
    omega
  rw [splice, List.append_assoc]
  by_cases before : index < offset
  · rw [List.getElem?_append_left (by omega), List.getElem?_take_of_lt before,
      if_neg (by omega)]
  · rw [List.getElem?_append_right (by omega), frontLength]
    by_cases inside : index < offset + data.length
    · rw [List.getElem?_append_left (by omega), if_pos (by omega)]
    · rw [List.getElem?_append_right (by omega), List.getElem?_drop,
        if_neg (by omega)]
      congr 1
      omega

/-- Two segments that follow each other are one segment. -/
theorem splice_splice {buffer first second : List α} {offset : Nat}
    (fits : offset + first.length ≤ buffer.length) :
    splice (splice buffer offset first) (offset + first.length) second =
      splice buffer offset (first ++ second) := by
  have front : (buffer.take offset ++ first).length = offset + first.length := by
    rw [List.length_append, List.length_take]
    omega
  have cut : offset + (first ++ second).length =
      offset + first.length + second.length := by
    rw [List.length_append]
    omega
  rw [splice, splice, splice, List.take_left' front, ← front, List.drop_length_add_append,
    front, List.drop_drop, cut]
  simp only [List.append_assoc]

theorem getElem?_splice_inside {buffer data : List α} {offset index : Nat}
    (fits : offset + data.length ≤ buffer.length)
    (lower : offset ≤ index) (upper : index < offset + data.length) :
    (splice buffer offset data)[index]? = data[index - offset]? := by
  rw [getElem?_splice fits, if_pos ⟨lower, upper⟩]

/-- Overwriting the start of a buffer. -/
theorem splice_zero (buffer data : List α) :
    splice buffer 0 data = data ++ buffer.drop data.length := by
  simp [splice]

/-- Overwriting the whole buffer leaves nothing of its old contents. -/
theorem splice_all {buffer data : List α}
    (full : data.length = buffer.length) : splice buffer 0 data = data := by
  simp [splice, full]

section Blocks

variable {size : Nat} {block : β → List α}

theorem length_flatMap_blocks {keys : List β}
    (sized : ∀ key ∈ keys, (block key).length = size) :
    (keys.flatMap block).length = keys.length * size := by
  induction keys with
  | nil => simp
  | cons key keys ih =>
      have head := sized key (by simp)
      have tail := ih (fun other member => sized other (by simp [member]))
      simp only [List.flatMap_cons, List.length_append, List.length_cons, head,
        tail, Nat.succ_mul]
      omega

/-- Element `position` of block `index` in a concatenation of blocks. -/
theorem getElem?_flatMap_blocks {keys : List β}
    (sized : ∀ key ∈ keys, (block key).length = size)
    {index position : Nat} (within : position < size) :
    (keys.flatMap block)[index * size + position]? =
      (keys[index]?).bind fun key => (block key)[position]? := by
  induction keys generalizing index with
  | nil => simp
  | cons key keys ih =>
      have head := sized key (by simp)
      have tail : ∀ other ∈ keys, (block other).length = size :=
        fun other member => sized other (by simp [member])
      cases index with
      | zero =>
          rw [List.flatMap_cons, List.getElem?_append_left (by omega)]
          simp
      | succ index =>
          have address : (index + 1) * size + position - (block key).length =
              index * size + position := by
            rw [Nat.succ_mul, head]
            omega
          rw [List.flatMap_cons, List.getElem?_append_right
            (by rw [Nat.succ_mul]; omega), address, ih tail]
          simp

end Blocks

end ListSplice
