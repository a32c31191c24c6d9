import Nachos.TranslationView

/-!
# Bytes behind physical addresses

A physical address below `MemorySize` is one of the main memory, and the others are
positions in the swap file.  A read depends on the storage of the machine only, and
a write to other addresses does not change it.
-/

namespace Nachos

open LittleEndianWords ByteStore

namespace Machine

variable {machine stored first second : Machine}

theorem fetch_congr (same : first.storage = second.storage) (address : Int)
    (size : Nat) :
    (first.fetch address size).map Prod.fst = (second.fetch address size).map Prod.fst := by
  simp only [storage, Storage.mk.injEq] at same
  obtain ⟨mainMemory, disk, swap, offset⟩ := same
  simp only [fetch, swapPosition, mainMemory, disk, swap, offset]
  split
  next => cases second.swap.readAt size _ <;> rfl
  next => split <;> rfl

/-- A read of the swap file does not look at the main memory. -/
theorem fetch_congr_swap {address : Int} (swapped : (memorySize : Int) ≤ address)
    (disk : first.disk = second.disk) (swap : first.swap = second.swap)
    (offset : first.noffCodeOffset = second.noffCodeOffset) (size : Nat) :
    (first.fetch address size).map Prod.fst = (second.fetch address size).map Prod.fst := by
  simp only [fetch, if_pos swapped, swapPosition, disk, swap, offset]
  cases second.swap.readAt size _ <;> rfl

/-- The access lies inside the swap file, unless it is to the main memory. -/
def InsideSwap (machine : Machine) (address : Int) (size : Nat) : Prop :=
  memorySize ≤ address → machine.swapPosition address + size ≤ machine.swap.length

instance (machine : Machine) (address : Int) (size : Nat) :
    Decidable (machine.InsideSwap address size) :=
  inferInstanceAs (Decidable (_ → _))

theorem insideSwap_congr (same : first.storage = second.storage) {address : Int}
    {size : Nat} (inside : second.InsideSwap address size) :
    first.InsideSwap address size := by
  simp only [storage, Storage.mk.injEq] at same
  obtain ⟨-, -, swap, offset⟩ := same
  simp only [InsideSwap, swapPosition, swap, offset]
  exact inside

theorem wrapInt_of_small {value : Int} (lower : -2 ^ 31 ≤ value) (upper : value < 2 ^ 31) :
    wrapInt value = value := by
  rw [wrapInt]
  apply Int.bmod_eq_of_le <;> omega

/-- Positions in the swap file are as far apart as the addresses. -/
theorem swapPosition_sub {other address : Int} (lower : 0 ≤ machine.swapPosition address)
    (otherLower : 0 ≤ machine.swapPosition other) (near : other - address < 2 ^ 30)
    (far : -2 ^ 30 < other - address) :
    machine.swapPosition other - machine.swapPosition address = other - address := by
  simp only [swapPosition, wrapInt, Int.bmod] at lower otherLower ⊢
  split at lower <;> split at otherLower <;> split <;> omega

/-- Bytes read from the swap file are handed over as they are. -/
theorem segment_disk (disk : Nat → Byte) {data : List Byte} {size : Nat}
    (full : data.length = size) : segment (overwrite disk 0 data) 0 size = data := by
  subst full
  exact segment_overwrite_same disk 0 data

theorem readAt_eq {file : UnixFile} {size : Nat} {position : Int}
    (nonneg : 0 ≤ position) :
    file.readAt size position = .ok (ByteStore.File.read file position.toNat size) := by
  simp [UnixFile.readAt, UnixFile.lseek, nonneg, Except.map]

theorem readAt_neg {file : UnixFile} {size : Nat} {position : Int}
    (negative : ¬ 0 ≤ position) : file.readAt size position = .error .assertion := by
  simp [UnixFile.readAt, UnixFile.lseek, negative, Except.map]

/-- A read inside the swap file does not depend on the old bytes of the buffer. -/
theorem fetch_swap {address : Int} {size : Nat} (swapped : memorySize ≤ address)
    (nonneg : 0 ≤ machine.swapPosition address)
    (inside : machine.swapPosition address + size ≤ machine.swap.length) :
    (machine.fetch address size).map Prod.fst = .ok (ByteStore.File.read machine.swap
      (machine.swapPosition address).toNat size) := by
  have full : (ByteStore.File.read machine.swap (machine.swapPosition address).toNat
      size).length = size := by
    rw [File.read_eq_segment _ (by omega), length_segment]
  rw [fetch, if_pos swapped, readAt_eq nonneg]
  simp only [Except.map, segment_disk _ full]

/-- What a completed write to the swap file changed. -/
structure StoredInSwap (machine stored : Machine) (written : Int) (count : Nat) :
    Prop where
  swapped : (memorySize : Int) ≤ written
  nonneg : 0 ≤ machine.swapPosition written
  swap : ∃ data, List.length data = count ∧
    stored.swap = File.write machine.swap 0 (machine.swapPosition written).toNat data
  mainMemory : stored.mainMemory = machine.mainMemory
  offset : stored.noffCodeOffset = machine.noffCodeOffset

/-- What a completed write to the main memory changed. -/
structure StoredInMemory (machine stored : Machine) (written : Int) (count : Nat) :
    Prop where
  nonneg : 0 ≤ written
  mainMemory : ∃ data, List.length data ≤ count ∧
    stored.mainMemory = overwrite machine.mainMemory written.toNat data
  disk : stored.disk = machine.disk
  swap : stored.swap = machine.swap
  offset : stored.noffCodeOffset = machine.noffCodeOffset

theorem store_eq_ok {written : Int} {count : Nat} {value : CInt}
    (done : machine.store written count value = .ok stored) :
    StoredInSwap machine stored written count ∨
      StoredInMemory machine stored written count := by
  unfold store at done
  split at done
  next swapped =>
    left
    by_cases nonneg : 0 ≤ machine.swapPosition written
    · simp only [UnixFile.writeAt, UnixFile.lseek, nonneg, if_true, Except.map,
        Except.ok.injEq] at done
      subst done
      exact ⟨swapped, nonneg, ⟨_, length_segment .., rfl⟩, rfl, rfl⟩
    · simp [UnixFile.writeAt, UnixFile.lseek, nonneg, Except.map] at done
  next main =>
    split at done
    next inMemory =>
      cases done
      exact Or.inr ⟨inMemory.1, ⟨_, List.length_take_le .., rfl⟩, rfl, rfl, rfl⟩
    next => cases done

theorem StoredInSwap.fetch_disjoint {address written : Int} {size count : Nat}
    (done : StoredInSwap machine stored written count)
    (disjoint : address + size ≤ written ∨ written + count ≤ address)
    (near : written - address < 2 ^ 30) (far : -2 ^ 30 < written - address)
    (inside : machine.InsideSwap address size) :
    (stored.fetch address size).map Prod.fst = (machine.fetch address size).map Prod.fst := by
  obtain ⟨data, length, swap⟩ := done.swap
  have samePosition : stored.swapPosition address = machine.swapPosition address := by
    rw [swapPosition, swapPosition, done.offset]
  by_cases reading : (memorySize : Int) ≤ address
  · by_cases readable : 0 ≤ machine.swapPosition address
    · have apart := swapPosition_sub readable done.nonneg near far
      have enough := inside reading
      have grown : machine.swap.length ≤ stored.swap.length := by
        rw [swap]
        exact File.length_le_length_write ..
      have enoughAfter : stored.swapPosition address + size ≤ stored.swap.length := by
        omega
      rw [fetch_swap reading (samePosition ▸ readable) enoughAfter,
        fetch_swap reading readable enough, swap, samePosition]
      congr 1
      have start := done.nonneg
      exact File.read_write_disjoint _ _ (by omega) (by omega)
    · simp only [fetch, if_pos reading, samePosition, readAt_neg readable]
      rfl
  · simp only [fetch, if_neg reading, done.mainMemory]
    split <;> rfl

theorem StoredInMemory.fetch_disjoint {address written : Int} {size count : Nat}
    (done : StoredInMemory machine stored written count)
    (disjoint : address + size ≤ written ∨ written + count ≤ address) :
    (stored.fetch address size).map Prod.fst = (machine.fetch address size).map Prod.fst := by
  obtain ⟨data, length, mainMemory⟩ := done.mainMemory
  have nonneg := done.nonneg
  by_cases reading : (memorySize : Int) ≤ address
  · exact fetch_congr_swap reading done.disk done.swap done.offset size
  · simp only [fetch, if_neg reading, mainMemory]
    split
    next inMemory =>
      simp only [Except.map]
      congr 1
      exact segment_overwrite_disjoint _ (by omega)
    next => rfl

/-- A write to other addresses does not change what a read returns. -/
theorem fetch_store_disjoint {address written : Int} {size count : Nat} {value : CInt}
    (done : machine.store written count value = .ok stored)
    (disjoint : address + size ≤ written ∨ written + count ≤ address)
    (near : written - address < 2 ^ 30) (far : -2 ^ 30 < written - address)
    (inside : machine.InsideSwap address size) :
    (stored.fetch address size).map Prod.fst = (machine.fetch address size).map Prod.fst := by
  rcases store_eq_ok done with inSwap | inMemory
  · exact inSwap.fetch_disjoint disjoint near far inside
  · exact inMemory.fetch_disjoint disjoint

end Machine

end Nachos
