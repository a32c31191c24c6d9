import Nachos.FileIndex

/-!
# What `Allocate` and `Deallocate` do

`Allocate` decides from the number of clear bits whether the file fits, takes
the sectors, and places them.  When it returns `TRUE`, the sectors it took are
the blocks of the file, and `Deallocate` gives them back.
-/

namespace Nachos

open LittleEndianWords TransitionRuns

namespace FileHeader

section Demand

theorem adSectors_eq {numSectors : Nat} (l2 : numDirect + l1IndexNum ≤ numSectors) :
    adSectors numSectors =
      (numSectors - numDirect - l1IndexNum + l1IndexNum - 1) / l1IndexNum := by
  obtain ⟨count, rfl⟩ := Nat.exists_eq_add_of_le l2
  rw [adSectors_add]
  congr 1
  omega

theorem adSectors_le {numSectors : Nat}
    (limit : numSectors ≤ numDirect + l1IndexNum + l1IndexNum * l1IndexNum) :
    adSectors numSectors ≤ l1IndexNum := by
  have values : numDirect = 30 ∧ l1IndexNum = 32 := by decide
  unfold adSectors
  simp only [values] at *
  split <;> omega

/-- The number of sectors that `Allocate` takes. -/
theorem demand_eq_some {numClear numSectors count : Nat}
    (demanded : demand numClear numSectors = some count) :
    numSectors ≤ numDirect + l1IndexNum + l1IndexNum * l1IndexNum ∧
      count = numSectors + indexCount numSectors := by
  unfold demand at demanded
  unfold indexCount
  by_cases direct : numSectors ≤ numDirect
  · rw [if_neg (by omega)] at demanded
    split at demanded
    · cases demanded
    · rw [if_pos direct]
      exact ⟨by omega, (Option.some.inj demanded).symm⟩
  · rw [if_pos (by omega)] at demanded
    rw [if_neg direct]
    by_cases l1 : numSectors ≤ numDirect + l1IndexNum
    · rw [if_neg (by omega)] at demanded
      split at demanded
      · cases demanded
      · rw [if_pos l1]
        exact ⟨by omega, (Option.some.inj demanded).symm⟩
    · rw [if_pos (by omega)] at demanded
      split at demanded
      · cases demanded
      · split at demanded
        · cases demanded
        · split at demanded
          · cases demanded
          · rw [if_neg l1, ← adSectors_eq (by omega)]
            have taken := Option.some.inj demanded
            exact ⟨by omega, by omega⟩

/-- `Allocate` refuses a file that is too long.  Otherwise it compares the
number of clear bits with the number of sectors only when there is no second
level; with one, any number above `NumDirect + L1_INDEX_NUM + 1` passes. -/
theorem demand_eq_none_iff {numClear numSectors : Nat} :
    demand numClear numSectors = none ↔
      numDirect + l1IndexNum + l1IndexNum * l1IndexNum < numSectors ∨
        (numSectors ≤ numDirect + l1IndexNum ∧
          numClear < numSectors + indexCount numSectors) ∨
        (numDirect + l1IndexNum < numSectors ∧
          numClear ≤ numDirect + l1IndexNum + 1) := by
  unfold demand indexCount
  by_cases direct : numSectors ≤ numDirect
  · rw [if_neg (by omega), if_pos direct]
    split
    · exact iff_of_true rfl (Or.inr (Or.inl ⟨by omega, by omega⟩))
    · exact iff_of_false (Option.some_ne_none _) (by omega)
  · rw [if_pos (by omega), if_neg direct]
    by_cases l1 : numSectors ≤ numDirect + l1IndexNum
    · rw [if_neg (by omega), if_pos l1]
      split
      · exact iff_of_true rfl (Or.inr (Or.inl ⟨l1, by omega⟩))
      · exact iff_of_false (Option.some_ne_none _) (by omega)
    · rw [if_pos (by omega), if_neg l1]
      split
      · exact iff_of_true rfl (Or.inl (by omega))
      · have few := adSectors_le (show numSectors ≤
          numDirect + l1IndexNum + l1IndexNum * l1IndexNum by omega)
        split
        · exact iff_of_true rfl (Or.inr (Or.inr ⟨by omega, by omega⟩))
        · split
          · exact iff_of_true rfl (Or.inr (Or.inr ⟨by omega, by omega⟩))
          · exact iff_of_false (Option.some_ne_none _) (by omega)

end Demand

end FileHeader

section Supply

/-- A placement went on from the first state to the second one: it used up
entries of `sectorsGet`, all of them on the disk, and placed data sectors. -/
structure Placement.Used (before after : Placement) (used placed : Nat) : Prop where
  entries : ∃ consumed, before.sectorsGet = consumed ++ after.sectorsGet ∧
    consumed.length = used ∧
      ∀ sector ∈ consumed, ∃ number < Disk.numSectors, sector.toInt = (number : Nat)
  curSector : after.curSector = before.curSector + placed

namespace Placement

variable {first second third : Placement} {used placed laterUsed laterPlaced : Nat}

theorem Used.refl (placement : Placement) : placement.Used placement 0 0 :=
  ⟨⟨[], rfl, rfl, by simp⟩, rfl⟩

theorem Used.trans (earlier : first.Used second used placed)
    (later : second.Used third laterUsed laterPlaced) :
    first.Used third (used + laterUsed) (placed + laterPlaced) := by
  obtain ⟨⟨consumed, split, length, onDisk⟩, curSector⟩ := earlier
  obtain ⟨⟨others, rest, count, alsoOnDisk⟩, final⟩ := later
  constructor
  · refine ⟨consumed ++ others, ?_, ?_, ?_⟩
    · rw [split, rest, List.append_assoc]
    · rw [List.length_append, length, count]
    · intro sector member
      rcases List.mem_append.mp member with before | after
      · exact onDisk sector before
      · exact alsoOnDisk sector after
  · rw [final, curSector, Nat.add_assoc]

/-- The disk plays no part in it. -/
theorem Used.congr {after : Placement} (step : first.Used second used placed)
    (sectorsGet : after.sectorsGet = second.sectorsGet)
    (curSector : after.curSector = second.curSector) :
    first.Used after used placed := by
  obtain ⟨entries, counter⟩ := step
  rw [← sectorsGet] at entries
  rw [← curSector] at counter
  exact ⟨entries, counter⟩

theorem used_of_next {sector : CInt} (done : first.next = .ok (sector, second)) :
    first.Used second 1 0 := by
  obtain ⟨curSector, onDisk⟩ := next_eq_ok done
  unfold next at done
  cases entries : first.sectorsGet with
  | nil => simp [entries] at done
  | cons head rest =>
      rw [entries] at done
      obtain ⟨disk, -, result⟩ := bind_eq_ok_iff.mp done
      obtain ⟨rfl, rfl⟩ := Prod.mk.inj (Except.ok.inj result)
      constructor
      · exact ⟨[head], by rw [entries]; rfl, rfl, by simpa using onDisk⟩
      · exact curSector

theorem used_of_placeData {size numSectors : Nat} {slots : List (Fin size)}
    {table filled : Vector CInt size}
    (done : first.placeData numSectors slots table = .ok (filled, second)) :
    first.Used second (min slots.length (numSectors - first.curSector))
      (min slots.length (numSectors - first.curSector)) := by
  induction slots generalizing table first with
  | nil =>
      obtain ⟨-, rfl⟩ := Prod.mk.inj (Except.ok.inj done)
      simpa using Used.refl first
  | cons slot slots ih =>
      rw [placeData] at done
      split at done
      next more =>
        obtain ⟨⟨sector, middle⟩, taken, rest⟩ := bind_eq_ok_iff.mp done
        obtain ⟨entries, counter⟩ := used_of_next taken
        have one : first.Used { middle with curSector := middle.curSector + 1 } 1 1 :=
          ⟨entries, congrArg (· + 1) counter⟩
        have step := one.trans (ih rest)
        have count : min (slot :: slots).length (numSectors - first.curSector) =
            1 + min slots.length (numSectors - (middle.curSector + 1)) := by
          rw [List.length_cons, counter]
          omega
        rw [count]
        exact step
      next finished =>
        obtain ⟨-, rfl⟩ := Prod.mk.inj (Except.ok.inj done)
        rw [show numSectors - first.curSector = 0 by omega, Nat.min_zero]
        exact Used.refl first

theorem used_of_placeTables {numSectors : Nat} {slots : List (Fin l1IndexNum)}
    {hdrL2Buf filled : IndexTable}
    (done : first.placeTables numSectors slots hdrL2Buf = .ok (filled, second)) :
    first.Used second
      (slots.length + min (l1IndexNum * slots.length) (numSectors - first.curSector))
      (min (l1IndexNum * slots.length) (numSectors - first.curSector)) := by
  induction slots generalizing hdrL2Buf first with
  | nil =>
      obtain ⟨-, rfl⟩ := Prod.mk.inj (Except.ok.inj done)
      simpa using Used.refl first
  | cons slot slots ih =>
      obtain ⟨⟨sector, opened⟩, taken, done⟩ := bind_eq_ok_iff.mp done
      obtain ⟨⟨hdrL1Buf, packed⟩, data, done⟩ := bind_eq_ok_iff.mp done
      obtain ⟨disk, -, rest⟩ := bind_eq_ok_iff.mp done
      have head := used_of_next taken
      have body := used_of_placeData data
      have table := @Used.congr _ _ _ _ { packed with disk := disk }
        (head.trans body) rfl rfl
      have step := table.trans (ih rest)
      have counter := table.curSector
      have opening := head.curSector
      simp only [List.length_finRange] at step counter body
      have total : min (l1IndexNum * (slots.length + 1)) (numSectors - first.curSector) =
          min l1IndexNum (numSectors - opened.curSector) +
            min (l1IndexNum * slots.length) (numSectors - packed.curSector) := by
        rw [counter, opening, Nat.mul_add_one]
        omega
      rw [List.length_cons, total]
      convert step using 1 <;> omega

theorem Used.exists_of_eq (step : first.Used second used placed) {count : Nat}
    (same : used = count) : ∃ after rest, first.Used after count rest :=
  ⟨second, placed, same ▸ step⟩

/-- No entry that was used up is the `-1` of a failed `Find`. -/
theorem Used.neg_one_notMem (step : first.Used second used placed)
    (all : first.sectorsGet.length = used) : -1 ∉ first.sectorsGet := by
  obtain ⟨consumed, split, length, onDisk⟩ := step.entries
  have rest : second.sectorsGet = [] := by
    have lengths := congrArg List.length split
    rw [List.length_append] at lengths
    exact List.eq_nil_of_length_eq_zero (by omega)
  intro member
  rw [split, rest, List.append_nil] at member
  obtain ⟨number, -, value⟩ := onDisk _ member
  have negative : BitVec.toInt (-1 : CInt) = -1 := by decide
  omega

end Placement

namespace FileHeader

variable {header placed : FileHeader} {numSectors : Nat} {placement : Placement}
  {disk : Disk}

theorem used_of_placeL2 (full : placement.curSector = numDirect + l1IndexNum)
    (more : numDirect + l1IndexNum < numSectors)
    (limit : numSectors ≤ numDirect + l1IndexNum + l1IndexNum * l1IndexNum)
    (done : header.placeL2 numSectors placement = .ok (placed, disk)) :
    ∃ after rest, placement.Used after
      (1 + adSectors numSectors + (numSectors - numDirect - l1IndexNum)) rest := by
  obtain ⟨⟨l2Index, opened⟩, taken, done⟩ := bind_eq_ok_iff.mp done
  obtain ⟨⟨hdrL2Buf, after⟩, tables, -⟩ := bind_eq_ok_iff.mp done
  have few := adSectors_le limit
  have enough : numSectors - numDirect - l1IndexNum ≤
      l1IndexNum * adSectors numSectors := by
    rw [adSectors_eq more.le]
    simp only [l1IndexNum, Disk.sectorSize]
    omega
  have head := Placement.used_of_next taken
  have step := head.trans (Placement.used_of_placeTables tables)
  have counter := head.curSector
  apply step.exists_of_eq
  rw [List.length_take, List.length_finRange, Nat.min_eq_left few]
  omega

theorem used_of_placeL1 (full : placement.curSector = numDirect)
    (more : numDirect < numSectors)
    (limit : numSectors ≤ numDirect + l1IndexNum + l1IndexNum * l1IndexNum)
    (done : header.placeL1 numSectors placement = .ok (placed, disk)) :
    ∃ after rest, placement.Used after
      (numSectors - numDirect + indexCount numSectors) rest := by
  obtain ⟨⟨l1Index, opened⟩, taken, done⟩ := bind_eq_ok_iff.mp done
  obtain ⟨⟨hdrL1Buf, filled⟩, table, done⟩ := bind_eq_ok_iff.mp done
  obtain ⟨written, -, done⟩ := bind_eq_ok_iff.mp done
  have step := (Placement.used_of_next taken).trans (Placement.used_of_placeData table)
  have opening := (Placement.used_of_next taken).curSector
  have counter := step.curSector
  simp only [List.length_finRange] at step counter
  unfold indexCount
  rw [if_neg (by omega)]
  split at done
  next further =>
    have whole := @Placement.Used.congr _ _ _ _ { filled with disk := written } step rfl rfl
    obtain ⟨after, rest, later⟩ := used_of_placeL2 (by simp only; omega)
      (by omega) limit done
    apply (whole.trans later).exists_of_eq
    rw [if_neg (by omega), ← adSectors_eq (by omega)]
    omega
  next finished =>
    apply step.exists_of_eq
    rw [if_pos (by omega)]
    omega

/-- A placement that completes used up all the sectors the file needs. -/
theorem used_of_place {sectorsGet : List CInt} {before : Disk}
    (limit : numSectors ≤ numDirect + l1IndexNum + l1IndexNum * l1IndexNum)
    (done : header.place numSectors ⟨sectorsGet, 0, before⟩ = .ok (placed, disk)) :
    ∃ after rest, Placement.Used ⟨sectorsGet, 0, before⟩ after
      (numSectors + indexCount numSectors) rest := by
  obtain ⟨⟨dataSectors, filled⟩, table, done⟩ := bind_eq_ok_iff.mp done
  have step := Placement.used_of_placeData table
  have counter := step.curSector
  simp only [List.length_finRange] at step counter done
  split at done
  next further =>
    obtain ⟨after, rest, later⟩ := used_of_placeL1 (by omega) (by omega) limit done
    apply (step.trans later).exists_of_eq
    omega
  next finished =>
    apply step.exists_of_eq
    rw [indexCount, if_pos (by omega)]
    omega

end FileHeader

end Supply

section Allocate

/-- What an `Allocate` that returns `TRUE` does: it takes the blocks of a file
from the free map and stores them, with zeros as the data. -/
structure Allocation (freeMap freeMap' : BitMap Disk.numSectors) (fileSize : CInt)
    (allocated : FileHeader) (disk disk' : Disk) (blocks : FileBlocks) : Prop where
  numBytes : allocated.numBytes = fileSize
  numSectors : allocated.numSectors =
    BitVec.ofInt 32 (CInt.divRoundUp fileSize.toInt Disk.sectorSize)
  distinct : blocks.sectors.Nodup
  wereClear : ∀ sector ∈ blocks.sectors, freeMap.testBit sector = false
  marked : ∀ sector, freeMap'.testBit sector =
    (decide (sector ∈ blocks.sectors) || freeMap.testBit sector)
  stored : blocks.Stored allocated disk'
  placed : disk.Placed disk' blocks.sectors blocks.data

theorem BitMap.numClear_le (freeMap : BitMap Disk.numSectors) :
    freeMap.numClear ≤ Disk.numSectors := by
  rw [numClear_eq_card]
  simpa using Finset.card_le_univ freeMap.clearSet

namespace FileHeader

variable {header allocated : FileHeader} {freeMap freeMap' : BitMap Disk.numSectors}
  {fileSize : CInt} {disk disk' : Disk}

/-- The number of blocks of a file, as `Allocate` computes it. -/
def blockCount (fileSize : CInt) : CInt :=
  BitVec.ofInt 32 (CInt.divRoundUp fileSize.toInt Disk.sectorSize)

theorem demand_of_enough {numClear numSectors : Nat}
    (limit : numSectors ≤ numDirect + l1IndexNum + l1IndexNum * l1IndexNum)
    (enough : numSectors + indexCount numSectors ≤ numClear) :
    demand numClear numSectors = some (numSectors + indexCount numSectors) := by
  cases decision : demand numClear numSectors with
  | some count => rw [(demand_eq_some decision).2]
  | none =>
      exfalso
      rcases demand_eq_none_iff.mp decision with long | ⟨-, few⟩ | ⟨l2, few⟩
      · omega
      · omega
      · rw [indexCount, if_neg (by omega), if_neg (by omega), ← adSectors_eq l2.le] at enough
        omega

/-- `Allocate` succeeds when there are enough clear bits. -/
theorem allocate_of_enough (header : FileHeader) (disk : Disk)
    (limit : (blockCount fileSize).toNat ≤
      numDirect + l1IndexNum + l1IndexNum * l1IndexNum)
    (enough : (blockCount fileSize).toNat + indexCount (blockCount fileSize).toNat ≤
      freeMap.numClear) :
    ∃ allocated freeMap' disk' blocks,
      header.allocate freeMap fileSize disk = .ok (true, allocated, freeMap', disk') ∧
        Allocation freeMap freeMap' fileSize allocated disk disk' blocks := by
  obtain ⟨found, freeMap', taken, length, distinct, wereClear, marked⟩ :=
    freeMap.findMany_eq _ enough
  obtain ⟨blocks, rfl, count⟩ := FileBlocks.exists_of_length limit length
  let start : FileHeader := { header with
    numBytes := fileSize
    numSectors := blockCount fileSize
    l1Index := -1
    l2Index := -1 }
  have words : start.numSectors = BitVec.ofNat 32 blocks.data.length := by
    rw [count, BitVec.ofNat_toNat, BitVec.setWidth_eq]
  refine ⟨start.withBlocks blocks, freeMap', disk.withBlocks blocks, blocks, ?_, ?_⟩
  · have room : (blockCount fileSize).toNat + indexCount (blockCount fileSize).toNat ≤
        numDirect + l1IndexNum * l1IndexNum := by
      have bound := enough.trans freeMap.numClear_le
      have values : numDirect + l1IndexNum * l1IndexNum = 1054 := by decide
      have size : Disk.numSectors = 1024 := by decide
      omega
    have placed := place_eq start blocks disk
    rw [count] at placed
    have demanded := demand_of_enough limit enough
    unfold blockCount at demanded room taken placed
    unfold allocate
    simp only [demanded, if_pos room, taken]
    change (start.place _ _ >>= _) = _
    rw [placed]
    rfl
  · exact ⟨rfl, rfl, distinct, wereClear, marked,
      FileBlocks.stored_withBlocks distinct words disk, disk.withBlocks_placed distinct⟩

/-- `Allocate` only returns `TRUE` when there were enough clear bits. -/
theorem enough_of_allocate
    (done : header.allocate freeMap fileSize disk =
      .ok (true, allocated, freeMap', disk')) :
    (blockCount fileSize).toNat ≤ numDirect + l1IndexNum + l1IndexNum * l1IndexNum ∧
      (blockCount fileSize).toNat + indexCount (blockCount fileSize).toNat ≤
        freeMap.numClear := by
  unfold allocate at done
  simp only at done
  split at done
  · cases done
  next count demanded =>
    obtain ⟨limit, rfl⟩ := demand_eq_some demanded
    refine ⟨limit, ?_⟩
    split at done
    · obtain ⟨⟨placed, after⟩, placing, -⟩ := bind_eq_ok_iff.mp done
      obtain ⟨final, rest, step⟩ := used_of_place limit placing
      have valid := step.neg_one_notMem (by simp [BitMap.findMany])
      apply BitMap.neg_one_notMem_findEach_iff.mp
      intro failed
      apply valid
      exact List.mem_map.mpr ⟨-1, failed, rfl⟩
    · cases done

theorem allocate_eq_ok_true
    (done : header.allocate freeMap fileSize disk =
      .ok (true, allocated, freeMap', disk')) :
    ∃ blocks, Allocation freeMap freeMap' fileSize allocated disk disk' blocks := by
  obtain ⟨limit, enough⟩ := enough_of_allocate done
  obtain ⟨header', map, after, blocks, succeeds, allocation⟩ :=
    allocate_of_enough header disk limit enough
  rw [done] at succeeds
  obtain ⟨-, rfl, rfl, rfl⟩ : true = true ∧ allocated = header' ∧ freeMap' = map ∧
      disk' = after := by
    simpa only [Except.ok.injEq, Prod.mk.injEq] using succeeds
  exact ⟨blocks, allocation⟩

theorem allocate_of_refused (header : FileHeader) (disk : Disk)
    (refused : demand freeMap.numClear (blockCount fileSize).toNat = none) :
    ∃ allocated, header.allocate freeMap fileSize disk =
      .ok (false, allocated, freeMap, disk) := by
  unfold blockCount at refused
  constructor
  unfold allocate
  simp only [refused]
  rfl

/-- An `Allocate` that returns `FALSE` refused by the number of clear bits. -/
theorem allocate_eq_ok_false
    (done : header.allocate freeMap fileSize disk =
      .ok (false, allocated, freeMap', disk')) :
    demand freeMap.numClear (blockCount fileSize).toNat = none ∧ freeMap' = freeMap ∧
      disk' = disk := by
  unfold allocate at done
  simp only at done
  split at done
  next refused =>
    simp only [Except.ok.injEq, Prod.mk.injEq, true_and] at done
    exact ⟨refused, done.2.1.symm, done.2.2.symm⟩
  next count demanded =>
    split at done
    · obtain ⟨⟨placed, after⟩, -, done⟩ := bind_eq_ok_iff.mp done
      cases done
    · cases done

end FileHeader

end Allocate

section Admission

namespace FileHeader

/-- The blocks of a file of some size. -/
def blocksOf (fileSize : CInt) : Nat :=
  (fileSize.toInt.toNat + Disk.sectorSize - 1) / Disk.sectorSize

theorem toNat_blockCount {fileSize : CInt} (nonnegative : 0 ≤ fileSize.toInt) :
    (blockCount fileSize).toNat = blocksOf fileSize := by
  have value : fileSize.toInt = (fileSize.toInt.toNat : Nat) := by omega
  have small := fileSize.toInt_lt
  rw [blockCount, numSectors_of_size value, BitVec.toNat_ofNat, blocksOf]
  simp only [Disk.sectorSize]
  omega

/-- `Allocate` completes, returns `TRUE` exactly when the data and the index of
the file fit, and changes nothing when it returns `FALSE`. -/
def AdmitsWhatFits (header : FileHeader) (freeMap : BitMap Disk.numSectors)
    (fileSize : CInt) (disk : Disk) : Prop :=
  ∃ result allocated freeMap' disk',
    header.allocate freeMap fileSize disk = .ok (result, allocated, freeMap', disk') ∧
      (result = true ↔
        blocksOf fileSize ≤ numDirect + l1IndexNum + l1IndexNum * l1IndexNum ∧
          blocksOf fileSize + indexCount (blocksOf fileSize) ≤ freeMap.numClear) ∧
      (result = false → freeMap' = freeMap ∧ disk' = disk)

/-- For a file with a second level the test on the number of clear bits does not
depend on the size of the file.  `Allocate` goes wrong when this test passes and
there are too few clear bits. -/
theorem admitsWhatFits_iff {fileSize : CInt} (nonnegative : 0 ≤ fileSize.toInt)
    (header : FileHeader) (freeMap : BitMap Disk.numSectors) (disk : Disk) :
    header.AdmitsWhatFits freeMap fileSize disk ↔
      ¬ (numDirect + l1IndexNum < blocksOf fileSize ∧
        blocksOf fileSize ≤ numDirect + l1IndexNum + l1IndexNum * l1IndexNum ∧
        numDirect + l1IndexNum + 1 < freeMap.numClear ∧
        freeMap.numClear < blocksOf fileSize + indexCount (blocksOf fileSize)) := by
  have count := toNat_blockCount nonnegative
  constructor
  · rintro ⟨result, allocated, freeMap', disk', done, exact, -⟩ ⟨l2, limit, passes, few⟩
    cases result with
    | true =>
        have fits := (exact.mp rfl).2
        omega
    | false =>
        have refused := (allocate_eq_ok_false done).1
        rw [demand_eq_none_iff, count] at refused
        omega
  · intro clear
    by_cases fits : blocksOf fileSize ≤ numDirect + l1IndexNum + l1IndexNum * l1IndexNum ∧
        blocksOf fileSize + indexCount (blocksOf fileSize) ≤ freeMap.numClear
    · obtain ⟨limit, enough⟩ := fits
      rw [← count] at limit enough
      obtain ⟨allocated, freeMap', disk', blocks, done, -⟩ :=
        allocate_of_enough header disk limit enough
      rw [count] at limit enough
      exact ⟨true, allocated, freeMap', disk', done, by simp [limit, enough], by simp⟩
    · have refused : demand freeMap.numClear (blockCount fileSize).toNat = none := by
        rw [demand_eq_none_iff, count]
        omega
      obtain ⟨allocated, done⟩ := allocate_of_refused header disk refused
      exact ⟨false, allocated, freeMap, disk, done, iff_of_false (by decide) fits,
        fun _ => ⟨rfl, rfl⟩⟩

/-- A free map with all its bits clear. -/
def emptyMap : BitMap Disk.numSectors :=
  ⟨Vector.replicate _ 0⟩

theorem numClear_emptyMap : emptyMap.numClear = 1024 := by
  decide +kernel

theorem admitsWhatFits_empty :
    (0 : Int) ≤ (8064 : CInt).toInt ∧
      blank.AdmitsWhatFits emptyMap 8064 Disk.blank := by
  refine ⟨by decide, (admitsWhatFits_iff (by decide) _ _ _).mpr ?_⟩
  rintro ⟨-, -, -, few⟩
  rw [numClear_emptyMap] at few
  exact absurd few (by decide)

/-- A free map with its first 64 bits clear. -/
def nearlyFullMap : BitMap Disk.numSectors :=
  ⟨Vector.ofFn fun word => if word.val < 2 then 0 else BitVec.allOnes 32⟩

/-- A file of 63 blocks needs 66 sectors, but `Allocate` goes on with 64 clear
bits and fails. -/
theorem not_admitsWhatFits_nearlyFull :
    nearlyFullMap.numClear = 64 ∧
      ¬ blank.AdmitsWhatFits nearlyFullMap 8064 Disk.blank ∧
        ∃ fault, blank.allocate nearlyFullMap 8064 Disk.blank = .error fault := by
  have clear : nearlyFullMap.numClear = 64 := by decide +kernel
  have fails : ∃ fault, blank.allocate nearlyFullMap 8064 Disk.blank = .error fault := by
    cases done : blank.allocate nearlyFullMap 8064 Disk.blank with
    | error fault => exact ⟨fault, rfl⟩
    | ok value =>
        obtain ⟨result, allocated, freeMap', disk'⟩ := value
        cases result with
        | true =>
            have enough := (enough_of_allocate done).2
            rw [clear] at enough
            exact absurd enough (by decide)
        | false =>
            have refused := (allocate_eq_ok_false done).1
            rw [clear] at refused
            exact absurd refused (by decide)
  refine ⟨clear, ?_, fails⟩
  rintro ⟨result, allocated, freeMap', disk', done, -⟩
  obtain ⟨fault, failed⟩ := fails
  rw [failed] at done
  cases done

end FileHeader

end Admission

section Index

namespace FileHeader

/-- The sectors of pointers of a file: `L1Index`, `L2Index`, and those that
`L2Index` lists. -/
def indexSectors (header : FileHeader) (disk : Disk) : Except Fault (List CInt) :=
  let numSectors := header.numSectors.toInt.toNat
  if numSectors ≤ numDirect then .ok []
  else if numSectors ≤ numDirect + l1IndexNum then .ok [header.l1Index]
  else do
    let hdrL2Buf ← disk.readTable header.l2Index
    .ok (header.l1Index :: header.l2Index :: hdrL2Buf.toList.take (adSectors numSectors))

end FileHeader

theorem FileBlocks.Stored.indexSectors {blocks : FileBlocks} {header : FileHeader}
    {disk : Disk} (stored : blocks.Stored header disk) (distinct : blocks.sectors.Nodup) :
    header.indexSectors disk = .ok (blocks.index.map pointer) := by
  have count := stored.numSectors_eq distinct
  have bound := blocks.length_le
  unfold FileHeader.indexSectors
  simp only [count]
  unfold data index
  cases level : blocks.l1 with
  | none =>
      simp only [Option.elim_none, List.append_nil]
      exact if_pos bound
  | some l1 =>
      have direct := blocks.full (by rw [level]; rfl)
      have here := stored.l1 l1 level
      have limit := l1.table.length_le
      have nonempty := l1.data_nonempty
      simp only [Option.elim_some, List.length_append, direct]
      rw [if_neg (by omega)]
      unfold L1Blocks.index
      unfold L1Blocks.data at *
      cases further : l1.l2 with
      | none =>
          simp only [Option.elim_none, List.append_nil]
          rw [if_pos (by omega), here.l1Index]
          rfl
      | some l2 =>
          have full := l1.full (by rw [further]; rfl)
          have more := l2.data_nonempty
          obtain ⟨hdrL2Buf, rest, read, list, -⟩ := (here.l2 l2 further).listed.toList
          simp only [Option.elim_some, List.length_append, full]
          rw [if_neg (by omega), (here.l2 l2 further).l2Index, read, ok_bind,
            here.l1Index, ← Nat.add_assoc, FileHeader.adSectors_add, ← l2.length_tables,
            list, List.take_append_of_le_length (by simp), List.take_of_length_le (by simp)]
          rfl

namespace FileHeader

variable {header allocated : FileHeader} {freeMap freeMap' : BitMap Disk.numSectors}
  {fileSize : CInt} {disk disk' : Disk}

/-- The number of blocks of a file that `Allocate` accepts. -/
theorem blockCount_small
    (done : header.allocate freeMap fileSize disk =
      .ok (true, allocated, freeMap', disk')) :
    (blockCount fileSize).toNat ≤ Disk.numSectors := by
  have enough := (enough_of_allocate done).2.trans freeMap.numClear_le
  omega

/-- The header that `Allocate` leaves translates every offset of the file to a
data sector of its own, taken from the clear sectors and cleared; the bits that
were marked are those of the data and of the index, and nothing else changed. -/
theorem allocate_builds_index (nonnegative : 0 ≤ fileSize.toInt)
    (done : header.allocate freeMap fileSize disk =
      .ok (true, allocated, freeMap', disk')) :
    ∃ data index : List SectorNumber,
      allocated.indexSectors disk' = .ok (index.map pointer) ∧
        allocated.numSectors.toInt = data.length ∧
        data.length = blocksOf fileSize ∧ index.length = indexCount data.length ∧
        (∀ offset < data.length * Disk.sectorSize, ∃ sector,
          data[offset / Disk.sectorSize]? = some sector ∧
            allocated.byteToSector disk' (offset : Nat) = .ok (pointer sector)) ∧
        (∀ first < data.length * Disk.sectorSize,
          ∀ second < data.length * Disk.sectorSize,
            allocated.byteToSector disk' (first : Nat) =
                allocated.byteToSector disk' (second : Nat) ↔
              first / Disk.sectorSize = second / Disk.sectorSize) ∧
        (data ++ index).Nodup ∧
        (∀ sector ∈ data ++ index, freeMap.testBit sector = false) ∧
        (∀ sector, freeMap'.testBit sector =
          (decide (sector ∈ data ++ index) || freeMap.testBit sector)) ∧
        (∀ sector ∈ data, disk' sector.val = Sector.zero) ∧
        disk.AgreeOutside (data ++ index) disk' := by
  obtain ⟨blocks, allocation⟩ := allocate_eq_ok_true done
  have perm := blocks.sectors_perm
  have distinct := perm.nodup_iff.mp allocation.distinct
  have small := blockCount_small done
  have size : Disk.numSectors = 1024 := by decide
  have count : blocks.data.length = blocksOf fileSize := by
    have words := allocation.stored.numSectors.symm.trans allocation.numSectors
    have values := congrArg BitVec.toNat words
    have bound := FileBlocks.length_data_le allocation.distinct
    rw [BitVec.toNat_ofNat] at values
    rw [← toNat_blockCount nonnegative, blockCount, ← values]
    omega
  have found : ∀ offset < blocks.data.length * Disk.sectorSize, ∃ sector,
      blocks.data[offset / Disk.sectorSize]? = some sector ∧
        allocated.byteToSector disk' (offset : Nat) = .ok (pointer sector) := by
    intro offset inside
    have block := Nat.div_lt_of_lt_mul (Nat.mul_comm _ _ ▸ inside)
    have entry := List.getElem?_eq_getElem block
    exact ⟨_, entry, allocation.stored.byteToSector entry⟩
  refine ⟨blocks.data, blocks.index, ?_, ?_, count, blocks.length_index, found, ?_,
    distinct, ?_, ?_, allocation.placed.zero, ?_⟩
  · exact allocation.stored.indexSectors allocation.distinct
  · have bound := FileBlocks.length_data_le allocation.distinct
    rw [allocation.stored.numSectors, CInt.toInt_ofNat_of_lt (by omega)]
  · intro first inFirst second inSecond
    obtain ⟨sector, entry, here⟩ := found first inFirst
    obtain ⟨other, otherEntry, there⟩ := found second inSecond
    rw [here, there]
    constructor
    · intro same
      obtain rfl := pointer_injective (Except.ok.inj same)
      have block := Nat.div_lt_of_lt_mul (Nat.mul_comm _ _ ▸ inFirst)
      exact (List.getElem?_inj block (List.nodup_append.mp distinct).1).mp
        (entry.trans otherEntry.symm)
    · intro same
      rw [same, otherEntry] at entry
      rw [Option.some.inj entry]
  · intro sector member
    exact allocation.wereClear sector (perm.mem_iff.mpr member)
  · intro sector
    rw [allocation.marked, decide_eq_decide.mpr perm.mem_iff]
  · intro sector outside
    exact allocation.placed.outside sector fun member inside =>
      outside member (perm.mem_iff.mp inside)

/-- A file of 65 blocks on an empty disk. -/
theorem exists_allocate :
    ∃ allocated freeMap' disk', blank.allocate emptyMap 8200 Disk.blank =
      .ok (true, allocated, freeMap', disk') := by
  obtain ⟨allocated, freeMap', disk', -, done, -⟩ :=
    @allocate_of_enough emptyMap 8200 blank Disk.blank (by decide)
      (by rw [numClear_emptyMap]; decide)
  exact ⟨allocated, freeMap', disk', done⟩

theorem allocate_builds_index_l2 :
    ∃ allocated freeMap' disk', blank.allocate emptyMap 8200 Disk.blank =
        .ok (true, allocated, freeMap', disk') ∧
      ∃ data index : List SectorNumber, data.length = 65 ∧ index.length = 3 ∧
        allocated.indexSectors disk' = .ok (index.map pointer) ∧
        ∀ sector, freeMap'.testBit sector =
          (decide (sector ∈ data ++ index) || emptyMap.testBit sector) := by
  obtain ⟨allocated, freeMap', disk', done⟩ := exists_allocate
  obtain ⟨data, index, stored, -, count, length, -, -, -, -, marked, -⟩ :=
    allocate_builds_index (by decide) done
  have blocks : data.length = 65 := count.trans (by decide)
  exact ⟨allocated, freeMap', disk', done, data, index, blocks,
    by rw [length, blocks]; decide, stored, marked⟩

/-- `Deallocate` gives back what `Allocate` took, whatever was written to the
data of the file in between. -/
theorem deallocate_undoes_allocate
    (done : header.allocate freeMap fileSize disk =
      .ok (true, allocated, freeMap', disk'))
    (later : Disk)
    (own : ∀ sector : Nat,
      (∀ offset < allocated.numSectors.toInt.toNat * Disk.sectorSize,
        allocated.byteToSector disk' (offset : Nat) ≠ .ok (BitVec.ofNat 32 sector)) →
      later sector = disk' sector) :
    allocated.deallocate freeMap' later = .ok freeMap := by
  obtain ⟨blocks, allocation⟩ := allocate_eq_ok_true done
  have perm := blocks.sectors_perm
  have distinct := perm.nodup_iff.mp allocation.distinct
  have stored : blocks.Stored allocated later := by
    apply allocation.stored.congr
    intro sector isIndex
    apply own
    intro offset inside same
    rw [allocation.stored.numSectors_eq allocation.distinct] at inside
    have block := Nat.div_lt_of_lt_mul (Nat.mul_comm _ _ ▸ inside)
    rw [allocation.stored.byteToSector (List.getElem?_eq_getElem block)] at same
    have isData := List.getElem_mem block
    rw [pointer_injective (Except.ok.inj same)] at isData
    exact (List.nodup_append.mp distinct).2.2 sector isData sector isIndex rfl
  have marked : ∀ sector ∈ blocks.sectors, freeMap'.testBit sector = true := by
    intro sector member
    simp [allocation.marked, member]
  rw [deallocate_eq stored allocation.distinct marked]
  congr 1
  apply BitMap.ext_testBit (by decide)
  intro sector
  rw [BitMap.testBit_clearEach, allocation.marked]
  by_cases member : sector ∈ blocks.sectors
  · simp [member, blocks.freed_perm.mem_iff, allocation.wereClear sector member]
  · simp [member, blocks.freed_perm.mem_iff]

theorem deallocate_undoes_allocate_l2 :
    ∃ allocated freeMap' disk', blank.allocate emptyMap 8200 Disk.blank =
        .ok (true, allocated, freeMap', disk') ∧
      allocated.deallocate freeMap' disk' = .ok emptyMap := by
  obtain ⟨allocated, freeMap', disk', done⟩ := exists_allocate
  exact ⟨allocated, freeMap', disk', done,
    deallocate_undoes_allocate done disk' fun _ _ => rfl⟩

end FileHeader

end Index

end Nachos
