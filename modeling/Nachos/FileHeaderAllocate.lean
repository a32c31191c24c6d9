import Nachos.FileHeader

/-!
# Allocation of the sectors of a file

`FileHeader::Allocate` first takes as many sectors from the free map as the file
needs, data and pointers together, and then places them one after another in the
header and in the sectors of pointers.
-/

namespace Nachos

open LittleEndianWords TransitionRuns

/-- `Find` called `count` times; the results go to `sectorsGet`. -/
def BitMap.findMany (count : Nat) (freeMap : BitMap Disk.numSectors) :
    List CInt × BitMap Disk.numSectors :=
  let (found, freeMap) := freeMap.findEach count
  (found.map (BitVec.ofInt 32), freeMap)

/-- The variables of the second half of `Allocate`.  Only the entries of
`sectorsGet` from `getNum` on are kept. -/
structure Placement where
  sectorsGet : List CInt
  curSector : Nat
  disk : Disk

namespace Placement

/-- `sectorsGet[getNum++]`, which is cleared at once wherever it is placed. -/
def next (placement : Placement) : Except Fault (CInt × Placement) :=
  match placement.sectorsGet with
  | [] => .error .outOfBounds
  | sector :: sectorsGet => do
      let disk ← FileHeader.clearSector placement.disk sector
      .ok (sector, { placement with sectorsGet := sectorsGet, disk := disk })

/-- The loops that fill a table of data sectors. -/
def placeData {size : Nat} (numSectors : Nat) :
    List (Fin size) → Vector CInt size → Placement →
      Except Fault (Vector CInt size × Placement)
  | [], table, placement => .ok (table, placement)
  | slot :: slots, table, placement =>
      if placement.curSector < numSectors then do
        let (sector, placement) ← placement.next
        placeData numSectors slots (table.set slot.val sector slot.isLt)
          { placement with curSector := placement.curSector + 1 }
      else .ok (table, placement)

/-- The loop that fills `hdrL2Buf`: each of its entries is a further table of
data sectors. -/
def placeTables (numSectors : Nat) :
    List (Fin l1IndexNum) → IndexTable → Placement →
      Except Fault (IndexTable × Placement)
  | [], hdrL2Buf, placement => .ok (hdrL2Buf, placement)
  | slot :: slots, hdrL2Buf, placement => do
      let (sector, placement) ← placement.next
      let (hdrL1Buf, placement) ←
        placeData numSectors (List.finRange l1IndexNum) IndexTable.empty placement
      let disk ← placement.disk.writeTable sector hdrL1Buf
      placeTables numSectors slots (hdrL2Buf.set slot.val sector)
        { placement with disk := disk }

end Placement

namespace FileHeader

/-- `adSector`: the tables that `hdrL2Buf` points to. -/
def adSectors (numSectors : Nat) : Nat :=
  let pointers := numSectors - numDirect - l1IndexNum
  pointers / l1IndexNum + if pointers % l1IndexNum > 0 then 1 else 0

/-- The tests of `Allocate` on the number of clear bits: the number of sectors
it takes, or `none` where `result` becomes `FALSE`.  The constants are unsigned,
so `numSectors` is compared with them as an unsigned number. -/
def demand (numClear numSectors : Nat) : Option Nat :=
  if numSectors > numDirect then
    if numSectors > numDirect + l1IndexNum then
      if numSectors > numDirect + l1IndexNum + l1IndexNum * l1IndexNum then none
      else if numClear ≤ numDirect + adSectors numSectors + 1 then none
      else if numClear ≤ numDirect + l1IndexNum + 1 then none
      else some (numSectors + adSectors numSectors + 2)
    else if numClear < numSectors + 1 then none
    else some (numSectors + 1)
  else if numClear < numSectors then none
  else some numSectors

/-- The second half of `Allocate` from the comment `L2 here` on. -/
def placeL2 (header : FileHeader) (numSectors : Nat) (placement : Placement) :
    Except Fault (FileHeader × Disk) := do
  let (l2Index, placement) ← placement.next
  let (hdrL2Buf, placement) ← placement.placeTables numSectors
    ((List.finRange l1IndexNum).take (adSectors numSectors)) IndexTable.empty
  let disk ← placement.disk.writeTable l2Index hdrL2Buf
  .ok ({ header with l2Index := l2Index }, disk)

/-- The second half of `Allocate` after the direct pointers. -/
def placeL1 (header : FileHeader) (numSectors : Nat) (placement : Placement) :
    Except Fault (FileHeader × Disk) := do
  let (l1Index, placement) ← placement.next
  let (hdrL1Buf, placement) ←
    placement.placeData numSectors (List.finRange l1IndexNum) IndexTable.empty
  let disk ← placement.disk.writeTable l1Index hdrL1Buf
  if placement.curSector < numSectors then
    placeL2 { header with l1Index := l1Index } numSectors
      { placement with disk := disk }
  else .ok ({ header with l1Index := l1Index }, disk)

/-- The second half of `Allocate`. -/
def place (header : FileHeader) (numSectors : Nat) (placement : Placement) :
    Except Fault (FileHeader × Disk) := do
  let (dataSectors, placement) ←
    placement.placeData numSectors (List.finRange numDirect) header.dataSectors
  if placement.curSector < numSectors then
    placeL1 { header with dataSectors := dataSectors } numSectors placement
  else .ok ({ header with dataSectors := dataSectors }, placement.disk)

/-- `FileHeader::Allocate`. -/
def allocate (header : FileHeader) (freeMap : BitMap Disk.numSectors)
    (fileSize : CInt) (disk : Disk) :
    Except Fault (Bool × FileHeader × BitMap Disk.numSectors × Disk) :=
  let numSectors : CInt :=
    BitVec.ofInt 32 (CInt.divRoundUp fileSize.toInt Disk.sectorSize)
  let header := { header with
    numBytes := fileSize, numSectors := numSectors, l1Index := -1, l2Index := -1 }
  match demand freeMap.numClear numSectors.toNat with
  | none => .ok (false, header, freeMap, disk)
  | some count =>
      if count ≤ numDirect + l1IndexNum * l1IndexNum then do
        let (sectorsGet, freeMap) := freeMap.findMany count
        let (header, disk) ← header.place numSectors.toNat ⟨sectorsGet, 0, disk⟩
        .ok (true, header, freeMap, disk)
      else .error .outOfBounds

/-- `ASSERT(freeMap->Test(...))`. -/
def assertMarked (freeMap : BitMap Disk.numSectors) (sector : CInt) :
    Except Fault Unit := do
  let marked ← freeMap.test sector.toInt
  if marked then .ok () else .error .assertion

/-- The loops of `Deallocate` over a table of data sectors, with `curSector`. -/
def clearData (numSectors : Nat) : List CInt → Nat → BitMap Disk.numSectors →
    Except Fault (Nat × BitMap Disk.numSectors)
  | [], curSector, freeMap => .ok (curSector, freeMap)
  | sector :: sectors, curSector, freeMap =>
      if curSector < numSectors then do
        assertMarked freeMap sector
        let freeMap ← freeMap.clear sector.toInt
        clearData numSectors sectors (curSector + 1) freeMap
      else .ok (curSector, freeMap)

/-- The loop of `Deallocate` over `hdrL2Buf`; its index is not bounded. -/
def clearTables (numSectors : Nat) (disk : Disk) : List CInt → Nat →
    BitMap Disk.numSectors → Except Fault (BitMap Disk.numSectors)
  | [], curSector, freeMap =>
      if curSector < numSectors then .error .outOfBounds else .ok freeMap
  | sector :: sectors, curSector, freeMap =>
      if curSector < numSectors then do
        assertMarked freeMap sector
        let hdrL1Buf ← disk.readTable sector
        let (curSector, freeMap) ← clearData numSectors hdrL1Buf.toList curSector freeMap
        let freeMap ← freeMap.clear sector.toInt
        clearTables numSectors disk sectors curSector freeMap
      else .ok freeMap

def clearL2 (header : FileHeader) (numSectors curSector : Nat) (disk : Disk)
    (freeMap : BitMap Disk.numSectors) : Except Fault (BitMap Disk.numSectors) := do
  assertMarked freeMap header.l2Index
  let hdrL2Buf ← disk.readTable header.l2Index
  let freeMap ← clearTables numSectors disk hdrL2Buf.toList curSector freeMap
  freeMap.clear header.l2Index.toInt

def clearL1 (header : FileHeader) (numSectors curSector : Nat) (disk : Disk)
    (freeMap : BitMap Disk.numSectors) : Except Fault (BitMap Disk.numSectors) := do
  assertMarked freeMap header.l1Index
  let hdrL1Buf ← disk.readTable header.l1Index
  let (curSector, freeMap) ← clearData numSectors hdrL1Buf.toList curSector freeMap
  let freeMap ←
    if curSector < numSectors then clearL2 header numSectors curSector disk freeMap
    else .ok freeMap
  freeMap.clear header.l1Index.toInt

/-- `FileHeader::Deallocate`. -/
def deallocate (header : FileHeader) (freeMap : BitMap Disk.numSectors)
    (disk : Disk) : Except Fault (BitMap Disk.numSectors) := do
  let numSectors := header.numSectors.toInt.toNat
  let (curSector, freeMap) ← clearData numSectors header.dataSectors.toList 0 freeMap
  if curSector < numSectors then clearL1 header numSectors curSector disk freeMap
  else .ok freeMap

end FileHeader

section Find

variable {freeMap : BitMap Disk.numSectors}

/-- The sectors that `Find` returns were clear, are distinct, and are marked
afterwards. -/
theorem BitMap.findMany_eq (count : Nat) (enough : count ≤ freeMap.numClear) :
    ∃ (found : List SectorNumber) (after : BitMap Disk.numSectors),
      freeMap.findMany count = (found.map pointer, after) ∧
        found.length = count ∧ found.Nodup ∧
        (∀ sector ∈ found, freeMap.testBit sector = false) ∧
        ∀ sector, after.testBit sector =
          (decide (sector ∈ found) || freeMap.testBit sector) := by
  obtain ⟨found, after, all, length, nodup, wereClear, marked⟩ :=
    findEach_eq count enough
  refine ⟨found, after, ?_, length, nodup, wereClear, marked⟩
  rw [findMany, all]
  simp [pointer, Function.comp_def]

/-- Marking a list of sectors uses up at most so many clear ones. -/
theorem BitMap.numClear_le_add {after : BitMap Disk.numSectors}
    {sectors : List SectorNumber}
    (marked : ∀ sector, after.testBit sector =
      (decide (sector ∈ sectors) || freeMap.testBit sector)) :
    freeMap.numClear ≤ after.numClear + sectors.length := by
  have covered : freeMap.clearSet ⊆ after.clearSet ∪ sectors.toFinset := by
    intro sector clear
    rw [mem_clearSet] at clear
    by_cases member : sector ∈ sectors
    · simp [member]
    · simp [marked, member, clear]
  have bound := (Finset.card_le_card covered).trans (Finset.card_union_le _ _)
  have length := List.toFinset_card_le sectors
  rw [numClear_eq_card, numClear_eq_card]
  omega

end Find

section Placing

/-- The disk after zeros were written to the listed sectors. -/
def Disk.cleared (disk : Disk) (sectors : List SectorNumber) : Disk :=
  sectors.foldl (fun disk sector => Function.update disk sector.val Sector.zero) disk

theorem Disk.cleared_agreeOutside (disk : Disk) (sectors : List SectorNumber)
    (sector : Nat) (outside : ∀ member ∈ sectors, member.val ≠ sector) :
    disk.cleared sectors sector = disk sector := by
  induction sectors generalizing disk with
  | nil => rfl
  | cons head sectors ih =>
      have later := ih (Function.update disk head.val Sector.zero)
        fun member inside => outside member (by simp [inside])
      rw [cleared, List.foldl_cons]
      exact later.trans (Function.update_of_ne (outside head (by simp)).symm _ _)

theorem Disk.cleared_eq_zero (disk : Disk) {sectors : List SectorNumber}
    {sector : SectorNumber} (member : sector ∈ sectors) :
    disk.cleared sectors sector.val = Sector.zero := by
  induction sectors generalizing disk with
  | nil => simp at member
  | cons head sectors ih =>
      by_cases later : sector ∈ sectors
      · exact ih _ later
      · have outside : ∀ other ∈ sectors, other.val ≠ sector.val := fun other inside same =>
          later (Fin.ext same ▸ inside)
        have kept := Disk.cleared_agreeOutside
          (Function.update disk head.val Sector.zero) sectors sector.val outside
        obtain rfl := (List.mem_cons.mp member).resolve_right later
        exact kept.trans (Function.update_self _ _ _)

theorem FileHeader.clearSector_pointer (disk : Disk) (sector : SectorNumber) :
    clearSector disk (pointer sector) =
      .ok (Function.update disk sector.val Sector.zero) := by
  rw [clearSector, Disk.writeSector_pointer disk sector (by simp)]
  rfl

/-- The table that the first loop fills. -/
def Placement.filled {size : Nat} (table : Vector CInt size) :
    List (Fin size) → List SectorNumber → Vector CInt size
  | slot :: slots, sector :: sectors =>
      filled (table.set slot.val (pointer sector) slot.isLt) slots sectors
  | _, _ => table

/-- The loop places sectors until it runs out of slots or of data. -/
theorem Placement.placeData_of_le {size numSectors : Nat} (slots : List (Fin size))
    (table : Vector CInt size) (sectors : List SectorNumber) (rest : List CInt)
    (curSector : Nat) (disk : Disk) (fits : sectors.length ≤ slots.length)
    (inFile : curSector + sectors.length ≤ numSectors)
    (stops : sectors.length = slots.length ∨ curSector + sectors.length = numSectors) :
    placeData numSectors slots table ⟨sectors.map pointer ++ rest, curSector, disk⟩ =
      .ok (filled table slots sectors,
        ⟨rest, curSector + sectors.length, disk.cleared sectors⟩) := by
  induction slots generalizing table sectors curSector disk with
  | nil =>
      obtain rfl := List.eq_nil_of_length_eq_zero (Nat.le_zero.mp fits)
      rfl
  | cons slot slots ih =>
      cases sectors with
      | nil =>
          have done : ¬ curSector < numSectors := by
            simp only [List.length_nil, List.length_cons] at stops
            omega
          rw [placeData, if_neg done]
          rfl
      | cons sector sectors =>
          simp only [List.length_cons] at fits inFile stops
          have total : curSector + (sector :: sectors).length =
              curSector + 1 + sectors.length := by
            rw [List.length_cons]
            omega
          have inside : curSector < numSectors := by omega
          have later := ih (table.set slot.val (pointer sector)) sectors (curSector + 1)
            (Function.update disk sector.val Sector.zero)
            (by omega) (by omega) (by omega)
          rw [placeData, if_pos inside, total, next]
          simp only [List.map_cons, List.cons_append, FileHeader.clearSector_pointer,
            ok_bind]
          exact later

theorem Placement.placeData_eq {size : Nat} (slots : List (Fin size))
    (table : Vector CInt size) (sectors rest : List SectorNumber) (curSector : Nat)
    (disk : Disk) (fits : sectors.length ≤ slots.length) :
    placeData (curSector + sectors.length) slots table
        ⟨sectors.map pointer ++ rest.map pointer, curSector, disk⟩ =
      .ok (filled table slots sectors,
        ⟨rest.map pointer, curSector + sectors.length, disk.cleared sectors⟩) :=
  placeData_of_le slots table sectors _ curSector disk fits (Nat.le_refl _) (Or.inr rfl)

theorem Placement.getElem_filled {size : Nat} {slots : List (Fin size)}
    (distinct : slots.Nodup) (table : Vector CInt size) (sectors : List SectorNumber)
    {index : Nat} (inSlots : index < slots.length) (inSectors : index < sectors.length) :
    (filled table slots sectors)[slots[index].val] = pointer sectors[index] := by
  induction slots generalizing table sectors index with
  | nil => simp at inSlots
  | cons slot slots ih =>
      obtain ⟨fresh, distinct⟩ := List.nodup_cons.mp distinct
      cases sectors with
      | nil => simp at inSectors
      | cons sector sectors =>
          cases index with
          | zero =>
              have kept : ∀ (slots : List (Fin size)) (table : Vector CInt size)
                  (sectors : List SectorNumber), slot ∉ slots →
                    (filled table slots sectors)[slot.val] = table[slot.val] := by
                intro slots
                induction slots with
                | nil => intro table sectors _; rfl
                | cons other slots ih =>
                    intro table sectors absent
                    cases sectors with
                    | nil => rfl
                    | cons sector sectors =>
                        have different : other.val ≠ slot.val := fun same =>
                          absent (by simp [Fin.ext same])
                        rw [filled, ih _ _ (fun member => absent (by simp [member])),
                          Vector.getElem_set_ne _ _ different]
              simp only [List.getElem_cons_zero, filled]
              rw [kept slots _ sectors fresh, Vector.getElem_set_self]
          | succ index =>
              simp only [List.getElem_cons_succ, filled]
              exact ih distinct _ sectors (by simpa using inSlots) (by simpa using inSectors)

end Placing

section Direct

/-- The header lists the sectors among its direct pointers. -/
structure FileHeader.Direct (header : FileHeader) (sectors : List SectorNumber) :
    Prop where
  length_le : sectors.length ≤ numDirect
  numSectors : header.numSectors = BitVec.ofNat 32 sectors.length
  dataSectors : ∀ (index : Nat) (inside : index < sectors.length)
    (within : index < numDirect),
      header.dataSectors[index] = pointer sectors[index]

namespace FileHeader

theorem demand_direct {numClear numSectors : Nat} (direct : numSectors ≤ numDirect) :
    demand numClear numSectors =
      if numClear < numSectors then none else some numSectors := by
  rw [demand, if_neg (by omega)]

theorem place_direct (header : FileHeader) {sectors : List SectorNumber}
    (direct : sectors.length ≤ numDirect) (disk : Disk) :
    header.place sectors.length ⟨sectors.map pointer, 0, disk⟩ =
      .ok ({ header with dataSectors := (Placement.filled header.dataSectors
          (List.finRange numDirect) sectors) }, disk.cleared sectors) := by
  have placed := Placement.placeData_eq (List.finRange numDirect) header.dataSectors
    sectors [] 0 disk (by simpa using direct)
  simp only [List.map_nil, List.append_nil, Nat.zero_add] at placed
  rw [place, placed, ok_bind]
  exact if_neg (by simp)

theorem numSectors_of_size {fileSize : CInt} {size : Nat} (value : fileSize.toInt = size) :
    BitVec.ofInt 32 (CInt.divRoundUp fileSize.toInt Disk.sectorSize) =
      BitVec.ofNat 32 ((size + Disk.sectorSize - 1) / Disk.sectorSize) := by
  rw [value, CInt.divRoundUp_natCast (by decide), BitVec.ofInt_natCast]

/-- `Allocate` for a file that the direct pointers reach: it takes one clear
sector for each block, or refuses when there are too few. -/
theorem allocate_direct (header : FileHeader) (freeMap : BitMap Disk.numSectors)
    (disk : Disk) {fileSize : CInt} {size : Nat} (value : fileSize.toInt = size)
    (small : size ≤ numDirect * Disk.sectorSize) :
    (freeMap.numClear < (size + Disk.sectorSize - 1) / Disk.sectorSize ∧
      ∃ refused, header.allocate freeMap fileSize disk =
        .ok (false, refused, freeMap, disk)) ∨
      ∃ (sectors : List SectorNumber) (allocated : FileHeader)
          (after : BitMap Disk.numSectors),
        header.allocate freeMap fileSize disk =
            .ok (true, allocated, after, disk.cleared sectors) ∧
          sectors.length = (size + Disk.sectorSize - 1) / Disk.sectorSize ∧
          sectors.Nodup ∧
          (∀ sector ∈ sectors, freeMap.testBit sector = false) ∧
          (∀ sector, after.testBit sector =
            (decide (sector ∈ sectors) || freeMap.testBit sector)) ∧
          allocated.fileLength = fileSize ∧ allocated.Direct sectors := by
  generalize blocks : (size + Disk.sectorSize - 1) / Disk.sectorSize = count
  have direct : count ≤ numDirect := by
    simp only [numDirect, Disk.sectorSize] at *
    omega
  have count32 : (BitVec.ofNat 32 count).toNat = count := by
    rw [BitVec.toNat_ofNat]
    simp only [numDirect, Disk.sectorSize] at direct
    omega
  unfold allocate
  simp only [numSectors_of_size value, blocks, count32, demand_direct direct]
  by_cases few : freeMap.numClear < count
  · exact Or.inl ⟨few, _, by rw [if_pos few]⟩
  · right
    obtain ⟨sectors, after, found, length, nodup, wereClear, marked⟩ :=
      @BitMap.findMany_eq freeMap count (Nat.not_lt.mp few)
    subst length
    let allocated : FileHeader := { header with
      numBytes := fileSize
      numSectors := BitVec.ofNat 32 sectors.length
      dataSectors :=
        (Placement.filled header.dataSectors (List.finRange numDirect) sectors)
      l1Index := -1
      l2Index := -1 }
    refine ⟨sectors, allocated, after, ?_, rfl, nodup, wereClear, marked, rfl, ?_⟩
    · rw [if_neg few]
      have room : sectors.length ≤ numDirect + l1IndexNum * l1IndexNum := by omega
      simp only [if_pos room, found, place_direct _ direct, ok_bind]
      rfl
    · constructor
      · exact direct
      · rfl
      · intro index inside within
        have slot : index < (List.finRange numDirect).length := by simpa using within
        have placed := Placement.getElem_filled (List.nodup_finRange numDirect)
          header.dataSectors sectors slot inside
        simpa using placed

theorem assertMarked_pointer {freeMap : BitMap Disk.numSectors}
    {sector : SectorNumber} (marked : freeMap.testBit sector = true) :
    assertMarked freeMap (pointer sector) = .ok () := by
  have test : freeMap.test (pointer sector).toInt = .ok true := by
    rw [toInt_pointer, BitMap.test, BitMap.index_of_fin]
    exact congrArg _ marked
  rw [assertMarked, test]
  rfl

theorem clear_pointer (freeMap : BitMap Disk.numSectors) (sector : SectorNumber) :
    freeMap.clear (pointer sector).toInt = .ok (freeMap.clearBit sector) := by
  rw [toInt_pointer, BitMap.clear, BitMap.index_of_fin]
  rfl

/-- The loop clears sectors until it runs out of pointers or of data. -/
theorem clearData_of_le {numSectors : Nat} (sectors : List SectorNumber)
    (rest : List CInt) (curSector : Nat) (freeMap : BitMap Disk.numSectors)
    (distinct : sectors.Nodup) (marked : ∀ sector ∈ sectors, freeMap.testBit sector = true)
    (inFile : curSector + sectors.length ≤ numSectors)
    (stops : rest = [] ∨ curSector + sectors.length = numSectors) :
    clearData numSectors (sectors.map pointer ++ rest) curSector freeMap =
      .ok (curSector + sectors.length, freeMap.clearEach sectors) := by
  induction sectors generalizing curSector freeMap with
  | nil =>
      cases rest with
      | nil => rfl
      | cons sector rest =>
          have done : ¬ curSector < numSectors := by
            simp only [List.length_nil, reduceCtorEq, false_or] at stops
            omega
          rw [List.map_nil, List.nil_append, clearData, if_neg done]
          rfl
  | cons head sectors ih =>
      obtain ⟨fresh, distinct⟩ := List.nodup_cons.mp distinct
      rw [List.length_cons] at inFile stops
      have total : curSector + (head :: sectors).length =
          curSector + 1 + sectors.length := by
        rw [List.length_cons]
        omega
      have later := ih (curSector + 1) (freeMap.clearBit head) distinct
        (fun sector member => by
          have different : sector ≠ head := fun same => fresh (same ▸ member)
          simp [different, marked sector (by simp [member])])
        (by omega) (stops.imp_right (by omega))
      rw [total, List.map_cons, List.cons_append, clearData, if_pos (by omega),
        assertMarked_pointer (marked head (by simp)), ok_bind, clear_pointer, ok_bind]
      exact later

theorem clearData_eq (sectors : List SectorNumber) (rest : List CInt) (curSector : Nat)
    (freeMap : BitMap Disk.numSectors) (distinct : sectors.Nodup)
    (marked : ∀ sector ∈ sectors, freeMap.testBit sector = true) :
    ∃ after, clearData (curSector + sectors.length) (sectors.map pointer ++ rest)
        curSector freeMap = .ok (curSector + sectors.length, after) ∧
      ∀ sector, after.testBit sector =
        (decide (sector ∉ sectors) && freeMap.testBit sector) :=
  ⟨_, clearData_of_le sectors rest curSector freeMap distinct marked (Nat.le_refl _)
    (Or.inr rfl), BitMap.testBit_clearEach freeMap sectors⟩

theorem Direct.dataSectors_toList {header : FileHeader} {sectors : List SectorNumber}
    (direct : header.Direct sectors) :
    ∃ rest, header.dataSectors.toList = sectors.map pointer ++ rest := by
  refine ⟨header.dataSectors.toList.drop sectors.length, ?_⟩
  conv_lhs => rw [← List.take_append_drop sectors.length header.dataSectors.toList]
  congr 1
  have length := direct.length_le
  apply List.ext_getElem
  · simpa using length
  · intro index inTake inSectors
    have inside : index < sectors.length := by simpa using inSectors
    simpa using direct.dataSectors index inside (by omega)

/-- `Deallocate` of a file that only has direct pointers clears its sectors. -/
theorem deallocate_direct {header : FileHeader} {sectors : List SectorNumber}
    (direct : header.Direct sectors) (distinct : sectors.Nodup)
    {freeMap : BitMap Disk.numSectors}
    (marked : ∀ sector ∈ sectors, freeMap.testBit sector = true) (disk : Disk) :
    ∃ after, header.deallocate freeMap disk = .ok after ∧
      ∀ sector, after.testBit sector =
        (decide (sector ∉ sectors) && freeMap.testBit sector) := by
  have length := direct.length_le
  simp only [numDirect, Disk.sectorSize] at length
  have count : header.numSectors.toInt.toNat = sectors.length := by
    rw [direct.numSectors, CInt.toInt_ofNat_of_lt (by omega), Int.toNat_natCast]
  obtain ⟨rest, table⟩ := direct.dataSectors_toList
  obtain ⟨after, cleared, bits⟩ := clearData_eq sectors rest 0 freeMap distinct marked
  refine ⟨after, ?_, bits⟩
  rw [Nat.zero_add] at cleared
  rw [deallocate, count, table]
  simp only [cleared, ok_bind]
  exact if_neg (by simp)

end FileHeader

end Direct

section Inversion

theorem Placement.next_eq_ok {placement after : Placement} {sector : CInt}
    (done : placement.next = .ok (sector, after)) :
    after.curSector = placement.curSector ∧
      ∃ number < Disk.numSectors, sector.toInt = (number : Nat) := by
  unfold Placement.next at done
  cases unread : placement.sectorsGet with
  | nil => simp [unread] at done
  | cons head rest =>
      rw [unread] at done
      obtain ⟨disk, cleared, result⟩ := bind_eq_ok_iff.mp done
      obtain ⟨rfl, rfl⟩ := Prod.mk.inj (Except.ok.inj result)
      obtain ⟨number, onDisk, address, -⟩ := Disk.writeSector_eq_ok cleared
      exact ⟨rfl, number, onDisk, address⟩

/-- The loop places at most one data sector in each slot. -/
theorem Placement.placeData_curSector_le {size : Nat} {numSectors : Nat}
    {slots : List (Fin size)} {table filled : Vector CInt size}
    {placement after : Placement}
    (done : placement.placeData numSectors slots table = .ok (filled, after)) :
    after.curSector ≤ placement.curSector + slots.length := by
  induction slots generalizing table placement with
  | nil =>
      obtain ⟨-, rfl⟩ := Prod.mk.inj (Except.ok.inj done)
      simp
  | cons slot slots ih =>
      rw [Placement.placeData] at done
      split at done
      · obtain ⟨⟨sector, middle⟩, taken, rest⟩ := bind_eq_ok_iff.mp done
        have later := ih rest
        have same := (Placement.next_eq_ok taken).1
        simp only [List.length_cons]
        simp only at later
        omega
      · obtain ⟨-, rfl⟩ := Prod.mk.inj (Except.ok.inj done)
        simp

namespace FileHeader

theorem placeL2_eq_ok {header placed : FileHeader} {numSectors : Nat}
    {placement : Placement} {disk : Disk}
    (done : header.placeL2 numSectors placement = .ok (placed, disk)) :
    ∃ l2Index, placed = { header with l2Index := l2Index } := by
  obtain ⟨⟨l2Index, first⟩, -, done⟩ := bind_eq_ok_iff.mp done
  obtain ⟨⟨hdrL2Buf, second⟩, -, done⟩ := bind_eq_ok_iff.mp done
  obtain ⟨written, -, done⟩ := bind_eq_ok_iff.mp done
  obtain ⟨rfl, -⟩ := Prod.mk.inj (Except.ok.inj done)
  exact ⟨l2Index, rfl⟩

theorem placeL1_eq_ok {header placed : FileHeader} {numSectors : Nat}
    {placement : Placement} {disk : Disk}
    (done : header.placeL1 numSectors placement = .ok (placed, disk)) :
    ∃ l1Index l2Index,
      placed = { header with l1Index := l1Index, l2Index := l2Index } ∧
        ∃ number < Disk.numSectors, l1Index.toInt = (number : Nat) := by
  obtain ⟨⟨l1Index, first⟩, taken, done⟩ := bind_eq_ok_iff.mp done
  have onDisk := (Placement.next_eq_ok taken).2
  obtain ⟨⟨hdrL1Buf, second⟩, -, done⟩ := bind_eq_ok_iff.mp done
  obtain ⟨written, -, done⟩ := bind_eq_ok_iff.mp done
  split at done
  · obtain ⟨l2Index, rfl⟩ := placeL2_eq_ok done
    exact ⟨l1Index, l2Index, rfl, onDisk⟩
  · obtain ⟨rfl, -⟩ := Prod.mk.inj (Except.ok.inj done)
    exact ⟨l1Index, header.l2Index, rfl, onDisk⟩

/-- A file with more sectors than direct pointers has its `L1Index` on the
disk. -/
theorem place_eq_ok {header placed : FileHeader} {numSectors : Nat}
    {sectorsGet : List CInt} {before disk : Disk}
    (done : header.place numSectors ⟨sectorsGet, 0, before⟩ = .ok (placed, disk)) :
    placed.numBytes = header.numBytes ∧ placed.numSectors = header.numSectors ∧
      (numDirect < numSectors →
        ∃ number < Disk.numSectors, placed.l1Index.toInt = (number : Nat)) := by
  obtain ⟨⟨dataSectors, first⟩, direct, done⟩ := bind_eq_ok_iff.mp done
  have bound : first.curSector ≤ numDirect := by
    simpa using Placement.placeData_curSector_le direct
  simp only at done
  split at done
  · obtain ⟨l1Index, l2Index, rfl, onDisk⟩ := placeL1_eq_ok done
    exact ⟨rfl, rfl, fun _ => onDisk⟩
  · obtain ⟨rfl, -⟩ := Prod.mk.inj (Except.ok.inj done)
    exact ⟨rfl, rfl, fun indirect => by omega⟩

/-- What an `Allocate` that returns `TRUE` did. -/
theorem allocate_eq_true {header allocated : FileHeader}
    {freeMap freeMap' : BitMap Disk.numSectors} {fileSize : CInt}
    {disk disk' : Disk}
    (done : header.allocate freeMap fileSize disk =
      .ok (true, allocated, freeMap', disk')) :
    allocated.numBytes = fileSize ∧
      allocated.numSectors =
        BitVec.ofInt 32 (CInt.divRoundUp fileSize.toInt Disk.sectorSize) ∧
      ∃ count, demand freeMap.numClear allocated.numSectors.toNat = some count ∧
        (numDirect < allocated.numSectors.toNat →
          ∃ number < Disk.numSectors,
            allocated.l1Index.toInt = (number : Nat)) := by
  unfold allocate at done
  simp only at done
  split at done
  · simp at done
  · next count demanded =>
      split at done
      · obtain ⟨⟨placed, written⟩, placing, done⟩ := bind_eq_ok_iff.mp done
        simp only [Except.ok.injEq, Prod.mk.injEq, true_and] at done
        obtain ⟨rfl, -, -⟩ := done
        obtain ⟨numBytes, numSectors, l1Index⟩ := place_eq_ok placing
        refine ⟨numBytes, numSectors, count, ?_, ?_⟩
        · rw [numSectors]
          exact demanded
        · intro indirect
          rw [numSectors] at indirect
          exact l1Index indirect
      · cases done

end FileHeader

end Inversion

end Nachos
