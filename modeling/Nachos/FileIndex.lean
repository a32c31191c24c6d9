import Nachos.FileBlocks

/-!
# The index of a file on the disk

A header and the sectors of pointers on the disk store the blocks of a file when
every pointer is in its place.  `Allocate` writes such an index, `ByteToSector`
finds every block in it, and `Deallocate` clears exactly its sectors.
-/

namespace Nachos

open LittleEndianWords TransitionRuns

namespace Disk

/-- The sector holds pointers, of which the first ones are those of the list. -/
def Lists (disk : Disk) (sector : SectorNumber) (listed : List SectorNumber) : Prop :=
  ∃ table : IndexTable, disk.readTable (pointer sector) = .ok table ∧
    listed.map pointer <+: table.toList

variable {disk : Disk} {sector : SectorNumber} {listed : List SectorNumber}

theorem readTable_pointer (disk : Disk) (sector : SectorNumber) :
    disk.readTable (pointer sector) = .ok (IndexTable.ofBytes (disk sector.val).bytes) := by
  rw [readTable, readSector_pointer]
  rfl

theorem Lists.congr {after : Disk} (lists : disk.Lists sector listed)
    (same : after sector.val = disk sector.val) : after.Lists sector listed := by
  rw [Lists, readTable_pointer] at *
  rwa [same]

theorem Lists.getElem? {table : IndexTable} (lists : disk.Lists sector listed)
    (read : disk.readTable (pointer sector) = .ok table) {index : Nat}
    {found : SectorNumber} (entry : listed[index]? = some found)
    (inside : index < l1IndexNum) : table[index] = pointer found := by
  obtain ⟨same, again, stored⟩ := lists
  obtain rfl := Except.ok.inj (read.symm.trans again)
  obtain ⟨within, rfl⟩ := List.getElem?_eq_some_iff.mp entry
  have pointers := stored.getElem (i := index) (by simpa using within)
  simpa using pointers.symm

theorem writeTable_pointer (disk : Disk) (sector : SectorNumber) (table : IndexTable) :
    disk.writeTable (pointer sector) table =
      .ok (Function.update disk sector.val
        (Sector.ofBytes table.toBytes (Nat.le_of_eq table.length_toBytes.symm))) := by
  rw [writeTable, writeSector_pointer]

/-- What was written is read back. -/
theorem lists_update {table : IndexTable} (stored : listed.map pointer <+: table.toList) :
    Lists (Function.update disk sector.val (Sector.ofBytes table.toBytes
      (Nat.le_of_eq table.length_toBytes.symm))) sector listed := by
  refine ⟨table, ?_, stored⟩
  rw [readTable_pointer, Function.update_self, Sector.bytes_ofBytes,
    ← table.length_toBytes, List.take_length, IndexTable.ofBytes_toBytes]

end Disk

/-- A table that was filled from the front starts with the sectors. -/
theorem Placement.prefix_filled {size : Nat} (table : Vector CInt size)
    {sectors : List SectorNumber} (fits : sectors.length ≤ size) :
    sectors.map pointer <+: (filled table (List.finRange size) sectors).toList := by
  rw [List.prefix_iff_getElem]
  refine ⟨by simpa using fits, ?_⟩
  intro index inside
  have within : index < sectors.length := by simpa using inside
  have placed := getElem_filled (List.nodup_finRange size) table sectors
    (show index < (List.finRange size).length by simpa using within.trans_le fits) within
  simpa using placed.symm

/-- Slots that no sector is left for do not matter. -/
theorem Placement.filled_append {size : Nat} (table : Vector CInt size)
    (slots more : List (Fin size)) {sectors : List SectorNumber}
    (fits : sectors.length ≤ slots.length) :
    filled table (slots ++ more) sectors = filled table slots sectors := by
  induction slots generalizing table sectors with
  | nil =>
      obtain rfl := List.eq_nil_of_length_eq_zero (Nat.le_zero.mp fits)
      cases more <;> rfl
  | cons slot slots ih =>
      cases sectors with
      | nil => rfl
      | cons sector sectors => exact ih _ (by simpa using fits)

/-- The pointers of the second level are where `ByteToSector` looks for them. -/
structure L2Blocks.Stored (blocks : L2Blocks) (header : FileHeader) (disk : Disk) :
    Prop where
  l2Index : header.l2Index = pointer blocks.sector
  listed : disk.Lists blocks.sector (blocks.tables.map DataTable.sector)
  tables : ∀ table ∈ blocks.tables, disk.Lists table.sector table.data

structure L1Blocks.Stored (blocks : L1Blocks) (header : FileHeader) (disk : Disk) :
    Prop where
  l1Index : header.l1Index = pointer blocks.table.sector
  listed : disk.Lists blocks.table.sector blocks.table.data
  l2 : ∀ l2 ∈ blocks.l2, l2.Stored header disk

structure FileBlocks.Stored (blocks : FileBlocks) (header : FileHeader) (disk : Disk) :
    Prop where
  numSectors : header.numSectors = BitVec.ofNat 32 blocks.data.length
  direct : blocks.direct.map pointer <+: header.dataSectors.toList
  l1 : ∀ l1 ∈ blocks.l1, l1.Stored header disk

section Congruence

variable {header : FileHeader} {disk after : Disk}

theorem L2Blocks.Stored.congr {blocks : L2Blocks} (stored : blocks.Stored header disk)
    (same : ∀ sector ∈ blocks.index, after sector.val = disk sector.val) :
    blocks.Stored header after where
  l2Index := stored.l2Index
  listed := stored.listed.congr (same _ (by simp [index]))
  tables table member := (stored.tables table member).congr
    (same _ (List.mem_cons_of_mem _ (List.mem_map_of_mem member)))

theorem L1Blocks.Stored.congr {blocks : L1Blocks} (stored : blocks.Stored header disk)
    (same : ∀ sector ∈ blocks.index, after sector.val = disk sector.val) :
    blocks.Stored header after where
  l1Index := stored.l1Index
  listed := stored.listed.congr (same _ (by simp [index]))
  l2 l2 present := by
    apply (stored.l2 l2 present).congr
    intro sector member
    apply same
    rw [index, Option.mem_def.mp present]
    exact List.mem_cons_of_mem _ member

/-- The index stays valid when its own sectors do not change. -/
theorem FileBlocks.Stored.congr {blocks : FileBlocks} (stored : blocks.Stored header disk)
    (same : ∀ sector ∈ blocks.index, after sector.val = disk sector.val) :
    blocks.Stored header after where
  numSectors := stored.numSectors
  direct := stored.direct
  l1 l1 present := by
    apply (stored.l1 l1 present).congr
    intro sector member
    apply same
    rw [index, Option.mem_def.mp present]
    exact member

end Congruence

section Translation

theorem FileHeader.byteToSector_l2 {header : FileHeader} {disk : Disk}
    {offset adSector offSector : Nat} (adInside : adSector < l1IndexNum)
    (offInside : offSector < l1IndexNum)
    (value : offset / Disk.sectorSize =
      numDirect + l1IndexNum + (adSector * l1IndexNum + offSector))
    {hdrL2Buf hdrL1Buf : IndexTable} (l2 : disk.readTable header.l2Index = .ok hdrL2Buf)
    (l1 : disk.readTable hdrL2Buf[adSector] = .ok hdrL1Buf) :
    header.byteToSector disk offset = .ok hdrL1Buf[offSector] := by
  have inside : adSector * l1IndexNum + offSector < l1IndexNum * l1IndexNum := by
    have last := Nat.mul_le_mul_right l1IndexNum (Nat.succ_le_of_lt adInside)
    rw [Nat.succ_mul] at last
    omega
  have block : offset / Disk.sectorSize - numDirect - l1IndexNum =
      adSector * l1IndexNum + offSector := by omega
  have table : (adSector * l1IndexNum + offSector) / l1IndexNum = adSector := by
    simp only [l1IndexNum, Disk.sectorSize] at *
    omega
  have entry : adSector * l1IndexNum + offSector - adSector * l1IndexNum = offSector :=
    Nat.add_sub_cancel_left _ _
  have beyondL1 : ¬ offset / Disk.sectorSize < numDirect + l1IndexNum := by omega
  have beyondDirect : ¬ offset / Disk.sectorSize < numDirect := by omega
  have within : offset / Disk.sectorSize <
      numDirect + l1IndexNum + l1IndexNum * l1IndexNum := by omega
  unfold byteToSector
  simp only [tdiv_sectorSize, block_nonneg, if_false, Int.toNat_natCast, beyondDirect, beyondL1,
    within, dif_neg, dif_pos, not_false_eq_true, block, table, entry, l2, ok_bind, l1]

variable {header : FileHeader} {disk : Disk} {offset index : Nat} {found : SectorNumber}

theorem L2Blocks.Stored.byteToSector {blocks : L2Blocks}
    (stored : blocks.Stored header disk)
    (value : offset / Disk.sectorSize = numDirect + l1IndexNum + index)
    (entry : blocks.data[index]? = some found) :
    header.byteToSector disk offset = .ok (pointer found) := by
  rw [data, blocks.packed.getElem?_data, Option.bind_eq_some_iff] at entry
  obtain ⟨table, isTable, entry⟩ := entry
  have fewTables := blocks.length_le
  have adInside : index / l1IndexNum < l1IndexNum :=
    (List.getElem?_eq_some_iff.mp isTable).1.trans_le fewTables
  have offInside : index % l1IndexNum < l1IndexNum := Nat.mod_lt _ (by decide)
  obtain ⟨hdrL2Buf, read, listed⟩ := stored.listed
  have address : hdrL2Buf[index / l1IndexNum] = pointer table.sector :=
    stored.listed.getElem? read (by rw [List.getElem?_map, isTable]; rfl) adInside
  have lists := stored.tables table (List.mem_of_getElem? isTable)
  have readTable := Disk.readTable_pointer disk table.sector
  rw [FileHeader.byteToSector_l2 adInside offInside
    (by rw [value, Nat.div_add_mod'])
    (by rw [stored.l2Index, read]) (by rw [address, readTable])]
  exact congrArg _ (lists.getElem? readTable entry offInside)

theorem L1Blocks.Stored.byteToSector {blocks : L1Blocks}
    (stored : blocks.Stored header disk)
    (value : offset / Disk.sectorSize = numDirect + index)
    (entry : blocks.data[index]? = some found) :
    header.byteToSector disk offset = .ok (pointer found) := by
  have limit := blocks.table.length_le
  rw [data] at entry
  by_cases inTable : index < blocks.table.data.length
  · rw [List.getElem?_append_left inTable] at entry
    obtain ⟨hdrL1Buf, read, -⟩ := stored.listed
    have position : offset / Disk.sectorSize - numDirect = index := by omega
    rw [FileHeader.byteToSector_l1 _ _ (by omega) (by omega), stored.l1Index, read]
    simp only [position]
    exact congrArg _ (stored.listed.getElem? read entry (by omega))
  · rw [List.getElem?_append_right (by omega)] at entry
    cases level : blocks.l2 with
    | none => simp [level] at entry
    | some l2 =>
        rw [level, Option.elim_some] at entry
        have full := blocks.full (by rw [level]; rfl)
        exact (stored.l2 l2 level).byteToSector (by omega) entry

/-- `ByteToSector` finds every block of the file. -/
theorem FileBlocks.Stored.byteToSector {blocks : FileBlocks}
    (stored : blocks.Stored header disk)
    (entry : blocks.data[offset / Disk.sectorSize]? = some found) :
    header.byteToSector disk offset = .ok (pointer found) := by
  have limit := blocks.length_le
  rw [data] at entry
  by_cases direct : offset / Disk.sectorSize < blocks.direct.length
  · rw [List.getElem?_append_left direct] at entry
    obtain ⟨within, rfl⟩ := List.getElem?_eq_some_iff.mp entry
    rw [FileHeader.byteToSector_direct _ _ (by omega)]
    have pointers := stored.direct.getElem (by simpa using within)
    rw [List.getElem_map] at pointers
    simp [pointers]
  · rw [List.getElem?_append_right (by omega)] at entry
    cases level : blocks.l1 with
    | none => simp [level] at entry
    | some l1 =>
        rw [level, Option.elim_some] at entry
        have full := blocks.full (by rw [level]; rfl)
        exact (stored.l1 l1 level).byteToSector (by omega) entry

theorem FileBlocks.length_data_le {blocks : FileBlocks}
    (distinct : blocks.sectors.Nodup) : blocks.data.length ≤ Disk.numSectors := by
  have apart := blocks.sectors_perm.nodup_iff.mp distinct
  simpa using (List.nodup_append.mp apart).1.length_le_card

theorem FileBlocks.Stored.numSectors_eq {blocks : FileBlocks}
    (stored : blocks.Stored header disk) (distinct : blocks.sectors.Nodup) :
    header.numSectors.toInt.toNat = blocks.data.length := by
  have bound := length_data_le distinct
  simp only [Disk.numSectors, Disk.sectorsPerTrack, Disk.numTracks] at bound
  rw [stored.numSectors, CInt.toInt_ofNat_of_lt (by omega), Int.toNat_natCast]

/-- The header maps the file to its data sectors. -/
theorem FileBlocks.Stored.maps {blocks : FileBlocks}
    (stored : blocks.Stored header disk) (distinct : blocks.sectors.Nodup)
    (count : header.fileLength.toInt ≤ blocks.data.length * Disk.sectorSize) :
    header.Maps disk blocks.data := by
  have apart := blocks.sectors_perm.nodup_iff.mp distinct
  constructor
  · exact (List.nodup_append.mp apart).1
  · exact count
  · intro after agree index inside
    have later : blocks.Stored header after := by
      apply stored.congr
      intro sector member
      apply agree
      intro other isData same
      exact (List.nodup_append.mp apart).2.2 other isData sector member (Fin.ext same)
    apply later.byteToSector
    rw [Nat.mul_div_cancel _ (by decide)]
    exact List.getElem?_eq_getElem inside

end Translation

section Placing

/-- The disk after the sectors of a file were cleared and its tables written. -/
structure Disk.Placed (before after : Disk) (sectors data : List SectorNumber) :
    Prop where
  outside : before.AgreeOutside sectors after
  zero : ∀ sector ∈ data, after sector.val = Sector.zero

theorem Disk.cleared_placed (disk : Disk) (sectors : List SectorNumber) :
    disk.Placed (disk.cleared sectors) sectors sectors where
  outside sector := cleared_agreeOutside disk sectors sector
  zero _ := disk.cleared_eq_zero

/-- Parts of a file that are placed one after another do not disturb each
other. -/
theorem Disk.Placed.append {first second third : Disk}
    {sectors data laterSectors laterData : List SectorNumber}
    (earlier : first.Placed second sectors data)
    (later : second.Placed third laterSectors laterData)
    (apart : ∀ sector ∈ data, sector ∉ laterSectors) :
    first.Placed third (sectors ++ laterSectors) (data ++ laterData) where
  outside sector unlisted := by
    rw [later.outside sector fun member inside => unlisted member (by simp [inside]),
      earlier.outside sector fun member inside => unlisted member (by simp [inside])]
  zero sector member := by
    rcases List.mem_append.mp member with before | after
    · rw [later.outside sector.val fun other inside same =>
        apart sector before (Fin.ext same ▸ inside)]
      exact earlier.zero sector before
    · exact later.zero sector after

/-- The disk after `Allocate` placed a table of data sectors. -/
def Disk.withTable (disk : Disk) (table : DataTable) : Disk :=
  let cleared : Disk :=
    cleared (Function.update disk table.sector.val Sector.zero) table.data
  let hdrL1Buf : IndexTable :=
    Placement.filled IndexTable.empty (List.finRange l1IndexNum) table.data
  Function.update cleared table.sector.val
    (Sector.ofBytes hdrL1Buf.toBytes (Nat.le_of_eq hdrL1Buf.length_toBytes.symm))

theorem Disk.withTable_lists (disk : Disk) (table : DataTable) :
    (disk.withTable table).Lists table.sector table.data :=
  lists_update (Placement.prefix_filled IndexTable.empty table.length_le)

theorem Disk.withTable_placed (disk : Disk) {table : DataTable}
    (distinct : table.sectors.Nodup) :
    disk.Placed (disk.withTable table) table.sectors table.data where
  outside sector unlisted := by
    have head : sector ≠ table.sector.val := (unlisted _ (by simp [DataTable.sectors])).symm
    have kept : ∀ other ∈ table.data, other.val ≠ sector := fun other inside =>
      unlisted other (by simp [DataTable.sectors, inside])
    rw [withTable, Function.update_of_ne head, cleared_agreeOutside _ _ _ kept,
      Function.update_of_ne head]
  zero sector member := by
    have different : sector.val ≠ table.sector.val := fun same =>
      (List.nodup_cons.mp distinct).1 (Fin.ext same ▸ member)
    rw [withTable, Function.update_of_ne different]
    exact cleared_eq_zero _ member

theorem Disk.withTables_placed (disk : Disk) {tables : List DataTable}
    (distinct : (tables.flatMap DataTable.sectors).Nodup) :
    disk.Placed (tables.foldl withTable disk) (tables.flatMap DataTable.sectors)
      (tables.flatMap DataTable.data) := by
  induction tables generalizing disk with
  | nil => exact ⟨fun _ _ => rfl, by simp⟩
  | cons table tables ih =>
      rw [List.flatMap_cons, List.nodup_append] at distinct
      obtain ⟨here, rest, apart⟩ := distinct
      apply (disk.withTable_placed here).append (ih (disk.withTable table) rest)
      intro sector member later
      exact apart sector (List.mem_cons_of_mem _ member) sector later rfl

theorem Disk.withTables_lists (disk : Disk) {tables : List DataTable}
    (distinct : (tables.flatMap DataTable.sectors).Nodup) {table : DataTable}
    (member : table ∈ tables) :
    (tables.foldl withTable disk).Lists table.sector table.data := by
  induction tables generalizing disk with
  | nil => simp at member
  | cons head tables ih =>
      rw [List.flatMap_cons, List.nodup_append] at distinct
      obtain ⟨-, rest, apart⟩ := distinct
      rcases List.mem_cons.mp member with rfl | later
      · apply (disk.withTable_lists table).congr
        apply ((disk.withTable table).withTables_placed rest).outside
        intro other inside same
        exact apart table.sector (by simp [DataTable.sectors]) other inside (Fin.ext same).symm
      · exact ih _ rest later

/-- The disk after `Allocate` placed the second level. -/
def Disk.withL2 (disk : Disk) (blocks : L2Blocks) : Disk :=
  let filled : Disk :=
    blocks.tables.foldl withTable (Function.update disk blocks.sector.val Sector.zero)
  let hdrL2Buf : IndexTable := Placement.filled IndexTable.empty
    (List.finRange l1IndexNum) (blocks.tables.map DataTable.sector)
  Function.update filled blocks.sector.val
    (Sector.ofBytes hdrL2Buf.toBytes (Nat.le_of_eq hdrL2Buf.length_toBytes.symm))

theorem Disk.withL2_placed (disk : Disk) {blocks : L2Blocks}
    (distinct : blocks.sectors.Nodup) :
    disk.Placed (disk.withL2 blocks) blocks.sectors blocks.data := by
  obtain ⟨fresh, rest⟩ := List.nodup_cons.mp distinct
  have inner :=
    withTables_placed (Function.update disk blocks.sector.val Sector.zero) rest
  constructor
  · intro sector unlisted
    have head : sector ≠ blocks.sector.val := (unlisted _ (by simp [L2Blocks.sectors])).symm
    rw [withL2, Function.update_of_ne head, inner.outside sector fun other inside =>
      unlisted other (List.mem_cons_of_mem _ inside), Function.update_of_ne head]
  · intro sector member
    have isSector : sector ∈ blocks.tables.flatMap DataTable.sectors := by
      rw [(DataTable.sectors_perm blocks.tables).mem_iff]
      exact List.mem_append_left _ member
    have different : sector.val ≠ blocks.sector.val := fun same =>
      fresh (Fin.ext same ▸ isSector)
    rw [withL2, Function.update_of_ne different]
    exact inner.zero sector member

theorem L2Blocks.stored_withL2 {blocks : L2Blocks} (distinct : blocks.sectors.Nodup)
    {header : FileHeader} (l2Index : header.l2Index = pointer blocks.sector)
    (disk : Disk) : blocks.Stored header (disk.withL2 blocks) := by
  obtain ⟨fresh, rest⟩ := List.nodup_cons.mp distinct
  constructor
  · exact l2Index
  · apply Disk.lists_update
    apply Placement.prefix_filled
    simpa using blocks.length_le
  · intro table member
    apply (Disk.withTables_lists _ rest member).congr
    apply Function.update_of_ne
    intro same
    apply fresh
    rw [← Fin.ext same]
    exact List.mem_flatMap.mpr ⟨table, member, by simp [DataTable.sectors]⟩

/-- The disk after `Allocate` placed what the direct pointers do not reach. -/
def Disk.withL1 (disk : Disk) (blocks : L1Blocks) : Disk :=
  blocks.l2.elim (disk.withTable blocks.table) (disk.withTable blocks.table).withL2

theorem Disk.withL1_placed (disk : Disk) {blocks : L1Blocks}
    (distinct : blocks.sectors.Nodup) :
    disk.Placed (disk.withL1 blocks) blocks.sectors blocks.data := by
  obtain ⟨table, later, apart⟩ := List.nodup_append.mp distinct
  have first := disk.withTable_placed table
  unfold withL1 L1Blocks.sectors L1Blocks.data at *
  cases level : blocks.l2 with
  | none => simpa using first
  | some l2 =>
      simp only [level, Option.elim_some] at *
      apply first.append (withL2_placed _ later)
      intro sector member inside
      exact apart sector (List.mem_cons_of_mem _ member) sector inside rfl

theorem L1Blocks.stored_withL1 {blocks : L1Blocks} (distinct : blocks.sectors.Nodup)
    {header : FileHeader} (l1Index : header.l1Index = pointer blocks.table.sector)
    (l2Index : ∀ l2 ∈ blocks.l2, header.l2Index = pointer l2.sector) (disk : Disk) :
    blocks.Stored header (disk.withL1 blocks) := by
  obtain ⟨table, later, apart⟩ := List.nodup_append.mp distinct
  have lists := disk.withTable_lists blocks.table
  unfold Disk.withL1
  cases level : blocks.l2 with
  | none => exact ⟨l1Index, lists, by simp [level]⟩
  | some l2 =>
      simp only [level, Option.elim_some] at later apart l2Index ⊢
      constructor
      · exact l1Index
      · apply lists.congr
        apply (Disk.withL2_placed _ later).outside
        intro other inside same
        exact apart blocks.table.sector (by simp [DataTable.sectors]) other inside
          (Fin.ext same).symm
      · intro second present
        obtain rfl := Option.some.inj (level.symm.trans present)
        exact L2Blocks.stored_withL2 later (l2Index _ rfl) _

/-- The disk after a successful `Allocate`. -/
def Disk.withBlocks (disk : Disk) (blocks : FileBlocks) : Disk :=
  blocks.l1.elim (disk.cleared blocks.direct) (disk.cleared blocks.direct).withL1

theorem Disk.withBlocks_placed (disk : Disk) {blocks : FileBlocks}
    (distinct : blocks.sectors.Nodup) :
    disk.Placed (disk.withBlocks blocks) blocks.sectors blocks.data := by
  obtain ⟨direct, later, apart⟩ := List.nodup_append.mp distinct
  have first := disk.cleared_placed blocks.direct
  unfold withBlocks FileBlocks.sectors FileBlocks.data at *
  cases level : blocks.l1 with
  | none => simpa using first
  | some l1 =>
      simp only [level, Option.elim_some] at *
      apply first.append (withL1_placed _ later)
      intro sector member inside
      exact apart sector member sector inside rfl

namespace Placement

theorem next_eq (sector : SectorNumber) (sectorsGet : List CInt) (curSector : Nat)
    (disk : Disk) :
    next ⟨pointer sector :: sectorsGet, curSector, disk⟩ =
      .ok (pointer sector,
        ⟨sectorsGet, curSector, Function.update disk sector.val Sector.zero⟩) := by
  rw [next]
  simp only [FileHeader.clearSector_pointer, ok_bind]

/-- The loop that fills `hdrL2Buf`. -/
theorem placeTables_eq {tables : List DataTable} (packed : DataTable.Packed tables)
    (slots : List (Fin l1IndexNum)) (count : slots.length = tables.length)
    (hdrL2Buf : IndexTable) (rest : List CInt) (curSector : Nat) (disk : Disk) :
    placeTables (curSector + (tables.flatMap DataTable.data).length) slots hdrL2Buf
        ⟨(tables.flatMap DataTable.sectors).map pointer ++ rest, curSector, disk⟩ =
      .ok (filled hdrL2Buf slots (tables.map DataTable.sector),
        ⟨rest, curSector + (tables.flatMap DataTable.data).length,
          tables.foldl Disk.withTable disk⟩) := by
  induction tables generalizing slots hdrL2Buf curSector disk with
  | nil =>
      obtain rfl := List.eq_nil_of_length_eq_zero count
      rfl
  | cons table tables ih =>
      cases slots with
      | nil => simp at count
      | cons slot slots =>
          have total : curSector + ((table :: tables).flatMap DataTable.data).length =
              curSector + table.data.length +
                (tables.flatMap DataTable.data).length := by
            rw [List.flatMap_cons, List.length_append]
            omega
          have stops : table.data.length = (List.finRange l1IndexNum).length ∨
              curSector + table.data.length = curSector + table.data.length +
                (tables.flatMap DataTable.data).length := by
            by_cases last : tables = []
            · exact Or.inr (by simp [last])
            · exact Or.inl (by simpa using packed.1 last)
          have placed := placeData_of_le (List.finRange l1IndexNum) IndexTable.empty
            table.data ((tables.flatMap DataTable.sectors).map pointer ++ rest) curSector
            (Function.update disk table.sector.val Sector.zero)
            (by simpa using table.length_le) (Nat.le_add_right _ _) stops
          rw [total, placeTables, List.flatMap_cons, DataTable.sectors, List.map_append,
            List.map_cons, List.cons_append, List.cons_append, next_eq, ok_bind,
            List.append_assoc]
          simp only [placed, ok_bind, Disk.writeTable_pointer]
          exact ih packed.2 slots (by simpa using count) _ _ _

end Placement

namespace FileHeader

theorem adSectors_add (count : Nat) :
    adSectors (numDirect + l1IndexNum + count) = (count + l1IndexNum - 1) / l1IndexNum := by
  have pointers : numDirect + l1IndexNum + count - numDirect - l1IndexNum = count := by
    omega
  unfold adSectors
  simp only [pointers]
  by_cases partly : count % l1IndexNum > 0
  · rw [if_pos partly]
    simp only [l1IndexNum, Disk.sectorSize] at *
    omega
  · rw [if_neg partly]
    simp only [l1IndexNum, Disk.sectorSize] at *
    omega

theorem placeL2_eq (header : FileHeader) (blocks : L2Blocks) (disk : Disk) :
    header.placeL2 (numDirect + l1IndexNum + blocks.data.length)
        ⟨blocks.sectors.map pointer, numDirect + l1IndexNum, disk⟩ =
      .ok ({ header with l2Index := pointer blocks.sector }, disk.withL2 blocks) := by
  have slots : ((List.finRange l1IndexNum).take blocks.tables.length).length =
      blocks.tables.length := by
    simpa using blocks.length_le
  have table : Placement.filled IndexTable.empty
      ((List.finRange l1IndexNum).take blocks.tables.length)
        (blocks.tables.map DataTable.sector) =
      Placement.filled IndexTable.empty (List.finRange l1IndexNum)
        (blocks.tables.map DataTable.sector) := by
    rw [← Placement.filled_append _ _ ((List.finRange l1IndexNum).drop blocks.tables.length)
      (by rw [slots, List.length_map]), List.take_append_drop]
  have filling := Placement.placeTables_eq blocks.packed
    ((List.finRange l1IndexNum).take blocks.tables.length) slots IndexTable.empty []
    (numDirect + l1IndexNum) (Function.update disk blocks.sector.val Sector.zero)
  rw [List.append_nil, table] at filling
  rw [placeL2, L2Blocks.sectors, List.map_cons, Placement.next_eq, ok_bind, adSectors_add,
    ← blocks.length_tables]
  simp only [L2Blocks.data, filling, ok_bind, Disk.writeTable_pointer]
  rfl

theorem placeL1_eq (header : FileHeader) (blocks : L1Blocks) (disk : Disk) :
    header.placeL1 (numDirect + blocks.data.length)
        ⟨blocks.sectors.map pointer, numDirect, disk⟩ =
      .ok ({ header with
          l1Index := pointer blocks.table.sector
          l2Index := blocks.l2.elim header.l2Index fun l2 => pointer l2.sector },
        disk.withL1 blocks) := by
  have placed := @Placement.placeData_of_le l1IndexNum (numDirect + blocks.data.length)
    (List.finRange l1IndexNum) IndexTable.empty blocks.table.data
    ((blocks.l2.elim [] L2Blocks.sectors).map pointer) numDirect
    (Function.update disk blocks.table.sector.val Sector.zero)
    (by simpa using blocks.table.length_le)
  rw [placeL1, L1Blocks.sectors, DataTable.sectors, List.cons_append, List.map_cons,
    List.map_append, Placement.next_eq, ok_bind]
  unfold L1Blocks.data Disk.withL1 at *
  cases level : blocks.l2 with
  | none =>
      simp only [level, Option.elim_none, List.append_nil] at placed ⊢
      simp only [placed (Nat.le_refl _) (by simp), ok_bind, Disk.writeTable_pointer]
      exact if_neg (Nat.lt_irrefl _)
  | some l2 =>
      have full := blocks.full (by rw [level]; rfl)
      have nonempty := l2.data_nonempty
      have inFile : numDirect + blocks.table.data.length ≤
          numDirect + (blocks.table.data ++ l2.data).length := by
        rw [List.length_append]
        omega
      have more : numDirect + l1IndexNum <
          numDirect + (blocks.table.data ++ l2.data).length := by
        rw [List.length_append]
        omega
      have total : numDirect + (blocks.table.data ++ l2.data).length =
          numDirect + l1IndexNum + l2.data.length := by
        rw [List.length_append, full, Nat.add_assoc]
      simp only [level, Option.elim_some] at placed ⊢
      simp only [placed inFile (Or.inl (by simpa using full)), ok_bind,
        Disk.writeTable_pointer, full]
      apply (if_pos more).trans
      rw [total]
      exact placeL2_eq _ l2 _

/-- The header after a successful `Allocate`. -/
def withBlocks (header : FileHeader) (blocks : FileBlocks) : FileHeader :=
  { header with
    dataSectors :=
      Placement.filled header.dataSectors (List.finRange numDirect) blocks.direct
    l1Index := blocks.l1.elim header.l1Index fun l1 => pointer l1.table.sector
    l2Index := (blocks.l1.bind L1Blocks.l2).elim header.l2Index
      fun l2 => pointer l2.sector }

/-- The second half of `Allocate`, for the sectors it was given. -/
theorem place_eq (header : FileHeader) (blocks : FileBlocks) (disk : Disk) :
    header.place blocks.data.length ⟨blocks.sectors.map pointer, 0, disk⟩ =
      .ok (header.withBlocks blocks, disk.withBlocks blocks) := by
  have placed := @Placement.placeData_of_le numDirect blocks.data.length
    (List.finRange numDirect) header.dataSectors blocks.direct
    ((blocks.l1.elim [] L1Blocks.sectors).map pointer) 0 disk
    (by simpa using blocks.length_le)
  rw [place, FileBlocks.sectors, List.map_append]
  simp only [Nat.zero_add] at placed
  unfold FileBlocks.data Disk.withBlocks withBlocks at *
  cases level : blocks.l1 with
  | none =>
      simp only [level, Option.elim_none, List.append_nil] at placed ⊢
      simp only [placed (Nat.le_refl _) (by simp), ok_bind]
      exact if_neg (Nat.lt_irrefl _)
  | some l1 =>
      have full := blocks.full (by rw [level]; rfl)
      have nonempty := l1.data_nonempty
      have total : (blocks.direct ++ l1.data).length = numDirect + l1.data.length := by
        rw [List.length_append, full]
      simp only [level, Option.elim_some, total] at placed ⊢
      simp only [placed (by omega) (Or.inl (by simpa using full)), ok_bind, full]
      have more : numDirect < numDirect + l1.data.length := by omega
      exact (if_pos more).trans (placeL1_eq _ l1 _)

end FileHeader

theorem FileBlocks.stored_withBlocks {blocks : FileBlocks}
    (distinct : blocks.sectors.Nodup) {header : FileHeader}
    (numSectors : header.numSectors = BitVec.ofNat 32 blocks.data.length) (disk : Disk) :
    blocks.Stored (header.withBlocks blocks) (disk.withBlocks blocks) := by
  obtain ⟨-, later, -⟩ := List.nodup_append.mp distinct
  constructor
  · exact numSectors
  · exact Placement.prefix_filled _ blocks.length_le
  · intro l1 present
    simp only [Disk.withBlocks, Option.mem_def.mp present, Option.elim_some] at later ⊢
    apply L1Blocks.stored_withL1 later
    · simp [FileHeader.withBlocks, Option.mem_def.mp present]
    · intro l2 further
      simp [FileHeader.withBlocks, Option.mem_def.mp present, Option.mem_def.mp further]

end Placing

section Clearing

theorem Disk.Lists.toList {disk : Disk} {sector : SectorNumber}
    {listed : List SectorNumber} (lists : disk.Lists sector listed) :
    ∃ (table : IndexTable) (rest : List CInt),
      disk.readTable (pointer sector) = .ok table ∧
        table.toList = listed.map pointer ++ rest ∧
          (listed.length = l1IndexNum → rest = []) := by
  obtain ⟨table, read, rest, stored⟩ := lists
  refine ⟨table, rest, read, stored.symm, ?_⟩
  intro full
  have lengths := congrArg List.length stored
  simp only [List.length_append, List.length_map, Vector.length_toList] at lengths
  exact List.eq_nil_of_length_eq_zero (by omega)

theorem BitMap.testBit_clearEach_of_marked {freeMap : BitMap Disk.numSectors}
    {sectors cleared : List SectorNumber}
    (marked : ∀ sector ∈ sectors, freeMap.testBit sector = true)
    (apart : ∀ sector ∈ sectors, sector ∉ cleared) :
    ∀ sector ∈ sectors, (freeMap.clearEach cleared).testBit sector = true := by
  intro sector member
  simp [testBit_clearEach, marked sector member, apart sector member]

namespace FileHeader

variable {header : FileHeader} {disk : Disk} {freeMap : BitMap Disk.numSectors}

/-- The loop over `hdrL2Buf` stops when the data run out. -/
theorem clearTables_eq {tables : List DataTable} (packed : DataTable.Packed tables)
    (lists : ∀ table ∈ tables, disk.Lists table.sector table.data) (rest : List CInt)
    (curSector : Nat) (distinct : (tables.flatMap DataTable.sectors).Nodup)
    (marked : ∀ sector ∈ tables.flatMap DataTable.sectors,
      freeMap.testBit sector = true) :
    clearTables (curSector + (tables.flatMap DataTable.data).length) disk
        ((tables.map DataTable.sector).map pointer ++ rest) curSector freeMap =
      .ok (freeMap.clearEach (tables.flatMap DataTable.freed)) := by
  induction tables generalizing curSector freeMap with
  | nil =>
      cases rest with
      | nil => exact if_neg (Nat.lt_irrefl _)
      | cons sector rest => exact if_neg (Nat.lt_irrefl _)
  | cons table tables ih =>
      rw [List.flatMap_cons, List.nodup_append] at distinct
      obtain ⟨here, later, apart⟩ := distinct
      obtain ⟨fresh, data⟩ := List.nodup_cons.mp here
      obtain ⟨hdrL1Buf, unused, read, stored, whole⟩ :=
        (lists table List.mem_cons_self).toList
      have nonempty := table.nonempty
      have total : curSector + ((table :: tables).flatMap DataTable.data).length =
          curSector + table.data.length +
            (tables.flatMap DataTable.data).length := by
        rw [List.flatMap_cons, List.length_append]
        omega
      have more : curSector < curSector + table.data.length +
          (tables.flatMap DataTable.data).length := by omega
      have stops : unused = [] ∨ curSector + table.data.length =
          curSector + table.data.length + (tables.flatMap DataTable.data).length := by
        by_cases last : tables = []
        · exact Or.inr (by simp [last])
        · exact Or.inl (whole (packed.1 last))
      have isMarked : ∀ sector ∈ table.sectors, freeMap.testBit sector = true :=
        fun sector member => marked sector (by simp [member])
      have cleared := clearData_of_le table.data unused curSector freeMap data
        (fun sector member => isMarked sector (List.mem_cons_of_mem _ member))
        (Nat.le_add_right _ _) stops
      have freed : freeMap.clearEach ((table :: tables).flatMap DataTable.freed) =
          ((freeMap.clearEach table.data).clearBit table.sector).clearEach
            (tables.flatMap DataTable.freed) := by
        rw [List.flatMap_cons, DataTable.freed, BitMap.clearEach_append,
          BitMap.clearEach_append]
        rfl
      have others : ∀ sector ∈ tables.flatMap DataTable.sectors,
          ((freeMap.clearEach table.data).clearBit table.sector).testBit sector = true := by
        intro sector member
        have foreign : sector ∉ table.sectors := fun inside =>
          apart sector inside sector member rfl
        simp only [DataTable.sectors, List.mem_cons, not_or] at foreign
        simp [BitMap.testBit_clearEach, foreign, marked sector (by simp [member])]
      rw [total, List.map_cons, List.map_cons, List.cons_append, clearTables, if_pos more,
        assertMarked_pointer (isMarked _ List.mem_cons_self), ok_bind, read, ok_bind,
        stored, cleared, ok_bind]
      simp only [clear_pointer, ok_bind]
      rw [freed]
      exact ih packed.2 (fun other member => lists other (List.mem_cons_of_mem _ member))
        _ later others

theorem clearL2_eq {blocks : L2Blocks} (stored : blocks.Stored header disk)
    (distinct : blocks.sectors.Nodup)
    (marked : ∀ sector ∈ blocks.sectors, freeMap.testBit sector = true)
    (curSector : Nat) :
    header.clearL2 (curSector + blocks.data.length) curSector disk freeMap =
      .ok (freeMap.clearEach blocks.freed) := by
  obtain ⟨hdrL2Buf, rest, read, table, -⟩ := stored.listed.toList
  have cleared := clearTables_eq blocks.packed stored.tables rest curSector
    (List.nodup_cons.mp distinct).2
    (fun sector member => marked sector (List.mem_cons_of_mem _ member))
  rw [clearL2, stored.l2Index, assertMarked_pointer (marked _ List.mem_cons_self),
    ok_bind, read, ok_bind, table, L2Blocks.data, cleared, ok_bind, clear_pointer,
    L2Blocks.freed, BitMap.clearEach_append]
  rfl

theorem clearL1_eq {blocks : L1Blocks} (stored : blocks.Stored header disk)
    (distinct : blocks.sectors.Nodup)
    (marked : ∀ sector ∈ blocks.sectors, freeMap.testBit sector = true)
    (curSector : Nat) :
    header.clearL1 (curSector + blocks.data.length) curSector disk freeMap =
      .ok (freeMap.clearEach blocks.freed) := by
  obtain ⟨table, later, apart⟩ := List.nodup_append.mp distinct
  obtain ⟨hdrL1Buf, rest, read, list, whole⟩ := stored.listed.toList
  have cleared := @clearData_of_le (curSector + blocks.data.length) blocks.table.data rest
    curSector freeMap (List.nodup_cons.mp table).2
    (fun sector member => marked sector (by simp [L1Blocks.sectors, DataTable.sectors, member]))
  rw [clearL1, stored.l1Index, assertMarked_pointer
    (marked _ (by simp [L1Blocks.sectors, DataTable.sectors])), ok_bind, read, ok_bind, list]
  unfold L1Blocks.freed L1Blocks.data at *
  cases level : blocks.l2 with
  | none =>
      simp only [level, Option.elim_none, List.append_nil] at cleared ⊢
      simp only [cleared (Nat.le_refl _) (by simp), ok_bind, Nat.lt_irrefl, if_false,
        clear_pointer, BitMap.clearEach_append]
      rfl
  | some l2 =>
      have full := blocks.full (by rw [level]; rfl)
      have nonempty := l2.data_nonempty
      have total : curSector + (blocks.table.data ++ l2.data).length =
          curSector + blocks.table.data.length + l2.data.length := by
        rw [List.length_append]
        omega
      have more : curSector + blocks.table.data.length <
          curSector + blocks.table.data.length + l2.data.length := by omega
      simp only [level, Option.elim_some, total] at cleared later apart ⊢
      have next := clearL2_eq (stored.l2 l2 level) later
        (BitMap.testBit_clearEach_of_marked
          (fun sector member => marked sector (by simp [L1Blocks.sectors, level, member]))
          (fun sector member inside => apart sector (List.mem_cons_of_mem _ inside) sector
            member rfl))
        (curSector + blocks.table.data.length)
      simp only [cleared (by omega) (Or.inl (whole full)), ok_bind, if_pos more, next,
        clear_pointer, BitMap.clearEach_append]
      rfl

/-- `Deallocate` clears the sectors of the file and trips no assertion. -/
theorem deallocate_eq {blocks : FileBlocks} (stored : blocks.Stored header disk)
    (distinct : blocks.sectors.Nodup)
    (marked : ∀ sector ∈ blocks.sectors, freeMap.testBit sector = true) :
    header.deallocate freeMap disk = .ok (freeMap.clearEach blocks.freed) := by
  obtain ⟨direct, later, apart⟩ := List.nodup_append.mp distinct
  obtain ⟨rest, list⟩ := stored.direct
  have count := stored.numSectors_eq distinct
  have cleared := @clearData_of_le blocks.data.length blocks.direct rest 0 freeMap direct
    (fun sector member => marked sector (by simp [FileBlocks.sectors, member]))
  rw [deallocate, count, ← list]
  simp only [Nat.zero_add] at cleared
  unfold FileBlocks.freed FileBlocks.data at *
  cases level : blocks.l1 with
  | none =>
      simp only [level, Option.elim_none, List.append_nil] at cleared ⊢
      simp only [cleared (Nat.le_refl _) (by simp), ok_bind]
      exact if_neg (Nat.lt_irrefl _)
  | some l1 =>
      have full := blocks.full (by rw [level]; rfl)
      have nonempty := l1.data_nonempty
      have whole : rest = [] := by
        have lengths := congrArg List.length list
        simp only [List.length_append, List.length_map, Vector.length_toList] at lengths
        exact List.eq_nil_of_length_eq_zero (by omega)
      have more : blocks.direct.length < blocks.direct.length + l1.data.length := by omega
      simp only [level, Option.elim_some, List.length_append] at cleared later apart ⊢
      have next := clearL1_eq (stored.l1 l1 level) later
        (BitMap.testBit_clearEach_of_marked
          (fun sector member => marked sector (by simp [FileBlocks.sectors, level, member]))
          (fun sector member inside => apart sector inside sector member rfl))
        blocks.direct.length
      simp only [cleared (by omega) (Or.inl whole), ok_bind, if_pos more, next,
        BitMap.clearEach_append]

end FileHeader

end Clearing

end Nachos
