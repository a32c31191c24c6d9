import Nachos.OpenFileContents

/-!
# The blocks of a file

`Allocate` lays the sectors it was given out with one running counter: the
direct pointers, the sector of `L1Index` followed by the data it points to, and
the sector of `L2Index` followed by further such tables.  The types below hold
the sectors of a file by the way they are reached, and can only be built when
every level is full before the next one starts.
-/

namespace Nachos

open LittleEndianWords TransitionRuns

/-- A sector of pointers, with the data sectors it lists. -/
structure DataTable where
  sector : SectorNumber
  data : List SectorNumber
  nonempty : 0 < data.length
  length_le : data.length ≤ l1IndexNum

/-- Only the last of the tables may be partly filled. -/
def DataTable.Packed : List DataTable → Prop
  | [] => True
  | table :: tables =>
      (tables ≠ [] → table.data.length = l1IndexNum) ∧ Packed tables

/-- The sectors that are reached through `L2Index`. -/
structure L2Blocks where
  sector : SectorNumber
  tables : List DataTable
  nonempty : tables ≠ []
  length_le : tables.length ≤ l1IndexNum
  packed : DataTable.Packed tables

/-- The sectors that are reached through `L1Index` and, if it does not suffice,
through `L2Index`. -/
structure L1Blocks where
  table : DataTable
  l2 : Option L2Blocks
  full : l2.isSome → table.data.length = l1IndexNum

/-- The sectors of a file. -/
structure FileBlocks where
  direct : List SectorNumber
  l1 : Option L1Blocks
  length_le : direct.length ≤ numDirect
  full : l1.isSome → direct.length = numDirect

namespace DataTable

/-- In the order in which `sectorsGet` is used up. -/
def sectors (table : DataTable) : List SectorNumber :=
  table.sector :: table.data

/-- In the order in which `Deallocate` clears them. -/
def freed (table : DataTable) : List SectorNumber :=
  table.data ++ [table.sector]

theorem freed_perm (table : DataTable) : table.freed.Perm table.sectors :=
  List.perm_append_singleton _ _

/-- The tables that a number of data sectors fills. -/
theorem Packed.length_eq {tables : List DataTable} (packed : Packed tables) :
    tables.length = ((tables.flatMap data).length + l1IndexNum - 1) / l1IndexNum := by
  induction tables with
  | nil => rfl
  | cons table tables ih =>
      have positive := table.nonempty
      have bound := table.length_le
      have later := ih packed.2
      simp only [l1IndexNum, Disk.sectorSize] at *
      rw [List.length_cons, List.flatMap_cons, List.length_append]
      by_cases last : tables = []
      · subst last
        simp only [List.flatMap_nil, List.length_nil]
        omega
      · have full := packed.1 last
        simp only [l1IndexNum, Disk.sectorSize] at full
        omega

/-- Block `index` of the tables is found by the division of `ByteToSector`. -/
theorem Packed.getElem?_data {tables : List DataTable} (packed : Packed tables)
    (index : Nat) :
    (tables.flatMap data)[index]? =
      tables[index / l1IndexNum]?.bind fun table => table.data[index % l1IndexNum]? := by
  induction tables generalizing index with
  | nil => simp
  | cons table tables ih =>
      have positive : 0 < l1IndexNum := by decide
      have bound := table.length_le
      rw [List.flatMap_cons]
      by_cases here : index < l1IndexNum
      · rw [Nat.div_eq_of_lt here, Nat.mod_eq_of_lt here, List.getElem?_cons_zero,
          Option.bind_some]
        by_cases within : index < table.data.length
        · rw [List.getElem?_append_left within]
        · have last : tables = [] := by
            by_contra more
            have full := packed.1 more
            omega
          subst last
          simp
      · obtain ⟨next, rfl⟩ := Nat.exists_eq_add_of_le (Nat.not_lt.mp here)
        rw [Nat.add_div_left _ positive, Nat.add_mod_left, List.getElem?_cons_succ,
          List.getElem?_append_right (by omega)]
        by_cases last : tables = []
        · subst last
          simp
        · rw [packed.1 last, Nat.add_sub_cancel_left]
          exact ih packed.2 next

/-- A list of sectors is dealt out to tables, each of which comes before its
data. -/
theorem exists_packed (count : Nat) (sectors : List SectorNumber)
    (length : sectors.length = count + (count + l1IndexNum - 1) / l1IndexNum) :
    ∃ tables, Packed tables ∧ tables.flatMap DataTable.sectors = sectors ∧
      (tables.flatMap data).length = count := by
  induction count using Nat.strong_induction_on generalizing sectors with
  | _ count ih =>
    simp only [l1IndexNum, Disk.sectorSize] at *
    by_cases none : count = 0
    · subst none
      obtain rfl : sectors = [] := List.eq_nil_of_length_eq_zero (by omega)
      exact ⟨[], trivial, rfl, rfl⟩
    · cases sectors with
      | nil =>
          simp only [List.length_nil] at length
          omega
      | cons first sectors =>
          rw [List.length_cons] at length
          have taken : (sectors.take 32).length = min count 32 := by
            rw [List.length_take]
            omega
          have left : (sectors.drop 32).length =
              (count - 32) + ((count - 32) + 31) / 32 := by
            rw [List.length_drop]
            omega
          obtain ⟨tables, packed, all, total⟩ := ih (count - 32) (by omega) _ left
          let table : DataTable := {
            sector := first
            data := sectors.take 32
            nonempty := by omega
            length_le := by
              simp only [l1IndexNum, Disk.sectorSize]
              omega }
          refine ⟨table :: tables, ⟨?_, packed⟩, ?_, ?_⟩
          · intro more
            have positive : 0 < (tables.flatMap data).length := by
              cases tables with
              | nil => contradiction
              | cons next tables =>
                  have := next.nonempty
                  rw [List.flatMap_cons, List.length_append]
                  omega
            simp only [table, l1IndexNum, Disk.sectorSize]
            omega
          · rw [List.flatMap_cons, all]
            simp [table, DataTable.sectors]
          · rw [List.flatMap_cons, List.length_append, total, taken]
            omega

theorem sectors_perm (tables : List DataTable) :
    (tables.flatMap sectors).Perm (tables.flatMap data ++ tables.map sector) := by
  induction tables with
  | nil => exact List.Perm.refl _
  | cons table tables ih =>
      rw [List.perm_iff_count]
      intro sector
      have counts := ih.count_eq sector
      simp only [List.flatMap_cons, List.map_cons, sectors, List.count_append,
        List.count_cons] at *
      omega

theorem flatMap_freed_perm (tables : List DataTable) :
    (tables.flatMap freed).Perm (tables.flatMap sectors) := by
  induction tables with
  | nil => exact List.Perm.refl _
  | cons table tables ih =>
      rw [List.flatMap_cons, List.flatMap_cons]
      exact table.freed_perm.append ih

end DataTable

namespace L2Blocks

def sectors (blocks : L2Blocks) : List SectorNumber :=
  blocks.sector :: blocks.tables.flatMap DataTable.sectors

def data (blocks : L2Blocks) : List SectorNumber :=
  blocks.tables.flatMap DataTable.data

/-- The sectors of pointers. -/
def index (blocks : L2Blocks) : List SectorNumber :=
  blocks.sector :: blocks.tables.map DataTable.sector

def freed (blocks : L2Blocks) : List SectorNumber :=
  blocks.tables.flatMap DataTable.freed ++ [blocks.sector]

theorem sectors_perm (blocks : L2Blocks) :
    blocks.sectors.Perm (blocks.data ++ blocks.index) := by
  rw [List.perm_iff_count]
  intro sector
  have counts := (DataTable.sectors_perm blocks.tables).count_eq sector
  simp only [sectors, data, index, List.count_append, List.count_cons] at *
  omega

theorem freed_perm (blocks : L2Blocks) : blocks.freed.Perm blocks.sectors :=
  (List.perm_append_singleton _ _).trans
    ((DataTable.flatMap_freed_perm blocks.tables).cons _)

/-- The tables that `Allocate` counts as `adSector`. -/
theorem length_tables (blocks : L2Blocks) :
    blocks.tables.length = (blocks.data.length + l1IndexNum - 1) / l1IndexNum :=
  blocks.packed.length_eq

theorem data_nonempty (blocks : L2Blocks) : 0 < blocks.data.length := by
  have tables := blocks.length_tables
  have nonempty : 0 < blocks.tables.length := List.length_pos_of_ne_nil blocks.nonempty
  simp only [l1IndexNum, Disk.sectorSize] at tables
  omega

end L2Blocks

namespace L1Blocks

def sectors (blocks : L1Blocks) : List SectorNumber :=
  blocks.table.sectors ++ blocks.l2.elim [] L2Blocks.sectors

def data (blocks : L1Blocks) : List SectorNumber :=
  blocks.table.data ++ blocks.l2.elim [] L2Blocks.data

def index (blocks : L1Blocks) : List SectorNumber :=
  blocks.table.sector :: blocks.l2.elim [] L2Blocks.index

def freed (blocks : L1Blocks) : List SectorNumber :=
  blocks.table.data ++ blocks.l2.elim [] L2Blocks.freed ++ [blocks.table.sector]

theorem sectors_perm (blocks : L1Blocks) :
    blocks.sectors.Perm (blocks.data ++ blocks.index) := by
  rw [List.perm_iff_count]
  intro sector
  unfold sectors data index DataTable.sectors
  cases blocks.l2 with
  | none => simp [List.count_cons]
  | some l2 =>
      have counts := l2.sectors_perm.count_eq sector
      simp only [Option.elim_some, List.count_append, List.count_cons] at *
      omega

theorem freed_perm (blocks : L1Blocks) : blocks.freed.Perm blocks.sectors := by
  rw [List.perm_iff_count]
  intro sector
  unfold freed sectors DataTable.sectors
  cases blocks.l2 with
  | none => simp [List.count_cons]
  | some l2 =>
      have counts := l2.freed_perm.count_eq sector
      simp only [Option.elim_some, List.count_append, List.count_cons,
        List.count_nil] at *
      omega

theorem data_nonempty (blocks : L1Blocks) : 0 < blocks.data.length := by
  rw [data, List.length_append]
  exact Nat.add_pos_left blocks.table.nonempty _

end L1Blocks

namespace FileBlocks

def sectors (blocks : FileBlocks) : List SectorNumber :=
  blocks.direct ++ blocks.l1.elim [] L1Blocks.sectors

def data (blocks : FileBlocks) : List SectorNumber :=
  blocks.direct ++ blocks.l1.elim [] L1Blocks.data

def index (blocks : FileBlocks) : List SectorNumber :=
  blocks.l1.elim [] L1Blocks.index

def freed (blocks : FileBlocks) : List SectorNumber :=
  blocks.direct ++ blocks.l1.elim [] L1Blocks.freed

theorem sectors_perm (blocks : FileBlocks) :
    blocks.sectors.Perm (blocks.data ++ blocks.index) := by
  unfold sectors data index
  cases blocks.l1 with
  | none => simp
  | some l1 =>
      rw [Option.elim_some, Option.elim_some, Option.elim_some, List.append_assoc]
      exact l1.sectors_perm.append_left _

theorem freed_perm (blocks : FileBlocks) : blocks.freed.Perm blocks.sectors := by
  unfold freed sectors
  cases blocks.l1 with
  | none => exact List.Perm.refl _
  | some l1 => exact l1.freed_perm.append_left _

theorem mem_sectors (blocks : FileBlocks) {sector : SectorNumber} :
    sector ∈ blocks.sectors ↔ sector ∈ blocks.data ∨ sector ∈ blocks.index := by
  rw [blocks.sectors_perm.mem_iff, List.mem_append]

end FileBlocks

/-- The sectors of pointers that a file needs besides its data. -/
def indexCount (numSectors : Nat) : Nat :=
  if numSectors ≤ numDirect then 0
  else if numSectors ≤ numDirect + l1IndexNum then 1
  else 2 + (numSectors - numDirect - l1IndexNum + l1IndexNum - 1) / l1IndexNum

theorem L2Blocks.exists_of_length {count : Nat} (positive : 0 < count)
    (limit : count ≤ l1IndexNum * l1IndexNum) {sectors : List SectorNumber}
    (length : sectors.length = 1 + count + (count + l1IndexNum - 1) / l1IndexNum) :
    ∃ blocks : L2Blocks, blocks.sectors = sectors ∧ blocks.data.length = count := by
  cases sectors with
  | nil =>
      rw [List.length_nil, Nat.add_assoc, Nat.add_comm] at length
      exact absurd length.symm (Nat.succ_ne_zero _)
  | cons first found =>
      rw [List.length_cons, Nat.add_assoc, Nat.add_comm] at length
      obtain ⟨tables, packed, all, total⟩ :=
        DataTable.exists_packed count found (Nat.add_left_cancel length)
      have nonempty : tables ≠ [] := by
        rintro rfl
        rw [List.flatMap_nil, List.length_nil] at total
        omega
      have few : tables.length ≤ l1IndexNum := by
        rw [packed.length_eq, total]
        simp only [l1IndexNum, Disk.sectorSize] at *
        omega
      refine ⟨⟨first, tables, nonempty, few, packed⟩, ?_, total⟩
      rw [sectors, all]

theorem L1Blocks.exists_of_length {count : Nat} (positive : 0 < count)
    (limit : count ≤ l1IndexNum + l1IndexNum * l1IndexNum)
    {sectors : List SectorNumber}
    (length : sectors.length = count + indexCount (numDirect + count)) :
    ∃ blocks : L1Blocks, blocks.sectors = sectors ∧ blocks.data.length = count := by
  unfold indexCount at length
  rw [if_neg (by omega)] at length
  cases sectors with
  | nil =>
      rw [List.length_nil] at length
      omega
  | cons first found =>
      rw [List.length_cons] at length
      by_cases small : count ≤ l1IndexNum
      · rw [if_pos (by omega)] at length
        let table : DataTable := {
          sector := first
          data := found
          nonempty := by omega
          length_le := by omega }
        refine ⟨⟨table, none, by simp⟩, ?_, ?_⟩
        · simp [L1Blocks.sectors, DataTable.sectors, table]
        · simp only [data, table, Option.elim_none, List.append_nil]
          omega
      · rw [if_neg (by omega)] at length
        have rest : numDirect + count - numDirect - l1IndexNum = count - l1IndexNum := by
          omega
        rw [rest] at length
        generalize tables :
          (count - l1IndexNum + l1IndexNum - 1) / l1IndexNum = adSector at length
        have taken : (found.take l1IndexNum).length = l1IndexNum := by
          rw [List.length_take]
          omega
        obtain ⟨l2, all, total⟩ := L2Blocks.exists_of_length
          (show 0 < count - l1IndexNum by omega) (by omega)
          (show (found.drop l1IndexNum).length = _ by
            rw [List.length_drop, tables]
            omega)
        let table : DataTable := {
          sector := first
          data := found.take l1IndexNum
          nonempty := by rw [taken]; decide
          length_le := Nat.le_of_eq taken }
        refine ⟨⟨table, some l2, fun _ => taken⟩, ?_, ?_⟩
        · simp [L1Blocks.sectors, DataTable.sectors, table, all]
        · simp only [data, table, Option.elim_some, List.length_append, total, taken]
          omega

/-- The sectors that a file needs are split into its blocks. -/
theorem FileBlocks.exists_of_length {count : Nat}
    (limit : count ≤ numDirect + l1IndexNum + l1IndexNum * l1IndexNum)
    {sectors : List SectorNumber}
    (length : sectors.length = count + indexCount count) :
    ∃ blocks : FileBlocks, blocks.sectors = sectors ∧ blocks.data.length = count := by
  by_cases small : count ≤ numDirect
  · rw [indexCount, if_pos small] at length
    refine ⟨⟨sectors, none, by omega, by simp⟩, ?_, ?_⟩
    · simp [FileBlocks.sectors]
    · simp only [data, Option.elim_none, List.append_nil]
      omega
  · obtain ⟨rest, rfl⟩ := Nat.exists_eq_add_of_le (Nat.le_of_not_le small)
    have taken : (sectors.take numDirect).length = numDirect := by
      rw [List.length_take]
      omega
    obtain ⟨l1, all, total⟩ := L1Blocks.exists_of_length
      (show 0 < rest by omega) (by omega)
      (show (sectors.drop numDirect).length = _ by
        rw [List.length_drop]
        omega)
    refine ⟨⟨sectors.take numDirect, some l1, Nat.le_of_eq taken, fun _ => taken⟩,
      ?_, ?_⟩
    · simp [FileBlocks.sectors, all]
    · simp only [data, Option.elim_some, List.length_append, total, taken]

theorem FileBlocks.length_index (blocks : FileBlocks) :
    blocks.index.length = indexCount blocks.data.length := by
  have bound := blocks.length_le
  unfold index data indexCount
  cases level : blocks.l1 with
  | none =>
      simp only [Option.elim_none, List.append_nil, List.length_nil]
      rw [if_pos bound]
  | some l1 =>
      have direct := blocks.full (by rw [level]; rfl)
      have positive := l1.table.nonempty
      have limit := l1.table.length_le
      simp only [Option.elim_some, List.length_append, L1Blocks.data, L1Blocks.index,
        List.length_cons, direct]
      rw [if_neg (by omega)]
      cases further : l1.l2 with
      | none =>
          simp only [Option.elim_none, List.length_nil]
          exact (if_pos (by omega)).symm
      | some l2 =>
          have full := l1.full (by rw [further]; rfl)
          have tables := l2.length_tables
          have nonempty := l2.data_nonempty
          have rest : numDirect + (l1IndexNum + l2.data.length) - numDirect -
              l1IndexNum = l2.data.length := by omega
          simp only [Option.elim_some, full, L2Blocks.index, List.length_cons,
            List.length_map, tables]
          rw [if_neg (by omega), rest]
          omega

end Nachos
