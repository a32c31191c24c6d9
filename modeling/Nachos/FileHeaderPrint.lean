import Nachos.FileHeaderRoundTrip
import Nachos.FileTransfer

/-!
# The debugging dump of a file

`FileHeader::Print` goes through the table `dataSectors` alone, for all the
`numSectors` of the file.  The read path finds a sector with `ByteToSector`,
which takes it from the table for the first `NumDirect` sectors only.
-/

namespace Nachos

open TransitionRuns

namespace FileHeader

/-- What a `Print` that returned has done. -/
structure Dump where
  fileSize : CInt
  /-- The sector numbers in the line of the file blocks. -/
  fileBlocks : List CInt
  /-- The sectors that were read, in order. -/
  reads : List CInt
  /-- The bytes that were printed, one line for each sector. -/
  lines : List (List Byte)

namespace Dump

/-- The bytes of the file that were printed. -/
def bytes (dump : Dump) : List Byte :=
  dump.lines.flatten

/-- A printable character as it is, any other byte as `\%x`. -/
def printByte (byte : Byte) : String :=
  if 0o40 ≤ byte.toNat ∧ byte.toNat ≤ 0o176 then
    String.singleton (Char.ofNat byte.toNat)
  else "\\" ++ String.ofList (Nat.toDigits 16 byte.toNat)

/-- The output of `Print`. -/
def text (dump : Dump) : String :=
  "FileHeader contents.  File size: " ++ toString dump.fileSize.toInt ++
    ".  File blocks:\n" ++
    String.join (dump.fileBlocks.map fun sector => toString sector.toInt ++ " ") ++
    "\nFile contents:\n" ++
    String.join (dump.lines.map fun line => String.join (line.map printByte) ++ "\n")

example : text ⟨3, [5], [5], [[65, 10, 200]]⟩ =
    "FileHeader contents.  File size: 3.  File blocks:\n5 \nFile contents:\nA\\a\\c8\n" := by
  decide +kernel

end Dump

/-- `dataSectors[i]`: the table has `NumDirect` entries. -/
def dataSector (header : FileHeader) (i : Nat) : Except Fault CInt :=
  if inside : i < numDirect then .ok header.dataSectors[i]
  else .error .outOfBounds

/-- The loop that prints the file blocks. -/
def printBlocks (header : FileHeader) : List Nat → Except Fault (List CInt)
  | [] => .ok []
  | i :: rest => do
      let sector ← header.dataSector i
      let others ← header.printBlocks rest
      .ok (sector :: others)

/-- The inner loop over the bytes of a sector: `k` counts the bytes of the file
that were printed. -/
def printData (numBytes : Int) : List Byte → Nat → List Byte × Nat
  | [], k => ([], k)
  | byte :: rest, k =>
      if (k : Int) < numBytes then
        let (printed, k) := printData numBytes rest (k + 1)
        (byte :: printed, k)
      else ([], k)

/-- The loop that prints the file contents, with the sectors it reads. -/
def printContents (header : FileHeader) (disk : Disk) :
    List Nat → Nat → Except Fault (List CInt × List (List Byte))
  | [], _ => .ok ([], [])
  | i :: rest, k => do
      let sector ← header.dataSector i
      let data ← disk.readSector sector.toInt
      let (line, k) := printData header.numBytes.toInt data k
      let (reads, lines) ← header.printContents disk rest k
      .ok (sector :: reads, line :: lines)

/-- `FileHeader::Print`. -/
def print (header : FileHeader) (disk : Disk) : Except Fault Dump := do
  let indices := List.range header.numSectors.toInt.toNat
  let fileBlocks ← header.printBlocks indices
  let (reads, lines) ← header.printContents disk indices 0
  .ok ⟨header.numBytes, fileBlocks, reads, lines⟩

/-- An index beyond the table stops the loop. -/
theorem lt_numDirect_of_printBlocks {header : FileHeader} {indices : List Nat}
    {sectors : List CInt} (done : header.printBlocks indices = .ok sectors) :
    ∀ i ∈ indices, i < numDirect := by
  induction indices generalizing sectors with
  | nil => simp
  | cons i rest ih =>
      obtain ⟨sector, entry, done⟩ := bind_eq_ok_iff.mp done
      obtain ⟨others, later, -⟩ := bind_eq_ok_iff.mp done
      have inside : i < numDirect := by
        unfold dataSector at entry
        split at entry
        · assumption
        · cases entry
      intro j member
      rcases List.mem_cons.mp member with rfl | member
      · exact inside
      · exact ih later j member

/-- The inner loop prints what is left of the file, up to the whole sector. -/
theorem printData_eq (numBytes : Int) (data : List Byte) (k : Nat) :
    printData numBytes data k =
      (data.take (numBytes.toNat - k), k + min data.length (numBytes.toNat - k)) := by
  induction data generalizing k with
  | nil => simp [printData]
  | cons byte rest ih =>
      rw [printData]
      by_cases more : (k : Int) < numBytes
      · have left : numBytes.toNat - k = (numBytes.toNat - (k + 1)) + 1 := by omega
        rw [if_pos more, ih, left, List.take_succ_cons, List.length_cons]
        simp only [Prod.mk.injEq, true_and]
        omega
      · have none : numBytes.toNat - k = 0 := by omega
        rw [if_neg more, none]
        simp

section Table

variable {header : FileHeader} {sectors : List SectorNumber} {base : Nat}

/-- The table lists the sectors from an index on. -/
def Lists (header : FileHeader) (sectors : List SectorNumber) (base : Nat) : Prop :=
  ∀ (index : Nat) (inside : index < sectors.length),
    header.dataSector (base + index) = .ok (pointer sectors[index])

theorem Lists.head {sector : SectorNumber} (lists : header.Lists (sector :: sectors) base) :
    header.dataSector base = .ok (pointer sector) :=
  lists 0 (by simp)

theorem Lists.tail {sector : SectorNumber} (lists : header.Lists (sector :: sectors) base) :
    header.Lists sectors (base + 1) := by
  intro index inside
  have entry := lists (index + 1) (by simpa using inside)
  rw [List.getElem_cons_succ, ← Nat.add_assoc, Nat.add_right_comm] at entry
  exact entry

theorem printBlocks_eq (lists : header.Lists sectors base) :
    header.printBlocks (List.range' base sectors.length) = .ok (sectors.map pointer) := by
  induction sectors generalizing base with
  | nil => rfl
  | cons sector sectors ih =>
      rw [List.length_cons, List.range'_succ, printBlocks, lists.head, ok_bind,
        ih lists.tail]
      rfl

/-- The loop reads the sectors of the table in order and prints what is left of
the file. -/
theorem printContents_eq (disk : Disk) (k : Nat) (lists : header.Lists sectors base) :
    ∃ lines, header.printContents disk (List.range' base sectors.length) k =
        .ok (sectors.map pointer, lines) ∧
      lines.flatten = (disk.blocks sectors).take (header.numBytes.toInt.toNat - k) := by
  induction sectors generalizing base k with
  | nil => exact ⟨[], rfl, by simp [Disk.blocks]⟩
  | cons sector sectors ih =>
      have length : (disk sector.val).bytes.length = Disk.sectorSize :=
        (disk sector.val).length_bytes
      obtain ⟨lines, done, flatten⟩ := ih (k + min (disk sector.val).bytes.length
        (header.numBytes.toInt.toNat - k)) lists.tail
      refine ⟨(disk sector.val).bytes.take (header.numBytes.toInt.toNat - k) :: lines, ?_, ?_⟩
      · rw [List.length_cons, List.range'_succ, printContents, lists.head, ok_bind,
          Disk.readSector_pointer, ok_bind, printData_eq]
        simp only [done]
        rfl
      · have blocks : disk.blocks (sector :: sectors) =
            (disk sector.val).bytes ++ disk.blocks sectors := rfl
        rw [List.flatten_cons, flatten, blocks, List.take_append]
        congr 2
        omega

end Table

/-- The dump agrees with the read path: it reads the sectors that `ByteToSector`
finds, in order, and prints the bytes that `ReadAt` returns for the whole file. -/
def PrintsFile (header : FileHeader) (disk : Disk) : Prop :=
  ∃ dump, header.print disk = .ok dump ∧
    dump.reads.map Except.ok =
      (List.range header.numSectors.toInt.toNat).map (fun index =>
        header.byteToSector disk (index * Disk.sectorSize : Nat)) ∧
    dump.bytes.length = header.numBytes.toInt.toNat ∧
    OpenFile.readAt ⟨header, 0⟩ disk header.numBytes 0 = .ok dump.bytes

variable {header allocated : FileHeader} {freeMap freeMap' : BitMap Disk.numSectors}
  {fileSize : CInt} {before disk' disk : Disk}

/-- The sectors of a file without indirect pointers are those of the table. -/
theorem Maps.lists {sectors : List SectorNumber} (maps : header.Maps disk sectors)
    (direct : sectors.length ≤ numDirect) : header.Lists sectors 0 := by
  intro index inside
  have entry := maps.translate_here inside
  have block : index * Disk.sectorSize / Disk.sectorSize = index :=
    Nat.mul_div_cancel _ (by decide)
  rw [byteToSector_direct _ _ (by rw [block]; omega)] at entry
  simp only [block] at entry
  rw [Nat.zero_add, dataSector, dif_pos (by omega)]
  exact entry

/-- `Print` runs beyond the table for a file with indirect pointers. -/
theorem PrintsFile.numSectors_le (prints : header.PrintsFile disk) :
    header.numSectors.toInt ≤ numDirect := by
  obtain ⟨dump, printed, -⟩ := prints
  obtain ⟨fileBlocks, blocks, -⟩ := bind_eq_ok_iff.mp printed
  by_contra indirect
  have inside := lt_numDirect_of_printBlocks blocks numDirect
    (List.mem_range.mpr (by omega))
  omega

/-- The dump of a file without indirect pointers. -/
theorem Maps.print_eq {sectors : List SectorNumber} (maps : header.Maps disk sectors)
    (count : header.numSectors.toInt = sectors.length)
    (direct : sectors.length ≤ numDirect) :
    ∃ dump, header.print disk = .ok dump ∧ dump.fileBlocks = sectors.map pointer ∧
      dump.reads = sectors.map pointer ∧ dump.bytes = header.contents disk sectors := by
  have indices : header.numSectors.toInt.toNat = sectors.length := by omega
  have lists := maps.lists direct
  obtain ⟨lines, contents, flatten⟩ := printContents_eq disk 0 lists
  refine ⟨⟨header.numBytes, sectors.map pointer, sectors.map pointer, lines⟩, ?_, rfl, rfl,
    flatten⟩
  rw [print, indices, List.range_eq_range', printBlocks_eq lists, ok_bind]
  simp only [contents]
  rfl

theorem Maps.printsFile {sectors : List SectorNumber} (maps : header.Maps disk sectors)
    (count : header.numSectors.toInt = sectors.length)
    (direct : sectors.length ≤ numDirect) : header.PrintsFile disk := by
  have indices : header.numSectors.toInt.toNat = sectors.length := by omega
  obtain ⟨dump, printed, -, reads, whole⟩ := maps.print_eq count direct
  refine ⟨dump, printed, ?_, ?_, ?_⟩
  · rw [reads, indices]
    apply List.ext_getElem
    · simp
    · intro index inReads inFile
      have inside : index < sectors.length := by simpa using inReads
      rw [List.getElem_map, List.getElem_map, List.getElem_map, List.getElem_range,
        maps.translate_here inside]
  · rw [whole, length_contents maps]
    rfl
  · have size := header.fileLength.toInt_lt
    have mapped : (⟨header, 0⟩ : OpenFile).hdr.Maps disk sectors := maps
    have read := OpenFile.readAt_eq mapped 0 (by simpa using size)
    rw [whole]
    rw [List.drop_zero, List.take_of_length_le (length_contents maps).le] at read
    exact read

/-- The dump of an allocated file agrees with the read path exactly when the
file needs no indirect pointers. -/
theorem printsFile_iff
    (done : header.allocate freeMap fileSize before = .ok (true, allocated, freeMap', disk'))
    (kept : allocated.IndexKept disk' disk) :
    allocated.PrintsFile disk ↔
      fileSize.toInt ≤ (numDirect * Disk.sectorSize : Nat) := by
  obtain ⟨sectors, maps, count, -⟩ := exists_maps done kept
  rw [← numSectors_le_numDirect_iff, ← toInt_numSectors, ← (allocate_eq_true done).2.1]
  constructor
  · exact PrintsFile.numSectors_le
  · intro direct
    exact maps.printsFile count (by omega)

/-- A file of 30 blocks. -/
theorem printsFile_thirty :
    ∃ allocated freeMap' disk, blank.allocate emptyMap 3840 Disk.blank =
        .ok (true, allocated, freeMap', disk) ∧
      allocated.IndexKept disk disk ∧ allocated.PrintsFile disk := by
  obtain ⟨allocated, freeMap', disk, blocks, done, -⟩ :=
    @allocate_of_enough emptyMap 3840 blank Disk.blank (by decide)
      (by rw [numClear_emptyMap]; decide)
  have kept : allocated.IndexKept disk disk := fun _ _ _ _ => rfl
  exact ⟨allocated, freeMap', disk, done, kept, (printsFile_iff done kept).mpr (by decide)⟩

/-- A file of one byte more has an indirect pointer. -/
theorem not_printsFile :
    ∃ allocated freeMap' disk, blank.allocate emptyMap 3841 Disk.blank =
        .ok (true, allocated, freeMap', disk) ∧ ¬ allocated.PrintsFile disk := by
  obtain ⟨allocated, freeMap', disk, blocks, done, allocation⟩ :=
    @allocate_of_enough emptyMap 3841 blank Disk.blank (by decide)
      (by rw [numClear_emptyMap]; decide)
  refine ⟨allocated, freeMap', disk, done, ?_⟩
  intro prints
  have direct := prints.numSectors_le
  rw [allocation.numSectors] at direct
  exact absurd direct (by decide)

end FileHeader

end Nachos
