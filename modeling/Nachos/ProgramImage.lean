import Nachos.MachineMemory

/-!
# Loading a program

`AddrSpace::AddrSpace` copies the executable to the swap file and reads its segments
from there.  Both the copy and the segments start at `lastVpn * PageSize`, which counts
the pages of all the programs started before.
-/

namespace Nachos

open LittleEndianWords ByteStore TransitionRuns

/-- Addition of what does not leave the range of an `int`. -/
theorem wrapInt_add {value : Int} {base offset : Nat} (isBase : wrapInt value = base)
    (upper : base + offset < 2 ^ 31) : wrapInt (value + offset) = (base + offset : Nat) := by
  have split : wrapInt (value + offset) = wrapInt (wrapInt value + offset) :=
    Int.bmod_add_bmod.symm
  rw [split, isBase, Machine.wrapInt_of_small] <;> omega

namespace Program

/-- The byte of a segment that belongs at a virtual address. -/
def segmentByte (program : Program) (part : Segment) (address : Nat) : Option Byte :=
  if part.virtualAddr.toInt ≤ address ∧
      address < part.virtualAddr.toInt + part.size.toInt then
    some (program.executable.cells
      (part.inFileAddr.toInt + (address - part.virtualAddr.toInt)).toNat)
  else none

/-- The byte of the code or of the initialised data, which is loaded after the code. -/
def loadedByte (program : Program) (address : Nat) : Option Byte :=
  (program.segmentByte program.header.initData address).or
    (program.segmentByte program.header.code address)

/-- The contents of the address space: the segments, and zero elsewhere. -/
def byteAt (program : Program) (address : Nat) : Byte :=
  (program.loadedByte address).getD 0

/-- A segment that is loaded lies inside the address space and inside the file. -/
structure SegmentInside (program : Program) (part : Segment) : Prop where
  virtualAddr : 0 ≤ part.virtualAddr.toInt
  inFileAddr : 0 ≤ part.inFileAddr.toInt
  space : part.virtualAddr.toInt + part.size.toInt ≤
    (program.header.realNumPages * pageSize : Nat)
  file : part.inFileAddr.toInt + part.size.toInt ≤ program.executable.length

end Program

namespace Machine

/-- The first bytes of the executable are in the swap file from a position on. -/
def Copied (swap : UnixFile) (executable : UnixFile) (base count : Nat) : Prop :=
  ∀ offset < count,
    base + offset < swap.length ∧ swap.cells (base + offset) = executable.cells offset

/-- One round of the loop copies up to `sizeof(noffH)` bytes. -/
theorem Copied.round {swap executable : UnixFile} {base copied : Nat}
    (before : Copied swap executable base copied) (partly : copied ≤ executable.length) :
    Copied (File.write swap 0 (base + copied)
        (ByteStore.File.read executable copied NoffHeader.bytes))
      executable base (min (copied + NoffHeader.bytes) executable.length) := by
  intro offset inside
  generalize isData : ByteStore.File.read executable copied NoffHeader.bytes = data
  have length : data.length = min NoffHeader.bytes (executable.length - copied) := by
    rw [← isData, ByteStore.File.read, length_segment]
  by_cases old : offset < copied
  · obtain ⟨there, same⟩ := before offset old
    refine ⟨there.trans_le (File.length_le_length_write ..), ?_⟩
    rw [File.cells_write _ _ there (Or.inl (by omega)), same]
  · have inData : offset - copied < data.length := by omega
    have some_data : data.isEmpty = false := by
      rw [List.isEmpty_eq_false_iff]
      rintro rfl
      exact absurd inData (Nat.not_lt_zero _)
    constructor
    · simp only [File.write, some_data, Bool.false_eq_true, if_false]
      omega
    · have position : base + offset - (base + copied) = offset - copied := by omega
      have byte : data[offset - copied] = executable.cells offset := by
        subst isData
        simp only [ByteStore.File.read, ByteStore.segment, List.getElem_map,
          List.getElem_range]
        congr 1
        omega
      simp only [File.write, overwrite, if_pos (show base + copied ≤ base + offset by omega),
        position, List.getElem?_eq_getElem inData, Option.getD_some, byte]

theorem writeAt_eq {file : UnixFile} {data : List Byte} {position : Int}
    (nonneg : 0 ≤ position) :
    file.writeAt data position = .ok (File.write file 0 position.toNat data) := by
  simp [UnixFile.writeAt, UnixFile.lseek, nonneg, Except.map]

/-- The rounds of the loop. -/
theorem copyExecutable_rounds {machine : Machine} {executable : UnixFile} {base : Nat}
    (isBase : wrapInt (machine.lastVpn * pageSize) = base)
    (fits : base + executable.length < 2 ^ 31) (rounds : Nat)
    (few : rounds ≤ executable.length / NoffHeader.bytes + 1) :
    ∃ swap, (List.range rounds).foldlM
        (fun swap round => do
          let swapOffset : Nat := NoffHeader.bytes * round
          let data ← executable.readAt NoffHeader.bytes (wrapInt swapOffset)
          swap.writeAt data (wrapInt (machine.lastVpn * pageSize + swapOffset)))
        machine.swap = Except.ok swap ∧
      Copied swap executable base (min (NoffHeader.bytes * rounds) executable.length) := by
  induction rounds with
  | zero =>
      refine ⟨machine.swap, rfl, ?_⟩
      intro offset inside
      omega
  | succ rounds ih =>
      obtain ⟨swap, earlier, copied⟩ := ih (by omega)
      have inFile : NoffHeader.bytes * rounds ≤ executable.length := by
        have quotient : rounds ≤ executable.length / NoffHeader.bytes := by omega
        exact (Nat.mul_le_mul_left _ quotient).trans (Nat.mul_div_le _ _)
      have position : wrapInt (NoffHeader.bytes * rounds : Nat) =
          (NoffHeader.bytes * rounds : Nat) :=
        wrapInt_of_small (by omega) (by omega)
      rw [Nat.min_eq_left inFile] at copied
      refine ⟨_, ?_, by simpa only [Nat.mul_succ] using copied.round inFile⟩
      rw [List.range_succ, List.foldlM_append, earlier]
      simp only [ok_bind, List.foldlM_cons, List.foldlM_nil, position,
        wrapInt_add isBase (show base + NoffHeader.bytes * rounds < 2 ^ 31 by omega)]
      rw [readAt_eq (by omega), ok_bind, writeAt_eq (by omega)]
      rfl

theorem copyExecutable_eq {machine : Machine} {executable : UnixFile} {base : Nat}
    (isBase : wrapInt (machine.lastVpn * pageSize) = base)
    (fits : base + executable.length < 2 ^ 31) :
    ∃ swap, machine.copyExecutable executable = .ok swap ∧
      Copied swap executable base executable.length := by
  obtain ⟨swap, done, copied⟩ := copyExecutable_rounds isBase fits _ le_rfl
  refine ⟨swap, done, ?_⟩
  have whole : executable.length ≤
      NoffHeader.bytes * (executable.length / NoffHeader.bytes + 1) := by
    have remainder := Nat.div_add_mod executable.length NoffHeader.bytes
    have small : executable.length % NoffHeader.bytes < NoffHeader.bytes :=
      Nat.mod_lt _ (by decide)
    rw [Nat.mul_succ]
    omega
  rwa [Nat.min_eq_right whole] at copied

theorem segment_of_copied {swap executable : UnixFile} {base position count : Nat}
    (copied : Copied swap executable base executable.length)
    (inside : position + count ≤ executable.length) :
    ByteStore.File.read swap (base + position) count =
      segment executable.cells position count := by
  have there : count ≤ swap.length - (base + position) := by
    by_cases nothing : count = 0
    · omega
    · have last := (copied (position + count - 1) (by omega)).1
      omega
  rw [File.read, Nat.min_eq_left there]
  apply List.ext_getElem
  · simp
  · intro index inFirst inSecond
    have small : index < count := by simpa using inSecond
    have same := (copied (position + index) (by omega)).2
    simp only [ByteStore.segment, List.getElem_map, List.getElem_range, Nat.add_assoc]
    exact same

/-- The bytes of a segment, as they are read from the executable. -/
theorem segmentByte_eq {program : Program} {part : Segment} {start position size : Nat}
    (isStart : part.virtualAddr.toInt = start) (isPosition : part.inFileAddr.toInt = position)
    (isSize : part.size.toInt = size) :
    program.segmentByte part = fun offset =>
      if start ≤ offset then (segment program.executable.cells position size)[offset - start]?
      else none := by
  funext offset
  unfold Program.segmentByte
  rw [isStart, isPosition, isSize]
  by_cases after : start ≤ offset
  · rw [if_pos after]
    by_cases before : offset < start + size
    · rw [if_pos (by omega), List.getElem?_eq_getElem (by rw [length_segment]; omega)]
      simp only [ByteStore.segment, List.getElem_map, List.getElem_range]
      congr 2
      omega
    · rw [if_neg (by omega), List.getElem?_eq_none (by rw [length_segment]; omega)]
  · rw [if_neg after, if_neg (by omega)]

/-- A segment is put into the memory from `lastVpn * PageSize` on. -/
theorem loadSegment_eq {machine : Machine} {program : Program} {part : Segment} {base : Nat}
    (isBase : wrapInt (machine.lastVpn * pageSize) = base)
    (fits : base + program.executable.length < 2 ^ 31)
    (copied : Copied machine.swap program.executable base program.executable.length)
    (inside : 0 < part.size.toInt → program.SegmentInside part)
    (inMemory : 0 < part.size.toInt →
      base + part.virtualAddr.toInt + part.size.toInt ≤ memorySize) :
    ∃ loaded, machine.loadSegment part = .ok loaded ∧ loaded.swap = machine.swap ∧
      loaded.lastVpn = machine.lastVpn ∧
      loaded.mainMemory =
        overlay base (program.segmentByte part) machine.mainMemory := by
  unfold loadSegment
  by_cases some_bytes : 0 < part.size.toInt
  · rw [if_pos some_bytes]
    have bounds := inside some_bytes
    have room := inMemory some_bytes
    obtain ⟨start, isStart⟩ := Int.eq_ofNat_of_zero_le bounds.virtualAddr
    obtain ⟨position, isPosition⟩ := Int.eq_ofNat_of_zero_le bounds.inFileAddr
    have isSize : part.size.toInt = part.size.toNat := by
      have size := part.size.isLt
      rw [BitVec.toInt_eq_toNat_cond] at some_bytes ⊢
      split at some_bytes <;> split <;> omega
    have inFile := bounds.file
    rw [isStart, isSize] at room
    rw [isPosition, isSize] at inFile
    have memory : (memorySize : Int) = 4096 := rfl
    have address : wrapInt (part.virtualAddr.toInt + machine.lastVpn * pageSize) =
        (base + start : Nat) := by
      rw [isStart, add_comm, wrapInt_add isBase (by omega)]
    have offset : wrapInt (part.inFileAddr.toInt + machine.lastVpn * pageSize) =
        (base + position : Nat) := by
      rw [isPosition, add_comm, wrapInt_add isBase (by omega)]
    have data := segment_of_copied copied (by omega : position + part.size.toNat ≤ _)
    unfold readSwapInto
    rw [address, offset, readAt_eq (by omega), ok_bind, Int.toNat_natCast, data]
    have some_data : (segment program.executable.cells position part.size.toNat).isEmpty =
        false := by
      rw [List.isEmpty_eq_false_iff, ← List.length_pos_iff, length_segment]
      omega
    have placed : (0 : Int) ≤ (base + start : Nat) ∧ ((base + start : Nat) : Int) +
        (segment program.executable.cells position part.size.toNat).length ≤ memorySize := by
      rw [length_segment]
      omega
    rw [if_neg (by rw [some_data]; exact Bool.false_ne_true), if_pos placed]
    refine ⟨_, rfl, rfl, rfl, ?_⟩
    rw [segmentByte_eq isStart isPosition isSize, ← overwrite_eq_overlay]
    rfl
  · rw [if_neg some_bytes]
    refine ⟨machine, rfl, rfl, rfl, ?_⟩
    have nothing : program.segmentByte part = fun _ => none := by
      funext address
      exact if_neg (by omega)
    rw [nothing, overlay_none]

/-- The memory behind the segments: cleared up to the size of the address space when the
first page is frame 0. -/
def background (machine : Machine) (program : Program) (firstPhysicalPage : Option Int) :
    Nat → Byte :=
  fun address =>
    if firstPhysicalPage = some 0 ∧ address < program.header.realNumPages * pageSize then 0
    else machine.mainMemory address

/-- The code and the initialised data can be loaded. -/
structure SegmentsFit (machine : Machine) (program : Program) (base : Nat) : Prop where
  isBase : wrapInt (machine.lastVpn * pageSize) = base
  fits : base + program.executable.length < 2 ^ 31
  inside : ∀ part, part = program.header.code ∨ part = program.header.initData →
    0 < part.size.toInt → program.SegmentInside part
  inMemory : ∀ part, part = program.header.code ∨ part = program.header.initData →
    0 < part.size.toInt → base + part.virtualAddr.toInt + part.size.toInt ≤ memorySize

theorem zeroFirst_eq (machine : Machine) {program : Program}
    (few : program.header.realNumPages ≤ numPhysPages) (firstPhysicalPage : Option Int) :
    machine.zeroFirst program.header firstPhysicalPage =
      .ok { machine with mainMemory := machine.background program firstPhysicalPage } := by
  have size : program.header.realNumPages * pageSize ≤ memorySize :=
    Nat.mul_le_mul_right pageSize few
  have memory : memorySize = 4096 := rfl
  have unsigned : program.header.realNumPages * pageSize % 2 ^ 32 =
      program.header.realNumPages * pageSize := Nat.mod_eq_of_lt (by omega)
  unfold zeroFirst
  split
  · next isZero =>
    rw [unsigned, zeroMemory, if_pos size]
    unfold background
    simp only [isZero, true_and]
  · next notZero =>
    unfold background
    simp only [notZero, false_and, if_false]

/-- What the constructor makes of the main memory. -/
theorem loadProgram_eq {machine : Machine} {program : Program} {base : Nat}
    {firstPhysicalPage : Option Int} (fit : machine.SegmentsFit program base)
    (few : program.header.realNumPages ≤ numPhysPages) :
    ∃ loaded, machine.loadProgram true program firstPhysicalPage = .ok loaded ∧
      loaded.lastVpn = wrapInt (machine.lastVpn + program.header.numPages) ∧
      loaded.mainMemory =
        overlay base program.loadedByte (machine.background program firstPhysicalPage) := by
  obtain ⟨isBase, fits, inside, inMemory⟩ := fit
  generalize isHeader : File.write machine.swap 0 base program.headerBytes = swap
  obtain ⟨copy, copying, copied⟩ :=
    copyExecutable_eq (by exact isBase : wrapInt
      (({ machine with swap := swap } : Machine).lastVpn * pageSize) = base) fits
  generalize isCleared : ({ machine with
    swap := copy, mainMemory := machine.background program firstPhysicalPage } : Machine) =
      cleared
  have offset : (cleared.setCodeOffset program.header.code).swap = copy ∧
      (cleared.setCodeOffset program.header.code).lastVpn = machine.lastVpn ∧
      (cleared.setCodeOffset program.header.code).mainMemory =
        machine.background program firstPhysicalPage := by
    unfold setCodeOffset
    subst isCleared
    split <;> exact ⟨rfl, rfl, rfl⟩
  obtain ⟨offset_swap, offset_lastVpn, offset_memory⟩ := offset
  obtain ⟨code, loadCode, code_swap, code_lastVpn, code_memory⟩ :=
    loadSegment_eq (by rwa [offset_lastVpn]) fits (by rwa [offset_swap])
      (inside _ (Or.inl rfl)) (inMemory _ (Or.inl rfl))
  obtain ⟨data, loadData, -, data_lastVpn, data_memory⟩ :=
    loadSegment_eq (by rwa [code_lastVpn, offset_lastVpn]) fits
      (by rwa [code_swap, offset_swap]) (inside _ (Or.inr rfl)) (inMemory _ (Or.inr rfl))
  refine ⟨{ data with lastVpn := wrapInt (data.lastVpn + program.header.numPages) }, ?_, ?_, ?_⟩
  · unfold loadProgram
    rw [isBase, writeAt_eq (by omega), ok_bind, Int.toNat_natCast, isHeader, copying, ok_bind,
      zeroFirst_eq _ few, ok_bind]
    have loaded : cleared.loadFromSwap true program.header = .ok data := by
      rw [loadFromSwap, if_pos rfl, loadCode, ok_bind, loadData]
    subst isCleared
    exact bind_eq_ok_iff.mpr ⟨data, loaded, rfl⟩
  · rw [data_lastVpn, code_lastVpn, offset_lastVpn]
  · change data.mainMemory = _
    rw [data_memory, code_memory, offset_memory, overlay_overlay]
    rfl

end Machine

end Nachos
