import Nachos.FileHeaderAllocate
import Nachos.OpenFile

/-!
# The contents of a file

A header maps the blocks of a file to distinct sectors of the disk.  The
contents of the file are then the bytes of these sectors, cut to its length, and
`ReadAt` and `WriteAt` read and overwrite a segment of them.
-/

namespace Nachos

open LittleEndianWords ListSplice TransitionRuns

namespace Disk

/-- The bytes of a list of sectors, one after another. -/
def blocks (disk : Disk) (sectors : List SectorNumber) : List Byte :=
  sectors.flatMap fun sector => (disk sector.val).bytes

@[simp]
theorem length_blocks (disk : Disk) (sectors : List SectorNumber) :
    (disk.blocks sectors).length = sectors.length * sectorSize :=
  length_flatMap_blocks fun sector _ => (disk sector.val).length_bytes

theorem getElem?_blocks (disk : Disk) (sectors : List SectorNumber)
    {index position : Nat} (within : position < sectorSize) :
    (disk.blocks sectors)[index * sectorSize + position]? =
      sectors[index]?.bind fun sector => (disk sector.val).bytes[position]? :=
  getElem?_flatMap_blocks (fun sector _ => (disk sector.val).length_bytes) within

/-- Two states of the disk that differ at most in the listed sectors. -/
def AgreeOutside (sectors : List SectorNumber) (disk after : Disk) : Prop :=
  ∀ sector : Nat, (∀ member ∈ sectors, member.val ≠ sector) →
    after sector = disk sector

end Disk

namespace FileHeader

/-- The header finds block `i` of the file in sector `i` of the list, whatever
these sectors contain. -/
structure Maps (header : FileHeader) (disk : Disk) (sectors : List SectorNumber) :
    Prop where
  nodup : sectors.Nodup
  count : header.fileLength.toInt ≤ sectors.length * Disk.sectorSize
  translate : ∀ after, disk.AgreeOutside sectors after →
    ∀ (index : Nat) (inside : index < sectors.length),
      header.byteToSector after (index * Disk.sectorSize : Nat) =
        .ok (pointer sectors[index])

/-- A header that only uses its direct pointers maps the file to them. -/
theorem Direct.maps {header : FileHeader} {sectors : List SectorNumber}
    (direct : header.Direct sectors) (distinct : sectors.Nodup)
    (count : header.fileLength.toInt ≤ sectors.length * Disk.sectorSize)
    (disk : Disk) : header.Maps disk sectors where
  nodup := distinct
  count := count
  translate after _ index inside := by
    have length := direct.length_le
    have block : index * Disk.sectorSize / Disk.sectorSize = index :=
      Nat.mul_div_cancel _ (by decide)
    rw [byteToSector_direct _ _ (by rw [block]; omega)]
    simp only [block]
    rw [direct.dataSectors index inside (by omega)]

/-- The bytes of the file. -/
def contents (header : FileHeader) (disk : Disk) (sectors : List SectorNumber) :
    List Byte :=
  (disk.blocks sectors).take header.fileLength.toInt.toNat

variable {header : FileHeader} {disk : Disk} {sectors : List SectorNumber}

theorem Maps.translate_here (maps : header.Maps disk sectors) {index : Nat}
    (inside : index < sectors.length) :
    header.byteToSector disk (index * Disk.sectorSize : Nat) =
      .ok (pointer sectors[index]) :=
  maps.translate disk (fun _ _ => rfl) index inside

/-- The map stays valid when only sectors of the file change. -/
theorem Maps.of_agreeOutside {after : Disk} (maps : header.Maps disk sectors)
    (agree : disk.AgreeOutside sectors after) : header.Maps after sectors where
  nodup := maps.nodup
  count := maps.count
  translate last later := maps.translate last fun sector outside =>
    (later sector outside).trans (agree sector outside)

theorem Maps.length_le (maps : header.Maps disk sectors) :
    sectors.length ≤ Disk.numSectors := by
  simpa using maps.nodup.length_le_card

theorem length_contents (maps : header.Maps disk sectors) :
    (header.contents disk sectors).length = header.fileLength.toInt.toNat := by
  have count := maps.count
  rw [contents, List.length_take, Disk.length_blocks]
  omega

/-- A byte of the file is one of a sector. -/
theorem getElem?_contents (header : FileHeader) (disk : Disk) (sectors : List SectorNumber)
    {index offset : Nat} (within : offset < Disk.sectorSize)
    (short : index * Disk.sectorSize + offset < header.fileLength.toInt.toNat) :
    (header.contents disk sectors)[index * Disk.sectorSize + offset]? =
      sectors[index]?.bind fun sector => (disk sector.val).bytes[offset]? := by
  rw [contents, List.getElem?_take_of_lt short, Disk.getElem?_blocks disk sectors within]

end FileHeader

namespace OpenFile

open FileHeader

variable {file : OpenFile} {disk : Disk} {sectors : List SectorNumber}

theorem sectorRange_natCast (first last : Nat) :
    sectorRange first last =
      (List.range' 0 (last + 1 - first)).map fun index => ((first + index : Nat) : Int) := by
  have count : ((last : Int) + 1 - first).toNat = last + 1 - first := by omega
  simp [sectorRange, count]

/-- The buffer of `ReadAt` receives the sectors one after another. -/
theorem readSectors_eq {header : FileHeader} (maps : header.Maps disk sectors)
    {size : Int} (first start count : Nat)
    (inside : first + start + count ≤ sectors.length) (buf : List Byte)
    (room : (buf.length + count * Disk.sectorSize : Nat) ≤ size) :
    readSectors header disk size
        ((List.range' start count).map fun index => ((first + index : Nat) : Int)) buf =
      .ok (buf ++ disk.blocks ((sectors.drop (first + start)).take count)) := by
  induction count generalizing start buf with
  | zero => simp [readSectors, Disk.blocks]
  | succ count ih =>
      have here : first + start < sectors.length := by omega
      have address : ((first + start : Nat) : Int) * Disk.sectorSize =
          ((first + start) * Disk.sectorSize : Nat) := by push_cast; rfl
      have head : (sectors.drop (first + start)).take (count + 1) =
          sectors[first + start] :: (sectors.drop (first + (start + 1))).take count := by
        rw [List.drop_eq_getElem_cons here, List.take_succ_cons, Nat.add_assoc]
      have fits : ((buf ++ (disk sectors[first + start].val).bytes).length : Int) ≤
          size := by
        simp only [List.length_append, Sector.length_bytes]
        rw [Nat.succ_mul] at room
        omega
      rw [List.range'_succ, List.map_cons, readSectors, address,
        maps.translate_here here, ok_bind, Disk.readSector_pointer, ok_bind,
        if_pos fits, ih (start + 1) (by omega) _ ?_, head]
      · simp [Disk.blocks]
      · simp only [List.length_append, Sector.length_bytes]
        rw [Nat.succ_mul] at room
        omega

/-- A request that passes the check, cut to the length of the file. -/
theorem checkRequest_eq (position : Nat) {numBytes : CInt}
    (fits : position + numBytes.toInt < 2 ^ 31) :
    (file.checkRequest numBytes (BitVec.ofNat 32 position) = none ∧
        (numBytes.toInt ≤ 0 ∨ file.hdr.fileLength.toInt ≤ position)) ∨
      ∃ count : Nat, 0 < count ∧
        (count : Int) = min numBytes.toInt (file.hdr.fileLength.toInt - position) ∧
          file.checkRequest numBytes (BitVec.ofNat 32 position) =
            some (BitVec.ofNat 32 count) := by
  have bound := file.hdr.fileLength.toInt_lt
  have numBytesLower := numBytes.le_toInt
  unfold checkRequest
  by_cases positive : numBytes.toInt ≤ 0
  · exact Or.inl ⟨if_pos (Or.inl positive), Or.inl positive⟩
  have value : (BitVec.ofNat 32 position).toInt = position :=
    CInt.toInt_ofNat_of_lt (by omega)
  by_cases beyond : file.hdr.fileLength.toInt ≤ position
  · exact Or.inl ⟨if_pos (Or.inr (value ▸ beyond)), Or.inr beyond⟩
  have sum : (BitVec.ofNat 32 position + numBytes).toInt = position + numBytes.toInt := by
    rw [CInt.toInt_add_of_fits, value]
    rw [value]
    constructor <;> omega
  right
  simp only
  rw [if_neg (by omega), sum]
  by_cases cut : file.hdr.fileLength.toInt < position + numBytes.toInt
  · refine ⟨(file.hdr.fileLength.toInt - position).toNat, by omega, by omega, ?_⟩
    rw [if_pos cut]
    congr 1
    apply CInt.eq_ofNat_of_toInt
    rw [BitVec.toInt_sub, value, Int.bmod_eq_of_le] <;> omega
  · refine ⟨numBytes.toInt.toNat, by omega, by omega, ?_⟩
    rw [if_neg cut]
    congr 1
    exact CInt.eq_ofNat_of_toInt (by omega)

theorem copyFrom_natCast (buffer : List Byte) {offset count : Nat}
    (inside : offset + count ≤ buffer.length) :
    copyFrom buffer offset count = .ok ((buffer.drop offset).take count) := by
  rw [copyFrom, if_pos ⟨by omega, by omega, by omega⟩, Int.toNat_natCast,
    Int.toNat_natCast]

theorem copyInto_natCast (buffer : List Byte) {offset : Nat} {data : List Byte}
    (inside : offset + data.length ≤ buffer.length) :
    copyInto buffer offset data = .ok (splice buffer offset data) := by
  rw [copyInto, if_pos ⟨by omega, by omega⟩, Int.toNat_natCast]

/-- A range of the blocks of a list of sectors lies in the blocks that contain
it. -/
theorem take_drop_blocks (disk : Disk) (sectors : List SectorNumber)
    {position first count blocks : Nat}
    (lower : first * Disk.sectorSize ≤ position)
    (upper : position + count ≤ (first + blocks) * Disk.sectorSize)
    (inside : first + blocks ≤ sectors.length) :
    ((disk.blocks ((sectors.drop first).take blocks)).drop
        (position - first * Disk.sectorSize)).take count =
      ((disk.blocks sectors).drop position).take count := by
  have split : disk.blocks sectors = disk.blocks (sectors.take first) ++
      (disk.blocks ((sectors.drop first).take blocks) ++
        disk.blocks ((sectors.drop first).drop blocks)) := by
    simp only [Disk.blocks, ← List.flatMap_append, List.take_append_drop]
  have frontLength : (disk.blocks (sectors.take first)).length =
      first * Disk.sectorSize := by
    rw [Disk.length_blocks, List.length_take, Nat.min_eq_left (by omega)]
  have middleLength : (disk.blocks ((sectors.drop first).take blocks)).length =
      blocks * Disk.sectorSize := by
    rw [Disk.length_blocks, List.length_take, List.length_drop,
      Nat.min_eq_left (by omega)]
  rw [Nat.add_mul] at upper
  have address : position =
      (disk.blocks (sectors.take first)).length +
        (position - first * Disk.sectorSize) := by omega
  rw [split]
  conv_rhs => rw [address]
  rw [List.drop_length_add_append, List.drop_append_of_le_length (by omega),
    List.take_append_of_le_length (by rw [List.length_drop]; omega)]

section Transfer

/-- The sectors of the file from the first to the last of a request. -/
def touched (position count : Nat) : Nat :=
  (position + count - 1) / Disk.sectorSize + 1 - position / Disk.sectorSize

variable {position count : Nat}

theorem firstSector_natCast (small : position < 2 ^ 31) :
    firstSector (BitVec.ofNat 32 position) = (position / Disk.sectorSize : Nat) := by
  rw [firstSector, CInt.toInt_ofNat_of_lt small, CInt.divRoundDown_natCast]

theorem lastSector_natCast (positive : 0 < count) (small : position + count < 2 ^ 31) :
    lastSector (BitVec.ofNat 32 count) (BitVec.ofNat 32 position) =
      ((position + count - 1) / Disk.sectorSize : Nat) := by
  have address : BitVec.ofNat 32 position + BitVec.ofNat 32 count - 1 =
      BitVec.ofNat 32 (position + count - 1) := by
    have sum := CInt.toInt_ofNat_of_lt small
    rw [← BitVec.ofNat_add]
    apply CInt.eq_ofNat_of_toInt
    rw [CInt.toInt_sub_one (by omega), sum]
    omega
  rw [lastSector, address, CInt.toInt_ofNat_of_lt (by omega),
    CInt.divRoundDown_natCast]

theorem offset_natCast (small : position < 2 ^ 31) :
    (BitVec.ofNat 32 position).toInt -
        (position / Disk.sectorSize : Nat) * Disk.sectorSize =
      (position - position / Disk.sectorSize * Disk.sectorSize : Nat) := by
  have start := Nat.div_mul_le_self position Disk.sectorSize
  rw [CInt.toInt_ofNat_of_lt small]
  push_cast [start]
  rfl

/-- The touched sectors hold the whole range. -/
theorem le_touched (position : Nat) (positive : 0 < count) :
    position + count ≤
      (position / Disk.sectorSize + touched position count) * Disk.sectorSize := by
  simp only [touched, Disk.sectorSize]
  omega

theorem touched_le {length : Nat} (positive : 0 < count)
    (inside : position + count ≤ length * Disk.sectorSize) :
    position / Disk.sectorSize + touched position count ≤ length := by
  simp only [touched, Disk.sectorSize] at inside ⊢
  omega

theorem offset_add_le_touched (position : Nat) (positive : 0 < count) :
    position - position / Disk.sectorSize * Disk.sectorSize + count ≤
      touched position count * Disk.sectorSize := by
  simp only [touched, Disk.sectorSize]
  omega

/-- The buffer holds the sectors from the first to the last, on this disk. -/
theorem bufferSize_touched (positive : 0 < count)
    (onDisk : position + count ≤ Disk.numSectors * Disk.sectorSize) :
    bufferSize (position / Disk.sectorSize : Nat)
        ((position + count - 1) / Disk.sectorSize : Nat) =
      (touched position count * Disk.sectorSize : Nat) := by
  simp only [Disk.numSectors, Disk.sectorsPerTrack, Disk.numTracks,
    Disk.sectorSize] at onDisk
  have value : (1 + ((position + count - 1) / Disk.sectorSize : Nat) -
        (position / Disk.sectorSize : Nat) : Int) * Disk.sectorSize =
      (touched position count * Disk.sectorSize : Nat) := by
    simp only [touched, Disk.sectorSize]
    omega
  rw [bufferSize, value, CInt.toInt_ofInt_of_fits]
  simp only [CInt.Fits, touched, Disk.sectorSize]
  omega

theorem sectorRange_touched :
    sectorRange (position / Disk.sectorSize : Nat)
        ((position + count - 1) / Disk.sectorSize : Nat) =
      (List.range' 0 (touched position count)).map fun index =>
        ((position / Disk.sectorSize + index : Nat) : Int) :=
  sectorRange_natCast _ _

end Transfer

/-- `ReadAt` returns the bytes of the file in the requested range. -/
theorem readAt_eq (maps : file.hdr.Maps disk sectors) (position : Nat)
    {numBytes : CInt} (fits : position + numBytes.toInt < 2 ^ 31) :
    file.readAt disk numBytes (BitVec.ofNat 32 position) =
      .ok (((file.hdr.contents disk sectors).drop position).take
        numBytes.toInt.toNat) := by
  have length := length_contents maps
  have lengthBound := file.hdr.fileLength.toInt_lt
  have capacity := maps.count
  have onDisk := Nat.mul_le_mul_right Disk.sectorSize maps.length_le
  rcases @checkRequest_eq file position _ fits with
    ⟨refused, reason⟩ | ⟨count, positive, value, accepted⟩
  · have empty : ((file.hdr.contents disk sectors).drop position).take
        numBytes.toInt.toNat = [] := by
      apply List.eq_nil_of_length_eq_zero
      rw [List.length_take, List.length_drop, length]
      omega
    rw [readAt, refused, empty]
  · have inside : position + count ≤ sectors.length * Disk.sectorSize := by omega
    have blocks := touched_le positive inside
    have range := offset_add_le_touched position positive
    have size : position - position / Disk.sectorSize * Disk.sectorSize + count ≤
        (disk.blocks ((sectors.drop (position / Disk.sectorSize)).take
          (touched position count))).length := by
      rw [Disk.length_blocks, List.length_take, List.length_drop,
        Nat.min_eq_left (by omega)]
      exact range
    rw [readAt, accepted]
    simp only [firstSector_natCast (show position < 2 ^ 31 by omega),
      lastSector_natCast positive (show position + count < 2 ^ 31 by omega),
      bufferSize_touched positive (inside.trans onDisk), sectorRange_touched,
      offset_natCast (show position < 2 ^ 31 by omega)]
    rw [readSectors_eq maps _ 0 _ (by omega) [] (by simp), ok_bind,
      CInt.toInt_ofNat_of_lt (by omega)]
    simp only [Nat.add_zero, List.nil_append]
    rw [copyFrom_natCast _ size, take_drop_blocks disk sectors
      (Nat.div_mul_le_self _ _) (le_touched position positive) blocks]
    rw [contents, List.drop_take, List.take_take]
    congr 2
    omega

section Write

/-- One of the partially modified sectors is read into the buffer: it then
agrees with the file there, up to the end of the file. -/
theorem readBack_eq (maps : file.hdr.Maps disk sectors) {first blocks index : Nat}
    {buf : List Byte} (size : buf.length = blocks * Disk.sectorSize)
    (lower : first ≤ index) (upper : index < first + blocks)
    (inside : index < sectors.length) :
    ∃ filled, file.readBack disk buf first index = .ok filled ∧
      filled.length = buf.length ∧
        ∀ place : Nat, filled[place]? =
          if (index - first) * Disk.sectorSize ≤ place ∧
              place < (index - first) * Disk.sectorSize + Disk.sectorSize ∧
              first * Disk.sectorSize + place < file.hdr.fileLength.toInt.toNat then
            (file.hdr.contents disk sectors)[first * Disk.sectorSize + place]?
          else buf[place]? := by
  have onDisk := maps.length_le
  simp only [Disk.numSectors, Disk.sectorsPerTrack, Disk.numTracks] at onDisk
  have small : index * Disk.sectorSize < 2 ^ 30 := by
    simp only [Disk.sectorSize]
    omega
  have request : (BitVec.ofNat 32 Disk.sectorSize).toInt = Disk.sectorSize := by decide
  have address : (index : Int) * Disk.sectorSize = (index * Disk.sectorSize : Nat) := by
    push_cast
    rfl
  have offset : ((index : Int) - first) * Disk.sectorSize =
      ((index - first) * Disk.sectorSize : Nat) := by
    push_cast [lower]
    rfl
  have room : (index - first) * Disk.sectorSize + Disk.sectorSize ≤ buf.length := by
    rw [size, ← Nat.succ_mul]
    exact Nat.mul_le_mul_right _ (by omega)
  have read := readAt_eq maps (index * Disk.sectorSize)
    (show (index * Disk.sectorSize : Nat) +
      (BitVec.ofNat 32 Disk.sectorSize).toInt < 2 ^ 31 by
        rw [request]
        simp only [Disk.sectorSize] at small ⊢
        omega)
  rw [request, Int.toNat_natCast] at read
  have length := length_contents maps
  generalize file.hdr.contents disk sectors = whole at read length ⊢
  have short : ((whole.drop (index * Disk.sectorSize)).take
      Disk.sectorSize).length ≤ Disk.sectorSize := by
    rw [List.length_take]
    exact Nat.min_le_left _ _
  have start : first * Disk.sectorSize + (index - first) * Disk.sectorSize =
      index * Disk.sectorSize := by
    rw [← Nat.add_mul]
    congr 1
    omega
  have fits : (index - first) * Disk.sectorSize +
      ((whole.drop (index * Disk.sectorSize)).take Disk.sectorSize).length ≤
        buf.length := by omega
  refine ⟨_, ?_, length_splice fits, ?_⟩
  · rw [readBack, address, BitVec.ofInt_natCast, read, ok_bind, offset,
      copyInto_natCast _ fits]
  · intro place
    rw [getElem?_splice fits]
    simp only [List.length_take, List.length_drop, length]
    by_cases covered : (index - first) * Disk.sectorSize ≤ place ∧
        place < (index - first) * Disk.sectorSize + Disk.sectorSize ∧
        first * Disk.sectorSize + place < file.hdr.fileLength.toInt.toNat
    · rw [if_pos covered, if_pos (by omega), List.getElem?_take_of_lt (by omega),
        List.getElem?_drop]
      congr 1
      omega
    · rw [if_neg covered, if_neg (by omega)]

/-- The loop of `WriteAt` puts the blocks of the buffer in the sectors of the
file and leaves the other sectors alone. -/
theorem writeSectors_eq {header : FileHeader} (maps : header.Maps disk sectors)
    (first start count : Nat) (inside : first + start + count ≤ sectors.length)
    (buf : List Byte) (room : (start + count) * Disk.sectorSize ≤ buf.length)
    (now : Disk) (agree : disk.AgreeOutside sectors now) :
    ∃ after, writeSectors header first buf
        ((List.range' start count).map fun index => ((first + index : Nat) : Int)) now =
          .ok after ∧
      (∀ index, start ≤ index → index < start + count →
        ∀ within : first + index < sectors.length,
          (after sectors[first + index].val).bytes =
            (buf.drop (index * Disk.sectorSize)).take Disk.sectorSize) ∧
      ∀ sector : Nat, (∀ index, start ≤ index → index < start + count →
          ∀ within : first + index < sectors.length,
            sectors[first + index].val ≠ sector) → after sector = now sector := by
  induction count generalizing start now with
  | zero => exact ⟨now, rfl, fun index lower upper => by omega, fun sector _ => rfl⟩
  | succ count ih =>
      have here : first + start < sectors.length := by omega
      have address : ((first + start : Nat) : Int) * Disk.sectorSize =
          ((first + start) * Disk.sectorSize : Nat) := by push_cast; rfl
      have offset : ((((first + start : Nat) : Int) - first) * Disk.sectorSize).toNat =
          start * Disk.sectorSize := by
        have difference : ((first + start : Nat) : Int) - first = start := by omega
        rw [difference]
        exact Int.toNat_natCast (start * Disk.sectorSize)
      have enough : Disk.sectorSize ≤ (buf.drop (start * Disk.sectorSize)).length := by
        rw [List.length_drop]
        simp only [Disk.sectorSize] at room ⊢
        omega
      let next := Function.update now sectors[first + start].val
        (Sector.ofBytes (buf.drop (start * Disk.sectorSize)) enough)
      have agreeNext : disk.AgreeOutside sectors next := by
        intro sector outside
        have other := outside _ (List.getElem_mem here)
        exact (Function.update_of_ne other.symm _ _).trans (agree sector outside)
      obtain ⟨after, written, blocks, rest⟩ := ih (start + 1) (by omega)
        (by rw [Nat.add_right_comm, Nat.add_assoc]; exact room) next agreeNext
      refine ⟨after, ?_, ?_, ?_⟩
      · rw [List.range'_succ, List.map_cons, writeSectors, address,
          maps.translate now agree _ here, ok_bind, offset,
          Disk.writeSector_pointer now _ enough, ok_bind]
        exact written
      · intro index lower upper within
        rcases Nat.eq_or_lt_of_le lower with rfl | later
        · have kept : after sectors[first + start].val = next sectors[first + start].val := by
            apply rest
            intro index lower upper within same
            have places := (maps.nodup.getElem_inj_iff).mp (Fin.ext same)
            omega
          rw [kept]
          simp only [next, Function.update_self, Sector.bytes_ofBytes]
        · exact blocks index later (by omega) within
      · intro sector outside
        rw [rest sector fun index lower upper => outside index (by omega) (by omega)]
        exact Function.update_of_ne (outside start (by omega) (by omega) here).symm _ _

variable {position count : Nat}

/-- A conditional `ReadAt` into the buffer keeps every place that already agrees
with the file, and when it is made the whole sector agrees. -/
theorem readBackWhen_eq (maps : file.hdr.Maps disk sectors) (condition : Prop)
    [Decidable condition] {first blocks index : Nat} {buf : List Byte}
    (size : buf.length = blocks * Disk.sectorSize)
    (lower : first ≤ index) (upper : index < first + blocks)
    (inside : index < sectors.length) :
    ∃ filled, file.readBackWhen condition disk buf first index = .ok filled ∧
      filled.length = buf.length ∧
        ∀ place : Nat, first * Disk.sectorSize + place < file.hdr.fileLength.toInt.toNat →
          (buf[place]? =
              (file.hdr.contents disk sectors)[first * Disk.sectorSize + place]? ∨
            condition ∧ (first * Disk.sectorSize + place) / Disk.sectorSize = index) →
          filled[place]? =
            (file.hdr.contents disk sectors)[first * Disk.sectorSize + place]? := by
  by_cases made : condition
  · obtain ⟨filled, read, length, agree⟩ := readBack_eq maps size lower upper inside
    refine ⟨filled, by rw [readBackWhen, if_pos made, read], length, ?_⟩
    intro place short reason
    rw [agree place]
    split
    · rfl
    · next outside =>
        rcases reason with before | ⟨-, block⟩
        · exact before
        · exfalso
          apply outside
          simp only [Disk.sectorSize] at block short ⊢
          omega
  · refine ⟨buf, by rw [readBackWhen, if_neg made], rfl, ?_⟩
    intro place short reason
    exact reason.resolve_right fun both => made both.1

/-- The buffer of a request agrees with the file in front of its range and after it. -/
def AgreesAround (file : OpenFile) (disk : Disk) (sectors : List SectorNumber)
    (position count : Nat) (filled : List Byte) : Prop :=
  ∀ place < filled.length,
    position / Disk.sectorSize * Disk.sectorSize + place <
        file.hdr.fileLength.toInt.toNat →
    (position / Disk.sectorSize * Disk.sectorSize + place < position ∨
      position + count ≤ position / Disk.sectorSize * Disk.sectorSize + place) →
    filled[place]? = (file.hdr.contents disk sectors)[
      position / Disk.sectorSize * Disk.sectorSize + place]?

/-- The buffer before the new data are copied in agrees with the file outside
the range of the request. -/
theorem fillBuffer_eq (maps : file.hdr.Maps disk sectors) (positive : 0 < count)
    (inside : position + count ≤ sectors.length * Disk.sectorSize) {buf : List Byte}
    (size : buf.length = touched position count * Disk.sectorSize) :
    ∃ filled, file.fillBuffer disk buf (BitVec.ofNat 32 count)
        (BitVec.ofNat 32 position) = .ok filled ∧
      filled.length = buf.length ∧ file.AgreesAround disk sectors position count filled := by
  have onDisk := maps.length_le
  simp only [Disk.numSectors, Disk.sectorsPerTrack, Disk.numTracks] at onDisk
  have small : position + count ≤ 2 ^ 30 := by
    simp only [Disk.sectorSize] at inside
    omega
  have blocks := touched_le positive inside
  have ordered : position / Disk.sectorSize ≤ (position + count - 1) / Disk.sectorSize :=
    Nat.div_le_div_right (by omega)
  have width : position / Disk.sectorSize + touched position count =
      (position + count - 1) / Disk.sectorSize + 1 := by
    simp only [touched]
    omega
  have firstAligned : (BitVec.ofNat 32 position).toInt =
        (position / Disk.sectorSize : Nat) * Disk.sectorSize ↔
      position % Disk.sectorSize = 0 := by
    rw [CInt.toInt_ofNat_of_lt (by omega)]
    simp only [Disk.sectorSize]
    omega
  have lastAligned : BitVec.ofNat 32 position + BitVec.ofNat 32 count =
        BitVec.ofInt 32 ((((position + count - 1) / Disk.sectorSize : Nat) + 1) *
          Disk.sectorSize) ↔ (position + count) % Disk.sectorSize = 0 := by
    rw [← BitVec.ofNat_add, ← BitVec.toInt_inj, CInt.toInt_ofNat_of_lt (by omega),
      CInt.toInt_ofInt_of_fits]
    · simp only [Disk.sectorSize]
      omega
    · simp only [CInt.Fits, Disk.sectorSize]
      omega
  obtain ⟨first, readFirst, firstLength, firstAgrees⟩ :=
    readBackWhen_eq maps (¬ position % Disk.sectorSize = 0) size
      (Nat.le_refl (position / Disk.sectorSize)) (by omega) (by omega)
  obtain ⟨last, readLast, lastLength, lastAgrees⟩ :=
    readBackWhen_eq maps
      (¬ (position + count) % Disk.sectorSize = 0 ∧
        (position / Disk.sectorSize ≠ (position + count - 1) / Disk.sectorSize ∨
          position % Disk.sectorSize = 0))
      (firstLength.trans size) ordered (by omega) (by omega)
  refine ⟨last, ?_, lastLength.trans firstLength, ?_⟩
  · simp only [fillBuffer, firstSector_natCast (show position < 2 ^ 31 by omega),
      lastSector_natCast positive (show position + count < 2 ^ 31 by omega),
      firstAligned, lastAligned, readFirst, ok_bind, ne_eq, Int.natCast_inj]
    exact readLast
  · intro place bound short outside
    apply lastAgrees place short
    by_cases block : (position / Disk.sectorSize * Disk.sectorSize + place) /
        Disk.sectorSize = position / Disk.sectorSize ∧ position % Disk.sectorSize ≠ 0
    · exact Or.inl (firstAgrees place short (Or.inr ⟨block.2, block.1⟩))
    · right
      rw [lastLength, firstLength, size] at bound
      simp only [touched, Disk.sectorSize] at *
      omega

/-- The sectors of the range are among the touched ones. -/
theorem touched_of_mem {place : Nat} (lower : position ≤ place) (upper : place < position + count) :
    position / Disk.sectorSize ≤ place / Disk.sectorSize ∧
      place / Disk.sectorSize < position / Disk.sectorSize + touched position count := by
  have bound := le_touched position (show 0 < count by omega)
  simp only [Disk.sectorSize] at bound ⊢
  omega

/-- A byte of the file that lies in a touched sector is one of the buffer, where the data
were copied over those of the file. -/
theorem getElem?_splice_buffer {filled data : List Byte}
    (agree : file.AgreesAround disk sectors position count filled)
    (size : filled.length = touched position count * Disk.sectorSize)
    (supplied : data.length = count) {place : Nat}
    (short : place < file.hdr.fileLength.toInt.toNat)
    (room : position + data.length ≤ (file.hdr.contents disk sectors).length)
    (positive : 0 < count)
    (touches : position / Disk.sectorSize ≤ place / Disk.sectorSize ∧
      place / Disk.sectorSize < position / Disk.sectorSize + touched position count) :
    (splice filled (position - position / Disk.sectorSize * Disk.sectorSize) data)[
        place - position / Disk.sectorSize * Disk.sectorSize]? =
      (splice (file.hdr.contents disk sectors) position data)[place]? := by
  have start := Nat.div_mul_le_self position Disk.sectorSize
  have range := offset_add_le_touched position positive
  have order := Nat.mul_le_mul_right Disk.sectorSize touches.1
  have here := Nat.div_mul_le_self place Disk.sectorSize
  rw [getElem?_splice (by rw [size, supplied]; exact range), getElem?_splice room]
  by_cases changed : position ≤ place ∧ place < position + data.length
  · rw [if_pos changed, if_pos (by omega)]
    congr 1
    omega
  · rw [if_neg changed, if_neg (by omega)]
    have restored : position / Disk.sectorSize * Disk.sectorSize +
        (place - position / Disk.sectorSize * Disk.sectorSize) = place := by omega
    have old := agree (place - position / Disk.sectorSize * Disk.sectorSize)
      (by rw [size]; simp only [Disk.sectorSize] at *; omega)
      (by omega) (by omega)
    rw [restored] at old
    exact old

/-- When the touched sectors hold the blocks of a buffer that agrees with the
file outside the range and with the data inside it, the data are spliced into
the file. -/
theorem contents_of_written (maps : file.hdr.Maps disk sectors) {after : Disk}
    (positive : 0 < count)
    (inside : (position + count : Nat) ≤ file.hdr.fileLength.toInt)
    {filled data : List Byte} (supplied : data.length = count)
    (size : filled.length = touched position count * Disk.sectorSize)
    (agree : file.AgreesAround disk sectors position count filled)
    (written : ∀ index, 0 ≤ index → index < 0 + touched position count →
      ∀ within : position / Disk.sectorSize + index < sectors.length,
        (after sectors[position / Disk.sectorSize + index].val).bytes =
          ((splice filled (position - position / Disk.sectorSize * Disk.sectorSize)
            data).drop (index * Disk.sectorSize)).take Disk.sectorSize)
    (kept : ∀ sector : Nat, (∀ index, 0 ≤ index → index < 0 + touched position count →
      ∀ within : position / Disk.sectorSize + index < sectors.length,
        sectors[position / Disk.sectorSize + index].val ≠ sector) →
          after sector = disk sector) :
    file.hdr.contents after sectors =
      splice (file.hdr.contents disk sectors) position data := by
  have capacity := maps.count
  have length := length_contents maps
  have room : position + data.length ≤ (file.hdr.contents disk sectors).length := by
    omega
  apply List.ext_getElem?
  intro place
  by_cases short : place < file.hdr.fileLength.toInt.toNat
  · have within : place % Disk.sectorSize < Disk.sectorSize := Nat.mod_lt _ (by decide)
    have block : place / Disk.sectorSize < sectors.length := by
      simp only [Disk.sectorSize] at capacity ⊢
      omega
    have read : ∀ now : Disk, (file.hdr.contents now sectors)[place]? =
        (now sectors[place / Disk.sectorSize].val).bytes[place % Disk.sectorSize]? := by
      intro now
      have byte := file.hdr.getElem?_contents now sectors within
        (show place / Disk.sectorSize * Disk.sectorSize + _ < _ by rwa [Nat.div_add_mod'])
      rwa [Nat.div_add_mod', List.getElem?_eq_getElem block] at byte
    rw [read after]
    by_cases touches : position / Disk.sectorSize ≤ place / Disk.sectorSize ∧
        place / Disk.sectorSize < position / Disk.sectorSize + touched position count
    · have address : position / Disk.sectorSize +
          (place / Disk.sectorSize - position / Disk.sectorSize) =
            place / Disk.sectorSize := by omega
      have offset : (place / Disk.sectorSize - position / Disk.sectorSize) *
          Disk.sectorSize + place % Disk.sectorSize =
            place - position / Disk.sectorSize * Disk.sectorSize := by
        have division := Nat.div_add_mod' place Disk.sectorSize
        have order := Nat.mul_le_mul_right Disk.sectorSize touches.1
        rw [Nat.sub_mul]
        omega
      have stored := written (place / Disk.sectorSize - position / Disk.sectorSize)
        (Nat.zero_le _) (by omega) (by omega)
      simp only [address] at stored
      rw [stored, List.getElem?_take_of_lt within, List.getElem?_drop, offset]
      exact getElem?_splice_buffer agree size supplied short room positive touches
    · have outside : ¬ (position ≤ place ∧ place < position + data.length) := by
        rintro ⟨lower, upper⟩
        exact touches (touched_of_mem lower (supplied ▸ upper))
      rw [getElem?_splice room, if_neg outside, read disk, kept]
      intro index _ upper within' same
      have places := maps.nodup.getElem_inj_iff.mp (Fin.ext same)
      omega
  · rw [getElem?_splice room, if_neg (by omega)]
    simp only [contents, List.getElem?_take_eq_none (Nat.not_lt.mp short)]

/-- `WriteAt` overwrites the requested range of the file, cut to its length, and
changes no sector that is not the file's. -/
theorem writeAt_eq (maps : file.hdr.Maps disk sectors) (memory : Memory)
    (position : Nat) {numBytes : CInt} {data : List Byte}
    (fits : position + numBytes.toInt < 2 ^ 31)
    (supplied : min numBytes.toInt (file.hdr.fileLength.toInt - position) ≤ data.length) :
    ∃ (count : Nat) (after : Disk),
      file.writeAt memory disk data numBytes (BitVec.ofNat 32 position) =
          .ok (BitVec.ofNat 32 count, after) ∧
        (count : Int) = max 0 (min numBytes.toInt (file.hdr.fileLength.toInt - position)) ∧
        disk.AgreeOutside sectors after ∧
        file.hdr.contents after sectors =
          splice (file.hdr.contents disk sectors) position (data.take count) := by
  have capacity := maps.count
  have onDisk := Nat.mul_le_mul_right Disk.sectorSize maps.length_le
  have lengthBound := file.hdr.fileLength.toInt_lt
  rcases @checkRequest_eq file position _ fits with
    ⟨refused, reason⟩ | ⟨count, positive, value, accepted⟩
  · refine ⟨0, disk, ?_, by omega, fun _ _ => rfl, by simp⟩
    rw [writeAt, refused]
    rfl
  · have inside : position + count ≤ sectors.length * Disk.sectorSize := by omega
    have small : position + count < 2 ^ 31 := by omega
    have range := offset_add_le_touched position positive
    have taken : (data.take count).length = count := by
      rw [List.length_take]
      omega
    let buf := (List.range (touched position count * Disk.sectorSize)).map memory
    have size : buf.length = touched position count * Disk.sectorSize := by simp [buf]
    obtain ⟨filled, filling, length, agree⟩ := fillBuffer_eq maps positive inside size
    have room : position - position / Disk.sectorSize * Disk.sectorSize +
        (data.take count).length ≤ filled.length := by
      rw [taken, length, size]
      exact range
    obtain ⟨after, writing, blocks, kept⟩ := writeSectors_eq maps
      (position / Disk.sectorSize) 0 (touched position count)
      (by simpa using touched_le positive inside)
      (splice filled (position - position / Disk.sectorSize * Disk.sectorSize)
        (data.take count))
      (by rw [length_splice room, length, size, Nat.zero_add]) disk (fun _ _ => rfl)
    refine ⟨count, after, ?_, by omega, ?_, ?_⟩
    · rw [writeAt, accepted]
      simp only [firstSector_natCast (show position < 2 ^ 31 by omega),
        lastSector_natCast positive small,
        bufferSize_touched positive (inside.trans onDisk), sectorRange_touched,
        offset_natCast (show position < 2 ^ 31 by omega),
        CInt.toInt_ofNat_of_lt (show count < 2 ^ 31 by omega), Int.toNat_natCast]
      rw [if_neg (by omega), filling, ok_bind,
        show (0 : Int) = (0 : Nat) from rfl,
        copyFrom_natCast data (by omega), ok_bind, List.drop_zero,
        copyInto_natCast filled room, ok_bind, writing, ok_bind]
    · intro sector outside
      exact kept sector fun index _ _ within => outside _ (List.getElem_mem within)
    · exact contents_of_written maps positive (by omega) taken (length.trans size)
        agree blocks kept

/-- A table that is written to the beginning of a file is read back from there. -/
theorem writeAt_readAt (maps : file.hdr.Maps disk sectors) (memory : Memory)
    {data : List Byte} (room : data.length ≤ file.hdr.fileLength.toInt) :
    ∃ (count : CInt) (after : Disk),
      file.writeAt memory disk data (BitVec.ofNat 32 data.length) 0 = .ok (count, after) ∧
        disk.AgreeOutside sectors after ∧
        file.readAt after (BitVec.ofNat 32 data.length) 0 = .ok data := by
  have bound := file.hdr.fileLength.toInt_lt
  have word : (BitVec.ofNat 32 data.length).toInt = data.length :=
    CInt.toInt_ofNat_of_lt (by omega)
  obtain ⟨count, after, written, clipped, agree, contents⟩ :=
    @writeAt_eq file disk sectors maps memory 0 (BitVec.ofNat 32 data.length) data
      (by rw [word]; omega) (by rw [word]; omega)
  have whole : count = data.length := by
    rw [word] at clipped
    omega
  subst whole
  have read := @readAt_eq file after sectors (maps.of_agreeOutside agree) 0
    (BitVec.ofNat 32 data.length) (by rw [word]; omega)
  rw [contents, List.take_length, splice_zero, List.drop_zero, word, Int.toNat_natCast,
    List.take_left] at read
  exact ⟨_, after, written, agree, read⟩

end Write

section OutOfRange

/-- Only blocks that a header can describe have a sector on the disk. -/
theorem block_of_byteToSector {header : FileHeader} {i : Int} {sector : CInt}
    (found : header.byteToSector disk (i * Disk.sectorSize) = .ok sector)
    (valid : 0 ≤ sector.toInt) :
    0 ≤ i ∧ i < (numDirect + l1IndexNum + l1IndexNum * l1IndexNum : Nat) := by
  have quotient : (i * (Disk.sectorSize : Int)).tdiv Disk.sectorSize = i :=
    Int.mul_tdiv_cancel i (by decide)
  have invalid : BitVec.toInt (-1 : CInt) = -1 := by decide
  unfold byteToSector at found
  simp only [quotient] at found
  constructor
  · by_contra negative
    rw [if_pos (by omega)] at found
    obtain rfl := Except.ok.inj found
    omega
  · by_contra beyond
    rw [if_neg (by omega), dif_neg (by omega), dif_neg (by omega),
      dif_neg (by omega)] at found
    obtain rfl := Except.ok.inj found
    omega

theorem block_of_readSectors {header : FileHeader} {size : Int} {range : List Int}
    {buf result : List Byte} (done : readSectors header disk size range buf = .ok result)
    {i : Int} (member : i ∈ range) :
    0 ≤ i ∧ i < (numDirect + l1IndexNum + l1IndexNum * l1IndexNum : Nat) := by
  induction range generalizing buf with
  | nil => simp at member
  | cons head range ih =>
      obtain ⟨sector, found, done⟩ := bind_eq_ok_iff.mp done
      obtain ⟨bytes, read, done⟩ := bind_eq_ok_iff.mp done
      split at done
      · rcases List.mem_cons.mp member with rfl | later
        · obtain ⟨number, -, value, -⟩ := Disk.readSector_eq_ok read
          exact block_of_byteToSector found (by omega)
        · exact ih done later
      · cases done

theorem block_of_writeSectors {header : FileHeader} {first : Int} {range : List Int}
    {buf : List Byte} {now after : Disk}
    (done : writeSectors header first buf range now = .ok after)
    {i : Int} (member : i ∈ range) :
    0 ≤ i ∧ i < (numDirect + l1IndexNum + l1IndexNum * l1IndexNum : Nat) := by
  induction range generalizing now with
  | nil => simp at member
  | cons head range ih =>
      obtain ⟨sector, found, done⟩ := bind_eq_ok_iff.mp done
      obtain ⟨next, written, done⟩ := bind_eq_ok_iff.mp done
      rcases List.mem_cons.mp member with rfl | later
      · obtain ⟨number, -, value, -⟩ := Disk.writeSector_eq_ok written
        exact block_of_byteToSector found (by omega)
      · exact ih done later

theorem mem_sectorRange {first last i : Int} :
    i ∈ sectorRange first last ↔ first ≤ i ∧ i ≤ last := by
  simp only [sectorRange, List.mem_map, List.mem_range'_1]
  constructor
  · rintro ⟨index, bound, rfl⟩
    omega
  · intro inside
    exact ⟨(i - first).toNat, by omega, by omega⟩

theorem checkRequest_eq_none {numBytes position : CInt}
    (refused : file.checkRequest numBytes position = none) :
    numBytes.toInt ≤ 0 ∨ file.hdr.fileLength.toInt ≤ position.toInt := by
  unfold checkRequest at refused
  simp only at refused
  split at refused
  · assumption
  · split at refused <;> cases refused

/-- What a request that passes the check transfers. -/
theorem checkRequest_eq_some {numBytes position count : CInt}
    (accepted : file.checkRequest numBytes position = some count) :
    0 < numBytes.toInt ∧ position.toInt < file.hdr.fileLength.toInt ∧
      (((position + numBytes).toInt ≤ file.hdr.fileLength.toInt ∧ count = numBytes) ∨
        file.hdr.fileLength.toInt < (position + numBytes).toInt ∧
          count = file.hdr.fileLength - position) := by
  unfold checkRequest at accepted
  simp only at accepted
  split at accepted
  · cases accepted
  · split at accepted
    · exact ⟨by omega, by omega, Or.inr ⟨by assumption, (Option.some.inj accepted).symm⟩⟩
    · exact ⟨by omega, by omega, Or.inl ⟨by omega, (Option.some.inj accepted).symm⟩⟩

/-- A request that passes the check is not cut off when the end of its range wraps around. -/
theorem whole_of_overflow {numBytes position count : CInt}
    (accepted : file.checkRequest numBytes position = some count)
    (overflow : 2 ^ 31 ≤ position.toInt + numBytes.toInt) : count = numBytes := by
  have wrapped := CInt.toInt_add_of_overflow overflow
  have upper := numBytes.toInt_lt
  obtain ⟨-, before, ⟨-, whole⟩ | ⟨cut, -⟩⟩ := checkRequest_eq_some accepted
  · exact whole
  · omega

section LastSector

variable {numBytes position : CInt}

theorem lastSector_of_fits (lower : -2 ^ 31 < position.toInt + numBytes.toInt)
    (upper : position.toInt + numBytes.toInt < 2 ^ 31) :
    lastSector numBytes position =
      CInt.divRoundDown (position.toInt + numBytes.toInt - 1) Disk.sectorSize := by
  have sum := CInt.toInt_add_of_fits ⟨Int.le_of_lt lower, upper⟩
  rw [lastSector, CInt.toInt_sub_one (by omega), sum]

/-- The end of the range is one byte too far for an `int`, but the last byte is not. -/
theorem lastSector_of_add_eq (least : position.toInt + numBytes.toInt = 2 ^ 31) :
    lastSector numBytes position = 2 ^ 24 - 1 := by
  have wrapped := CInt.toInt_add_of_overflow (Int.le_of_eq least.symm)
  have final : (position + numBytes - 1).toInt = 2 ^ 31 - 1 := by
    rw [BitVec.toInt_sub, wrapped, show BitVec.toInt (1 : CInt) = 1 from rfl, least]
    rfl
  rw [lastSector, final]
  rfl

theorem lastSector_of_lt_add (beyond : 2 ^ 31 < position.toInt + numBytes.toInt) :
    lastSector numBytes position =
      -((2 ^ 32 - position.toInt - numBytes.toInt + 1).toNat / Disk.sectorSize : Nat) := by
  have wrapped := CInt.toInt_add_of_overflow (Int.le_of_lt beyond)
  have positionUpper := position.toInt_lt
  have numBytesUpper := numBytes.toInt_lt
  have final : (position + numBytes - 1).toInt =
      -(2 ^ 32 - position.toInt - numBytes.toInt + 1).toNat := by
    rw [CInt.toInt_sub_one (by omega), wrapped]
    omega
  rw [lastSector, final, CInt.divRoundDown_neg_natCast]

end LastSector

/-- The `ReadAt` of a sector before the start of the file does not complete. -/
theorem readAt_negative {last : Int} (negative : last < 0) (lower : -2 ^ 24 ≤ last)
    (nonempty : 0 < file.hdr.fileLength.toInt) {bytes : List Byte} :
    file.readAt disk (BitVec.ofNat 32 Disk.sectorSize)
      (BitVec.ofInt 32 (last * Disk.sectorSize)) ≠ .ok bytes := by
  intro done
  have request : (BitVec.ofNat 32 Disk.sectorSize).toInt = 128 := by decide
  have address : (BitVec.ofInt 32 (last * Disk.sectorSize)).toInt = last * 128 := by
    apply CInt.toInt_ofInt_of_fits
    simp only [CInt.Fits, Disk.sectorSize]
    omega
  have sum : (BitVec.ofInt 32 (last * Disk.sectorSize) +
      BitVec.ofNat 32 Disk.sectorSize).toInt = last * 128 + 128 := by
    rw [CInt.toInt_add_of_fits, address, request]
    rw [address, request]
    constructor <;> omega
  have accepted : file.checkRequest (BitVec.ofNat 32 Disk.sectorSize)
      (BitVec.ofInt 32 (last * Disk.sectorSize)) =
        some (BitVec.ofNat 32 Disk.sectorSize) := by
    unfold checkRequest
    simp only
    rw [if_neg (by omega), if_neg (by omega)]
  rw [readAt, accepted] at done
  obtain ⟨buf, read, -⟩ := bind_eq_ok_iff.mp done
  have start : firstSector (BitVec.ofInt 32 (last * Disk.sectorSize)) = last := by
    rw [firstSector, address]
    exact Int.mul_tdiv_cancel last (by decide)
  have ordered : last ≤ lastSector (BitVec.ofNat 32 Disk.sectorSize)
      (BitVec.ofInt 32 (last * Disk.sectorSize)) := by
    rw [lastSector_of_fits (by omega) (by omega), address, request]
    conv_lhs => rw [← start, firstSector, address]
    exact CInt.divRoundDown_mono (by omega) (by decide)
  have valid := (block_of_readSectors read
    (mem_sectorRange.mpr ⟨Int.le_of_eq start, ordered⟩)).1
  omega

/-- When the end of the range wraps around, the last sector of the range lies
before the file, or beyond every header. -/
theorem writeAt_overflow {place : Nat} {numBytes : CInt} {buf filled : List Byte}
    (small : place < 2 ^ 30) (before : place < file.hdr.fileLength.toInt)
    (overflow : 2 ^ 31 ≤ place + numBytes.toInt)
    (filling : file.fillBuffer disk buf numBytes (BitVec.ofNat 32 place) = .ok filled)
    (valid : ∀ i, firstSector (BitVec.ofNat 32 place) ≤ i →
      i ≤ lastSector numBytes (BitVec.ofNat 32 place) → 0 ≤ i ∧ i < 1086) : False := by
  have upper := numBytes.toInt_lt
  have value := CInt.toInt_ofNat_of_lt (show place < 2 ^ 31 by omega)
  have wrapped : (BitVec.ofNat 32 place + numBytes).toInt =
      place + numBytes.toInt - 2 ^ 32 := by
    rw [CInt.toInt_add_of_overflow (by omega), value]
  have first : firstSector (BitVec.ofNat 32 place) = (place / Disk.sectorSize : Nat) :=
    firstSector_natCast (by omega)
  by_cases least : place + numBytes.toInt = 2 ^ 31
  · have last : lastSector numBytes (BitVec.ofNat 32 place) = 2 ^ 24 - 1 :=
      lastSector_of_add_eq (by omega)
    have bound := (valid _ (by rw [first, last]; simp only [Disk.sectorSize]; omega)
      (Int.le_refl _)).2
    omega
  · have last := @lastSector_of_lt_add numBytes (BitVec.ofNat 32 place) (by omega)
    rw [value] at last
    have unaligned : BitVec.ofNat 32 place + numBytes ≠
        BitVec.ofInt 32 ((lastSector numBytes (BitVec.ofNat 32 place) + 1) *
          Disk.sectorSize) := by
      intro aligned
      have values := congrArg BitVec.toInt aligned
      rw [wrapped, last, CInt.toInt_ofInt_of_fits] at values
      · simp only [Disk.sectorSize] at values
        omega
      · simp only [CInt.Fits, Disk.sectorSize]
        omega
    have apart : firstSector (BitVec.ofNat 32 place) ≠
        lastSector numBytes (BitVec.ofNat 32 place) := by
      rw [first, last]
      simp only [Disk.sectorSize]
      omega
    obtain ⟨middle, -, rest⟩ := bind_eq_ok_iff.mp filling
    rw [readBackWhen, if_pos ⟨unaligned, Or.inl apart⟩] at rest
    obtain ⟨bytes, read, -⟩ := bind_eq_ok_iff.mp rest
    rw [last] at read
    refine readAt_negative ?_ ?_ (by omega) read
    · simp only [Disk.sectorSize]
      omega
    · simp only [Disk.sectorSize]
      omega

/-- A request that passes the check and whose buffer is used from the front was
made for a position in the file, when its sectors are all on the disk. -/
theorem position_nonneg {numBytes position amount : CInt}
    (accepted : file.checkRequest numBytes position = some amount)
    (small : file.hdr.fileLength.toInt ≤ 2 ^ 30)
    (offset : 0 ≤ position.toInt - firstSector position * Disk.sectorSize)
    (valid : ∀ i, firstSector position ≤ i → i ≤ lastSector amount position → 0 ≤ i) :
    0 ≤ position.toInt := by
  obtain ⟨positive, before, transfer⟩ := checkRequest_eq_some accepted
  have lower := position.le_toInt
  have upper := numBytes.toInt_lt
  by_contra negative
  have sum : (position + numBytes).toInt = position.toInt + numBytes.toInt := by
    apply CInt.toInt_add_of_fits
    constructor <;> omega
  have amountPositive : 0 < amount.toInt ∧
      position.toInt + amount.toInt < 2 ^ 31 := by
    rcases transfer with ⟨-, rfl⟩ | ⟨cut, rfl⟩
    · omega
    · rw [BitVec.toInt_sub, Int.bmod_eq_of_le] <;> omega
  have ordered : firstSector position ≤ lastSector amount position := by
    rw [firstSector, lastSector_of_fits (by omega) (by omega)]
    exact CInt.divRoundDown_mono (by omega) (by decide)
  -- The first sector of the range would lie before the file.
  have first := valid _ (Int.le_refl _) ordered
  simp only [Disk.sectorSize] at offset
  omega

/-- A `WriteAt` that passes the check and completes was asked for a position in
the file and for a range whose end is an `int`. -/
theorem writeAt_of_accepted (small : file.hdr.fileLength.toInt ≤ 2 ^ 30)
    {memory : Memory} {data : List Byte} {numBytes position count amount : CInt}
    {after : Disk} (check : file.checkRequest numBytes position = some amount)
    (done : file.writeAt memory disk data numBytes position = .ok (count, after)) :
    ∃ place : Nat, position = BitVec.ofNat 32 place ∧
      place + numBytes.toInt < 2 ^ 31 ∧
      min numBytes.toInt (file.hdr.fileLength.toInt - place) ≤ data.length := by
  have lower := position.le_toInt
  have upper := numBytes.toInt_lt
  obtain ⟨positive, before, transfer⟩ := checkRequest_eq_some check
  rw [writeAt, check] at done
  simp only at done
  split at done
  · cases done
  obtain ⟨filled, filling, done⟩ := bind_eq_ok_iff.mp done
  obtain ⟨modified, copied, done⟩ := bind_eq_ok_iff.mp done
  obtain ⟨buf, placed, done⟩ := bind_eq_ok_iff.mp done
  obtain ⟨last, written, -⟩ := bind_eq_ok_iff.mp done
  have offset : 0 ≤ position.toInt - firstSector position * Disk.sectorSize := by
    unfold copyInto at placed
    split at placed
    · omega
    · cases placed
  have enough : amount.toInt ≤ data.length := by
    unfold copyFrom at copied
    split at copied
    · omega
    · cases copied
  have valid : ∀ i, firstSector position ≤ i → i ≤ lastSector amount position →
      0 ≤ i ∧ i < 1086 := fun i above below =>
    block_of_writeSectors written (mem_sectorRange.mpr ⟨above, below⟩)
  have nonnegative := position_nonneg check small offset
    fun i above below => (valid i above below).1
  obtain ⟨place, value⟩ := Int.eq_ofNat_of_zero_le nonnegative
  obtain rfl := CInt.eq_ofNat_of_toInt value
  have fits : place + numBytes.toInt < 2 ^ 31 := by
    by_contra overflow
    obtain rfl := whole_of_overflow check (by omega)
    exact writeAt_overflow (by omega) (by omega) (by omega) filling valid
  refine ⟨place, rfl, fits, ?_⟩
  have sum : (BitVec.ofNat 32 place + numBytes).toInt = place + numBytes.toInt := by
    rw [CInt.toInt_add_of_fits, value]
    rw [value]
    constructor <;> omega
  rcases transfer with ⟨-, rfl⟩ | ⟨cut, rfl⟩
  · omega
  · rw [BitVec.toInt_sub, value, Int.bmod_eq_of_le] at enough <;> omega

/-- A `WriteAt` that does anything and completes was asked for a position in the
file and for a range whose end is an `int`. -/
theorem writeAt_eq_ok (small : file.hdr.fileLength.toInt ≤ 2 ^ 30) {memory : Memory}
    {data : List Byte} {numBytes position count : CInt} {after : Disk}
    (done : file.writeAt memory disk data numBytes position = .ok (count, after)) :
    after = disk ∨ ∃ place : Nat, position = BitVec.ofNat 32 place ∧
      place + numBytes.toInt < 2 ^ 31 ∧
      min numBytes.toInt (file.hdr.fileLength.toInt - place) ≤ data.length := by
  cases check : file.checkRequest numBytes position with
  | none =>
      rw [writeAt, check] at done
      exact Or.inl (Prod.mk.inj (Except.ok.inj done)).2.symm
  | some amount => exact Or.inr (writeAt_of_accepted small check done)

/-- The same of a `ReadAt`: when the end of the range wraps around, no sector is
read, or one beyond every header. -/
theorem readAt_of_accepted (small : file.hdr.fileLength.toInt ≤ 2 ^ 30)
    {numBytes position amount : CInt} {bytes : List Byte}
    (check : file.checkRequest numBytes position = some amount)
    (done : file.readAt disk numBytes position = .ok bytes) :
    0 ≤ position.toInt ∧ position.toInt + numBytes.toInt < 2 ^ 31 := by
  have upper := numBytes.toInt_lt
  obtain ⟨positive, before, -⟩ := checkRequest_eq_some check
  rw [readAt, check] at done
  obtain ⟨buf, read, copied⟩ := bind_eq_ok_iff.mp done
  have inside : 0 ≤ position.toInt - firstSector position * Disk.sectorSize ∧
      position.toInt - firstSector position * Disk.sectorSize + amount.toInt ≤
        buf.length := by
    unfold copyFrom at copied
    split at copied
    · omega
    · cases copied
  have nonnegative := position_nonneg check small inside.1 fun i above below =>
    (block_of_readSectors read (mem_sectorRange.mpr ⟨above, below⟩)).1
  refine ⟨nonnegative, ?_⟩
  by_contra overflow
  obtain rfl := whole_of_overflow check (Int.not_lt.mp overflow)
  by_cases least : position.toInt + amount.toInt = 2 ^ 31
  · have last := lastSector_of_add_eq least
    have ordered : firstSector position ≤ 2 ^ 24 - 1 := by
      have start : firstSector position = position.toInt / 128 :=
        Int.tdiv_eq_ediv_of_nonneg nonnegative
      omega
    have bound := (block_of_readSectors read
      (mem_sectorRange.mpr ⟨last ▸ ordered, Int.le_refl _⟩)).2
    have blocks : numDirect + l1IndexNum + l1IndexNum * l1IndexNum = 1086 := by decide
    omega
  · have last : lastSector amount position < 0 := by
      rw [lastSector_of_lt_add (by omega)]
      simp only [Disk.sectorSize]
      omega
    have first : 0 ≤ firstSector position :=
      Int.tdiv_nonneg nonnegative (Int.natCast_nonneg _)
    have none : sectorRange (firstSector position) (lastSector amount position) = [] := by
      rw [List.eq_nil_iff_forall_not_mem]
      intro i member
      have within := mem_sectorRange.mp member
      omega
    simp only [none, readSectors] at read
    obtain rfl := Except.ok.inj read
    simp only [List.length_nil] at inside
    omega

end OutOfRange

end OpenFile

end Nachos
