import Mathlib.Algebra.GroupWithZero.Nat
import Nachos.CoffConversion

/-!
# The sections of a COFF file

How far the loop of `coff2noff` gets is said of the sections alone, and so is what it leaves in
the NOFF header: each segment is a copy of the last section of its kind.
-/

namespace Nachos

open LittleEndianWords ByteStore TransitionRuns

/-- The raw data of a segment in the NOFF file. -/
def Segment.data (noff : UnixFile) (segment : Segment) : List Byte :=
  ByteStore.File.read noff segment.inFileAddr.toInt.toNat segment.size.toInt.toNat

namespace SectionHeader

/-- The raw data of a section in the COFF file. -/
def data (coff : UnixFile) (sectionHeader : SectionHeader) : List Byte :=
  ByteStore.File.read coff sectionHeader.sScnptr.toInt.toNat sectionHeader.sSize.toInt.toNat

/-- The bytes that the section occupies in the NOFF file. -/
def copiedSize (sectionHeader : SectionHeader) : Nat :=
  match sectionHeader.kind with
  | .text | .data => sectionHeader.sSize.toInt.toNat
  | .empty | .bss | .unknown => 0

/-- The raw data, if there is any, has a size and a place in the file. -/
def HasRawData (sectionHeader : SectionHeader) : Prop :=
  sectionHeader.kind = .text ∨ sectionHeader.kind = .data →
    0 ≤ sectionHeader.sSize.toInt ∧ 0 ≤ sectionHeader.sScnptr.toInt

end SectionHeader

namespace Coff2noff

/-- A section that is not empty is taken for zeroed memory behind another one exactly when
it starts where the range ends that the header records. -/
def AcceptsContiguousBss (coff : UnixFile) (s : Conversion) (sectionHeader : SectionHeader) :
    Prop :=
  sectionHeader.kind = .bss → s.noffH.uninitData.size ≠ 0 →
    ((∃ next, s.loadSection coff sectionHeader = .ok next) ↔
      sectionHeader.sPaddr = s.noffH.uninitData.virtualAddr + s.noffH.uninitData.size)

/-- The last section of a kind. -/
def lastOf (kind : SectionKind) (sections : List SectionHeader) : Option SectionHeader :=
  sections.reverse.find? fun sectionHeader => sectionHeader.kind = kind

/-- The length of the NOFF file after some sections. -/
def noffLength (sections : List SectionHeader) : Nat :=
  NoffHeader.bytes + (sections.map SectionHeader.copiedSize).sum

/-- Whether there is raw data to copy, and room for it. -/
def collectRawData (coff : UnixFile) (before : List SectionHeader)
    (sectionHeader : SectionHeader) : Except ConversionError (List SectionHeader) :=
  let size := sectionHeader.sSize.toInt.toNat
  if coff.length < sectionHeader.sScnptr.toInt.toNat + size then .error .fileTooShort
  else if maxFileSize < noffLength before + size then .error .unableToWrite
  else .ok (before ++ [sectionHeader])

/-- The sections that can be taken, one after the other, as long as there is at most one for
zeroed memory. -/
def collect (coff : UnixFile) (before : List SectionHeader) (sectionHeader : SectionHeader) :
    Except ConversionError (List SectionHeader) :=
  match sectionHeader.kind with
  | .empty | .bss => .ok (before ++ [sectionHeader])
  | .text => collectRawData coff before sectionHeader
  | .data =>
      if (lastOf .data before).isSome then .error .dataAndRdata
      else collectRawData coff before sectionHeader
  | .unknown => .error (.unknownSegment (sectionHeader.sName.takeWhile (· != 0)))

def FirstBss (before : List SectionHeader) (sectionHeader : SectionHeader) : Prop :=
  sectionHeader.kind = .bss → lastOf .bss before = none

variable {coff noff : UnixFile} {sections before : List SectionHeader}
  {sectionHeader : SectionHeader} {kind : SectionKind}

theorem lastOf_append :
    lastOf kind (before ++ [sectionHeader]) =
      if sectionHeader.kind = kind then some sectionHeader else lastOf kind before := by
  unfold lastOf
  rw [List.reverse_append, List.reverse_singleton, List.singleton_append, List.find?_cons]
  by_cases same : sectionHeader.kind = kind
  · rw [decide_eq_true same, if_pos same]
  · rw [decide_eq_false same, if_neg same]

theorem noffLength_append :
    noffLength (before ++ [sectionHeader]) = noffLength before + sectionHeader.copiedSize := by
  unfold noffLength
  rw [List.map_append, List.sum_append, List.map_singleton, List.sum_singleton, Nat.add_assoc]

theorem mem_of_lastOf (last : lastOf kind sections = some sectionHeader) :
    sectionHeader ∈ sections ∧ sectionHeader.kind = kind := by
  have found := List.find?_some last
  exact ⟨List.mem_reverse.mp (List.mem_of_find?_eq_some last), of_decide_eq_true found⟩

/-- The segment of the NOFF file is a copy of the section. -/
structure IsCopy (coff noff : UnixFile) (segment : Segment) (sectionHeader : SectionHeader) :
    Prop where
  virtualAddr : segment.virtualAddr = sectionHeader.sPaddr
  size : segment.size = sectionHeader.sSize
  behindHeader : NoffHeader.bytes ≤ segment.inFileAddr.toInt.toNat
  inside : segment.inFileAddr.toInt.toNat + segment.size.toInt.toNat ≤ noff.length
  data : segment.data noff = sectionHeader.data coff

/-- The segment is a copy of the section, or empty if there is none. -/
def Copies (coff noff : UnixFile) (segment : Segment) : Option SectionHeader → Prop
  | none => segment.size = 0
  | some sectionHeader => IsCopy coff noff segment sectionHeader

def Reserves (segment : Segment) : Option SectionHeader → Prop
  | none => segment.size = 0
  | some sectionHeader =>
      segment.virtualAddr = sectionHeader.sPaddr ∧ segment.size = sectionHeader.sSize

/-- What is written behind the segment, or within the NOFF header, leaves it alone. -/
theorem IsCopy.write {segment : Segment} (copy : IsCopy coff noff segment sectionHeader)
    {position : Nat} {data : List Byte}
    (elsewhere : noff.length ≤ position ∨ position + data.length ≤ NoffHeader.bytes) :
    IsCopy coff (ByteStore.File.write noff 0 position data) segment sectionHeader where
  virtualAddr := copy.virtualAddr
  size := copy.size
  behindHeader := copy.behindHeader
  inside := Nat.le_trans copy.inside (ByteStore.File.length_le_length_write _ _ _ _)
  data := by
    have inside := copy.inside
    have behindHeader := copy.behindHeader
    rw [← copy.data]
    exact ByteStore.File.read_write_disjoint noff 0 inside (by omega)

theorem Copies.write {segment : Segment} {last : Option SectionHeader}
    (copies : Copies coff noff segment last) {position : Nat} {data : List Byte}
    (elsewhere : noff.length ≤ position ∨ position + data.length ≤ NoffHeader.bytes) :
    Copies coff (ByteStore.File.write noff 0 position data) segment last := by
  cases last with
  | none => exact copies
  | some sectionHeader => exact IsCopy.write copies elsewhere

/-- The loop has recorded the sections `before`. -/
structure Records (coff : UnixFile) (s : Conversion) (before : List SectionHeader) : Prop where
  position : s.noffPosition = noffLength before
  room : noffLength before ≤ maxFileSize
  inNoffFile : s.inNoffFile.toInt = noffLength before
  length : s.noff.length ≤ s.noffPosition
  code : Copies coff s.noff s.noffH.code (lastOf .text before)
  initData : Copies coff s.noff s.noffH.initData (lastOf .data before)
  uninitData : Reserves s.noffH.uninitData (lastOf .bss before)
  oneData : ∀ other ∈ before, other.kind = .data → lastOf .data before = some other
  oneBss : ∀ other ∈ before, other.kind = .bss → lastOf .bss before = some other

theorem records_start (uninitialized : NoffHeader) (position : Nat) :
    Records coff (start uninitialized position) [] where
  position := rfl
  room := by decide
  inNoffFile := rfl
  length := Nat.zero_le _
  code := rfl
  initData := rfl
  uninitData := rfl
  oneData := by
    intro other member
    cases member
  oneBss := by
    intro other member
    cases member

variable {s : Conversion}

/-- A section of some kind has a size. -/
theorem size_ne_zero (nonempty : sectionHeader.kind ≠ .empty) : sectionHeader.sSize ≠ 0 := by
  intro zero
  exact nonempty (if_pos zero)

theorem size_pos (nonempty : sectionHeader.kind ≠ .empty)
    (placed : 0 ≤ sectionHeader.sSize.toInt) : 0 < sectionHeader.sSize.toInt := by
  have nonzero := size_ne_zero nonempty
  have different : sectionHeader.sSize.toInt ≠ 0 := by
    intro zero
    exact nonzero (BitVec.eq_of_toInt_eq zero)
  omega

theorem read_natCast (file : UnixFile) (position : Nat) {count : Nat} (positive : 0 < count) :
    read file position count =
      if file.length < position + count then .error .fileTooShort
      else .ok (ByteStore.File.read file position count, position + count) := by
  have length : (ByteStore.File.read file position count).length =
      min count (file.length - position) := length_segment _ _ _
  have nonneg : ¬ (count : Int) < 0 := by omega
  unfold read
  simp only [if_neg nonneg, Int.toNat_natCast]
  by_cases short : file.length < position + count
  · rw [if_pos short, if_pos (by omega)]
  · have full : (ByteStore.File.read file position count).length = count := by omega
    rw [if_neg short, if_neg (by omega), full]

theorem write_natCast (file : UnixFile) (position : Nat) (buffer : List Byte) (count : Nat) :
    write file position buffer count =
      if maxFileSize < position + count then .error .unableToWrite
      else .ok (ByteStore.File.write file 0 position buffer, position + count) := by
  have nonneg : ¬ (count : Int) < 0 := by omega
  unfold write
  simp only [if_neg nonneg, Int.toNat_natCast]
  by_cases full : maxFileSize < position + count
  · rw [if_pos full, if_pos (by omega)]
  · rw [if_neg full, if_neg (by omega)]

/-- What `copyData` does to a section with raw data in the file, if it can be done. -/
theorem copyData_eq (size : 0 < sectionHeader.sSize.toInt)
    (scnptr : 0 ≤ sectionHeader.sScnptr.toInt) :
    s.copyData coff sectionHeader =
      if coff.length < sectionHeader.sScnptr.toInt.toNat + sectionHeader.sSize.toInt.toNat then
        .error .fileTooShort
      else if maxFileSize < s.noffPosition + sectionHeader.sSize.toInt.toNat then
        .error .unableToWrite
      else .ok { s with
        inNoffFile := s.inNoffFile + sectionHeader.sSize
        coffPosition := sectionHeader.sScnptr.toInt.toNat + sectionHeader.sSize.toInt.toNat
        noff := ByteStore.File.write s.noff 0 s.noffPosition (sectionHeader.data coff)
        noffPosition := s.noffPosition + sectionHeader.sSize.toInt.toNat } := by
  have seek : s.seekSection sectionHeader = sectionHeader.sScnptr.toInt.toNat :=
    if_pos scnptr
  have count : ((sectionHeader.sSize.toInt.toNat : Nat) : Int) = sectionHeader.sSize.toInt :=
    Int.toNat_of_nonneg (by omega)
  have reading := read_natCast coff sectionHeader.sScnptr.toInt.toNat
    (show 0 < sectionHeader.sSize.toInt.toNat by omega)
  have writing := write_natCast s.noff s.noffPosition (sectionHeader.data coff)
    sectionHeader.sSize.toInt.toNat
  rw [count] at reading writing
  unfold Conversion.copyData
  rw [seek, reading]
  split
  · rfl
  · rw [ok_bind]
    change (write s.noff s.noffPosition (sectionHeader.data coff) _ >>= _) = _
    rw [writing]
    split <;> rfl

theorem length_data (inside : sectionHeader.sScnptr.toInt.toNat +
    sectionHeader.sSize.toInt.toNat ≤ coff.length) :
    (sectionHeader.data coff).length = sectionHeader.sSize.toInt.toNat := by
  have length : (sectionHeader.data coff).length = min sectionHeader.sSize.toInt.toNat
      (coff.length - sectionHeader.sScnptr.toInt.toNat) := length_segment _ _ _
  omega

theorem data_ne_nil (size : 0 < sectionHeader.sSize.toInt)
    (inside : sectionHeader.sScnptr.toInt.toNat + sectionHeader.sSize.toInt.toNat ≤
      coff.length) : sectionHeader.data coff ≠ [] := by
  intro empty
  have length := length_data inside
  rw [empty, List.length_nil] at length
  omega

/-- The section that was copied last. -/
theorem Records.isCopy (records : Records coff s before)
    (size : 0 < sectionHeader.sSize.toInt)
    (inside : sectionHeader.sScnptr.toInt.toNat + sectionHeader.sSize.toInt.toNat ≤
      coff.length) :
    IsCopy coff (ByteStore.File.write s.noff 0 s.noffPosition (sectionHeader.data coff))
      ⟨sectionHeader.sPaddr, s.inNoffFile, sectionHeader.sSize⟩ sectionHeader := by
  have length := length_data inside
  have start : s.inNoffFile.toInt.toNat = s.noffPosition := by
    rw [records.inNoffFile, Int.toNat_natCast, records.position]
  have written := ByteStore.File.length_write_behind s.noff 0 records.length
    (data_ne_nil size inside)
  constructor
  · rfl
  · rfl
  · dsimp only
    rw [start, records.position]
    exact Nat.le_add_right _ _
  · dsimp only
    rw [start, written, length]
  · unfold Segment.data
    dsimp only
    rw [start, ← length]
    exact ByteStore.File.read_write_same s.noff 0 s.noffPosition (sectionHeader.data coff)

/-- The loop after a section was copied, whatever the header says. -/
theorem Records.copied (records : Records coff s before)
    (size : 0 < sectionHeader.sSize.toInt)
    (copiedSize : sectionHeader.copiedSize = sectionHeader.sSize.toInt.toNat)
    (inside : sectionHeader.sScnptr.toInt.toNat + sectionHeader.sSize.toInt.toNat ≤
      coff.length)
    (room : noffLength before + sectionHeader.sSize.toInt.toNat ≤ maxFileSize)
    {noffH : NoffHeader} (position : Nat) {noff : UnixFile}
    (written : noff = ByteStore.File.write s.noff 0 s.noffPosition (sectionHeader.data coff))
    (code : Copies coff noff noffH.code (lastOf .text (before ++ [sectionHeader])))
    (initData : Copies coff noff noffH.initData (lastOf .data (before ++ [sectionHeader])))
    (uninitData : Reserves noffH.uninitData (lastOf .bss (before ++ [sectionHeader])))
    (oneData : ∀ other ∈ before ++ [sectionHeader], other.kind = .data →
      lastOf .data (before ++ [sectionHeader]) = some other)
    (oneBss : ∀ other ∈ before ++ [sectionHeader], other.kind = .bss →
      lastOf .bss (before ++ [sectionHeader]) = some other) :
    Records coff { s with
      noffH := noffH
      inNoffFile := s.inNoffFile + sectionHeader.sSize
      coffPosition := position
      noff := noff
      noffPosition := s.noffPosition + sectionHeader.sSize.toInt.toNat }
      (before ++ [sectionHeader]) where
  position := by
    rw [noffLength_append, copiedSize]
    exact congrArg (· + _) records.position
  room := by
    rw [noffLength_append, copiedSize]
    exact room
  inNoffFile := by
    have sum : s.inNoffFile.toInt + sectionHeader.sSize.toInt =
        ((noffLength before + sectionHeader.sSize.toInt.toNat : Nat) : Int) := by
      rw [records.inNoffFile]
      omega
    have small : maxFileSize < 2 ^ 31 := by decide
    rw [noffLength_append, copiedSize, ← sum]
    apply CInt.toInt_add_of_fits
    rw [sum]
    exact ⟨by omega, by omega⟩
  length := by
    rw [written, ByteStore.File.length_write_behind s.noff 0 records.length
      (data_ne_nil size inside), length_data inside]
  code := code
  initData := initData
  uninitData := uninitData
  oneData := oneData
  oneBss := oneBss

/-- A kind of which there is one section at most still has one at most. -/
theorem once_append
    (once : ∀ other ∈ before, other.kind = kind → lastOf kind before = some other)
    (first : sectionHeader.kind = kind → lastOf kind before = none) :
    ∀ other ∈ before ++ [sectionHeader], other.kind = kind →
      lastOf kind (before ++ [sectionHeader]) = some other := by
  intro other member isKind
  rw [lastOf_append]
  rcases List.mem_append.mp member with earlier | last
  · have found := once other earlier isKind
    rw [if_neg, found]
    intro same
    rw [first same] at found
    cases found
  · have same := List.mem_singleton.mp last
    subst same
    rw [if_pos isKind]

theorem kind_of_raw (raw : sectionHeader.kind = .text ∨ sectionHeader.kind = .data) :
    sectionHeader.kind ≠ .empty ∧ sectionHeader.kind ≠ .bss ∧
      sectionHeader.copiedSize = sectionHeader.sSize.toInt.toNat := by
  unfold SectionHeader.copiedSize
  rcases raw with text | data
  · simp [text]
  · simp [data]

/-- Raw data is copied when it can be taken. -/
theorem Records.sameOutcome_copyData (records : Records coff s before)
    (raw : sectionHeader.kind = .text ∨ sectionHeader.kind = .data)
    (hasRawData : sectionHeader.HasRawData)
    (firstData : sectionHeader.kind = .data → lastOf .data before = none)
    (noffH : NoffHeader) (uninitData : noffH.uninitData = s.noffH.uninitData)
    (copies : ∀ noff,
      IsCopy coff noff ⟨sectionHeader.sPaddr, s.inNoffFile, sectionHeader.sSize⟩
        sectionHeader →
      Copies coff noff s.noffH.code (lastOf .text before) →
      Copies coff noff s.noffH.initData (lastOf .data before) →
        Copies coff noff noffH.code (lastOf .text (before ++ [sectionHeader])) ∧
          Copies coff noff noffH.initData (lastOf .data (before ++ [sectionHeader]))) :
    SameOutcome (Records coff) ({ s with noffH := noffH }.copyData coff sectionHeader)
      (collectRawData coff before sectionHeader) := by
  rcases hasRawData raw with ⟨nonneg, scnptr⟩
  rcases kind_of_raw raw with ⟨nonempty, notBss, copiedSize⟩
  have size := size_pos nonempty nonneg
  rw [copyData_eq size scnptr]
  unfold collectRawData
  dsimp only
  rw [records.position]
  by_cases short : coff.length <
      sectionHeader.sScnptr.toInt.toNat + sectionHeader.sSize.toInt.toNat
  · rw [if_pos short, if_pos short]
    exact .error _
  · by_cases full : maxFileSize < noffLength before + sectionHeader.sSize.toInt.toNat
    · rw [if_neg short, if_neg short, if_pos full, if_pos full]
      exact .error _
    · rw [if_neg short, if_neg short, if_neg full, if_neg full]
      have inside := Nat.le_of_not_lt short
      have behind : s.noff.length ≤ noffLength before := by
        rw [← records.position]
        exact records.length
      have copy := records.isCopy size inside
      rw [records.position] at copy
      have segments := copies _ copy (records.code.write (Or.inl behind))
        (records.initData.write (Or.inl behind))
      have advanced := records.copied size copiedSize inside (Nat.le_of_not_lt full)
        (sectionHeader.sScnptr.toInt.toNat + sectionHeader.sSize.toInt.toNat)
        (by rw [records.position]) segments.1 segments.2
        (by rw [uninitData, lastOf_append, if_neg notBss]; exact records.uninitData)
        (once_append records.oneData firstData)
        (once_append records.oneBss fun bss => absurd bss notBss)
      rw [records.position] at advanced
      exact .ok advanced

/-- A section that is not copied, after which the header describes the same segments. -/
theorem Records.notCopied (records : Records coff s before)
    (text : sectionHeader.kind ≠ .text) (data : sectionHeader.kind ≠ .data)
    (firstBss : sectionHeader.kind = .bss → lastOf .bss before = none)
    {uninitData : Segment}
    (reserves : Reserves uninitData (lastOf .bss (before ++ [sectionHeader]))) :
    Records coff { s with noffH := { s.noffH with uninitData := uninitData } }
      (before ++ [sectionHeader]) := by
  have copiedSize : sectionHeader.copiedSize = 0 := by
    unfold SectionHeader.copiedSize
    split
    · next isText => exact absurd isText text
    · next isData => exact absurd isData data
    all_goals rfl
  have length : noffLength (before ++ [sectionHeader]) = noffLength before := by
    rw [noffLength_append, copiedSize, Nat.add_zero]
  constructor
  · exact records.position.trans length.symm
  · rw [length]
    exact records.room
  · rw [length]
    exact records.inNoffFile
  · exact records.length
  · rw [lastOf_append, if_neg text]
    exact records.code
  · rw [lastOf_append, if_neg data]
    exact records.initData
  · exact reserves
  · exact once_append records.oneData fun isData => absurd isData data
  · exact once_append records.oneBss firstBss

/-- The loop takes a section, or stops there, as it is said of the sections alone. -/
theorem sameOutcome_loadSection (coff : UnixFile) (s : Conversion)
    (before : List SectionHeader) (sectionHeader : SectionHeader)
    (records : Records coff s before) (hasRawData : sectionHeader.HasRawData)
    (firstBss : FirstBss before sectionHeader) :
    SameOutcome (Records coff) (s.loadSection coff sectionHeader)
      (collect coff before sectionHeader) := by
  unfold Conversion.loadSection collect
  cases isKind : sectionHeader.kind with
  | empty =>
      have same : lastOf .bss (before ++ [sectionHeader]) = lastOf .bss before := by
        rw [lastOf_append, isKind]
        rfl
      exact .ok (records.notCopied (by simp [isKind]) (by simp [isKind]) (by simp [isKind])
        (by rw [same]; exact records.uninitData))
  | text =>
      apply records.sameOutcome_copyData (Or.inl isKind) hasRawData (by simp [isKind])
        { s.noffH with code := ⟨sectionHeader.sPaddr, s.inNoffFile, sectionHeader.sSize⟩ } rfl
      intro noff copy code initData
      rw [lastOf_append, lastOf_append, if_pos isKind, if_neg (by simp [isKind])]
      exact ⟨copy, initData⟩
  | data =>
      cases last : lastOf .data before with
      | none =>
          have vacant := records.initData
          rw [last] at vacant
          dsimp only
          rw [if_neg (fun used => used vacant), if_neg (by simp)]
          apply records.sameOutcome_copyData (Or.inr isKind) hasRawData (fun _ => last)
            { s.noffH with
              initData := ⟨sectionHeader.sPaddr, s.inNoffFile, sectionHeader.sSize⟩ } rfl
          intro noff copy code initData
          rw [lastOf_append, lastOf_append, if_pos isKind, if_neg (by simp [isKind])]
          exact ⟨code, copy⟩
      | some other =>
          have used := records.initData
          rw [last] at used
          have nonzero : s.noffH.initData.size ≠ 0 := by
            rw [used.size]
            exact size_ne_zero (by rw [(mem_of_lastOf last).2]; decide)
          dsimp only
          rw [if_pos nonzero, if_pos (by simp)]
          exact .error _
  | bss =>
      have last := firstBss isKind
      have vacant := records.uninitData
      rw [last] at vacant
      dsimp only
      rw [if_neg (fun used => used vacant)]
      apply SameOutcome.ok
      apply records.notCopied (by simp [isKind]) (by simp [isKind]) (fun _ => last)
      rw [lastOf_append, if_pos isKind]
      exact ⟨rfl, rfl⟩
  | unknown => exact .error _

/-- The rule for zeroed memory is broken where a second section of it is reached. -/
theorem acceptsContiguousBss_iff (s : Conversion) (before : List SectionHeader)
    (sectionHeader : SectionHeader) (records : Records coff s before) :
    AcceptsContiguousBss coff s sectionHeader ↔ FirstBss before sectionHeader := by
  unfold AcceptsContiguousBss FirstBss
  apply imp_congr_right
  intro isKind
  have recorded := records.uninitData
  cases last : lastOf .bss before with
  | none =>
      rw [last] at recorded
      exact iff_of_true (fun used => absurd recorded used) rfl
  | some other =>
      rw [last] at recorded
      have nonzero : s.noffH.uninitData.size ≠ 0 := by
        rw [recorded.2]
        exact size_ne_zero (by rw [(mem_of_lastOf last).2]; decide)
      apply iff_of_false
      · intro rule
        have same := rule nonzero
        unfold Conversion.loadSection at same
        rw [isKind] at same
        dsimp only at same
        rw [if_pos nonzero] at same
        by_cases contiguous : sectionHeader.sPaddr =
            s.noffH.uninitData.virtualAddr + s.noffH.uninitData.size
        · rw [if_pos contiguous] at same
          rcases same.mpr contiguous with ⟨next, done⟩
          cases done
        · rw [if_neg contiguous] at same
          exact contiguous (same.mp ⟨_, rfl⟩)
      · intro none
        cases none

theorem collectRawData_eq_ok {all : List SectionHeader}
    (done : collectRawData coff before sectionHeader = .ok all) :
    all = before ++ [sectionHeader] := by
  unfold collectRawData at done
  dsimp only at done
  split at done
  · cases done
  · split at done
    · cases done
    · cases done
      rfl

theorem collect_eq_ok {all : List SectionHeader}
    (done : collect coff before sectionHeader = .ok all) : all = before ++ [sectionHeader] := by
  unfold collect at done
  cases isKind : sectionHeader.kind with
  | empty | bss =>
      rw [isKind] at done
      cases done
      rfl
  | text =>
      rw [isKind] at done
      exact collectRawData_eq_ok done
  | data =>
      rw [isKind] at done
      dsimp only at done
      split at done
      · cases done
      · exact collectRawData_eq_ok done
  | unknown =>
      rw [isKind] at done
      cases done

theorem run_collect_eq_ok {all : List SectionHeader}
    (done : run (collect coff) before sections = .ok all) : all = before ++ sections := by
  induction sections generalizing before with
  | nil =>
      cases done
      exact (List.append_nil _).symm
  | cons sectionHeader sections ih =>
      rcases run_cons_eq_ok_iff.mp done with ⟨next, collected, rest⟩
      have same := ih rest
      rw [collect_eq_ok collected, List.append_assoc] at same
      exact same

theorem finish_eq (s : Conversion) :
    s.finish = .ok (ByteStore.File.write s.noff 0 0 s.noffH.toBytes) := by
  unfold Conversion.finish
  rw [write_natCast, if_neg (by decide)]
  rfl

theorem read_header (s : Conversion) :
    ByteStore.File.read (ByteStore.File.write s.noff 0 0 s.noffH.toBytes) 0
      NoffHeader.bytes = s.noffH.toBytes := by
  rw [← NoffHeader.length_toBytes s.noffH]
  exact ByteStore.File.read_write_same s.noff 0 0 s.noffH.toBytes

/-- `AddrSpace::AddrSpace` reads the header that was recorded. -/
theorem header_of_finish (done : s.finish = .ok noff) (stack : Nat → Byte) :
    (⟨noff, stack⟩ : Program).header = s.noffH := by
  rw [finish_eq] at done
  cases done
  have length := NoffHeader.length_toBytes s.noffH
  have header := read_header s
  have bytes : (⟨ByteStore.File.write s.noff 0 0 s.noffH.toBytes, stack⟩ :
      Program).headerBytes = s.noffH.toBytes := by
    unfold Program.headerBytes
    rw [header, ← length]
    exact segment_overwrite_same stack 0 s.noffH.toBytes
  unfold Program.header
  rw [bytes, NoffHeader.ofBytes_toBytes]

theorem noffH_copyData {after : Conversion}
    (done : s.copyData coff sectionHeader = .ok after) : after.noffH = s.noffH := by
  rcases bind_eq_ok_iff.mp done with ⟨read, _, done⟩
  rcases bind_eq_ok_iff.mp done with ⟨written, _, done⟩
  cases done
  rfl

theorem noffMagic_loadSection {after : Conversion}
    (done : s.loadSection coff sectionHeader = .ok after) :
    after.noffH.noffMagic = s.noffH.noffMagic := by
  unfold Conversion.loadSection at done
  dsimp only at done
  split at done
  · cases done
    rfl
  · rw [noffH_copyData done]
  · split at done
    · cases done
    · rw [noffH_copyData done]
  · split at done
    · split at done
      · cases done
      · cases done
        rfl
    · cases done
      rfl
  · cases done

/-- A converted file passes the check of the magic number in `AddrSpace::AddrSpace`. -/
theorem noffMagic_of_coff2noff {uninitialized : NoffHeader}
    (done : coff2noff uninitialized coff = .ok noff) (stack : Nat → Byte) :
    (⟨noff, stack⟩ : Program).header.noffMagic = Nachos.noffMagic := by
  rcases bind_eq_ok_iff.mp done with ⟨headers, _, done⟩
  rcases bind_eq_ok_iff.mp done with ⟨last, looped, done⟩
  rw [header_of_finish done]
  have kept : ∀ (s : Conversion) sectionHeader after,
      s.noffH.noffMagic = Nachos.noffMagic → s.loadSection coff sectionHeader = .ok after →
        after.noffH.noffMagic = Nachos.noffMagic :=
    fun s sectionHeader after magic loaded => (noffMagic_loadSection loaded).trans magic
  have begun : (start uninitialized headers.2).noffH.noffMagic = Nachos.noffMagic := rfl
  have along := @alongRun_of_preserved _ _ _ _ _ kept _ headers.1 begun
  have magic := alongRun_last along looped
  exact magic

end Coff2noff

end Nachos
