import Nachos.CoffSections
import Nachos.MemoryImages

/-!
# The memory images of COFF and NOFF files

The NOFF file made from a COFF file has the image of the last section of each kind, so that it
has the image of the COFF file when the others add nothing.
-/

namespace Nachos

open LittleEndianWords ByteStore TransitionRuns MemoryImages

namespace SectionHeader

def image (coff : UnixFile) (sectionHeader : SectionHeader) : Image Byte :=
  match sectionHeader.kind with
  | .text | .data => placed sectionHeader.sPaddr.toInt (sectionHeader.data coff)
  | .bss => zeroed sectionHeader.sPaddr.toInt sectionHeader.sSize.toInt
  | .empty | .unknown => ⊥

end SectionHeader

namespace Coff2noff

/-- The image of all the sections. -/
def coffImage (coff : UnixFile) (sections : List SectionHeader) : Image Byte :=
  ⨆ sectionHeader ∈ sections, sectionHeader.image coff

/-- The image that the header of a NOFF file describes. -/
def noffImage (noff : UnixFile) : Image Byte :=
  let noffH := NoffHeader.ofBytes (ByteStore.File.read noff 0 NoffHeader.bytes)
  placed noffH.code.virtualAddr.toInt (noffH.code.data noff) ⊔
    placed noffH.initData.virtualAddr.toInt (noffH.initData.data noff) ⊔
      zeroed noffH.uninitData.virtualAddr.toInt noffH.uninitData.size.toInt

/-- The NOFF file, if there is one, has the image of the COFF file, and sections of zeroed
memory are merged if and only if they are contiguous. -/
def PreservesImage (uninitialized : NoffHeader) (coff : UnixFile) : Prop :=
  ∀ sections position, readHeaders coff = .ok (sections, position) →
    (∀ noff, coff2noff uninitialized coff = .ok noff →
      noffImage noff = coffImage coff sections) ∧
    RunRequested (Conversion.loadSection coff) (AcceptsContiguousBss coff)
      (start uninitialized position) sections

/-- The headers of the file describe sections with raw data in the file. -/
def IsCoff (coff : UnixFile) : Prop :=
  ∀ sections position, readHeaders coff = .ok (sections, position) →
    ∀ sectionHeader ∈ sections, sectionHeader.HasRawData

def lastImage (coff : UnixFile) (kind : SectionKind) (sections : List SectionHeader) :
    Image Byte :=
  ((lastOf kind sections).map (SectionHeader.image coff)).getD ⊥

/-- There is one section for zeroed memory among those that are reached; and if all sections
can be taken, then those of code before the last one repeat bytes of that one or of the
data. -/
structure RepeatsNoSegment (coff : UnixFile) (sections : List SectionHeader) : Prop where
  oneBss : RunRequested (collect coff) FirstBss [] sections
  textKept : ∀ all, run (collect coff) [] sections = .ok all →
    ∀ sectionHeader ∈ all, sectionHeader.kind = .text →
      sectionHeader.image coff ≤ lastImage coff .text all ⊔ lastImage coff .data all

variable {coff noff : UnixFile} {sections before : List SectionHeader}
  {sectionHeader : SectionHeader} {kind : SectionKind}

variable {s : Conversion}

theorem lastImage_le (kind : SectionKind) :
    lastImage coff kind sections ≤ coffImage coff sections := by
  unfold lastImage
  cases last : lastOf kind sections with
  | none => exact bot_le
  | some sectionHeader => exact le_iSup₂_of_le sectionHeader (mem_of_lastOf last).1 le_rfl

theorem Copies.image_eq {segment : Segment} (raw : kind = .text ∨ kind = .data)
    (copies : Copies coff noff segment (lastOf kind sections)) :
    placed segment.virtualAddr.toInt (segment.data noff) = lastImage coff kind sections := by
  unfold lastImage
  cases last : lastOf kind sections with
  | none =>
      rw [last] at copies
      have empty : segment.data noff = [] := by
        unfold Segment.data
        rw [show segment.size = 0 from copies]
        apply List.eq_nil_of_length_eq_zero
        exact (length_segment _ _ _).trans (Nat.zero_min _)
      rw [empty]
      exact placed_nil _
  | some sectionHeader =>
      rw [last] at copies
      have isKind := (mem_of_lastOf last).2
      rw [copies.data, copies.virtualAddr]
      unfold SectionHeader.image
      rcases raw with rfl | rfl
      · simp [isKind]
      · simp [isKind]

theorem Reserves.image_eq {segment : Segment}
    (reserves : Reserves segment (lastOf .bss sections)) :
    zeroed segment.virtualAddr.toInt segment.size.toInt = lastImage coff .bss sections := by
  unfold lastImage
  cases last : lastOf .bss sections with
  | none =>
      rw [last] at reserves
      rw [show segment.size = 0 from reserves]
      exact zeroed_zero _
  | some sectionHeader =>
      rw [last] at reserves
      have isKind := (mem_of_lastOf last).2
      rw [reserves.1, reserves.2]
      unfold SectionHeader.image
      simp [isKind]

/-- The NOFF file has the image of the last section of each kind. -/
theorem noffImage_of_finish (records : Records coff s sections) (done : s.finish = .ok noff) :
    noffImage noff = lastImage coff .text sections ⊔ lastImage coff .data sections ⊔
      lastImage coff .bss sections := by
  rw [finish_eq] at done
  cases done
  have header := read_header s
  have within : 0 + s.noffH.toBytes.length ≤ NoffHeader.bytes := by
    rw [NoffHeader.length_toBytes, Nat.zero_add]
  have code := (records.code.write (Or.inr within)).image_eq (Or.inl rfl)
  have initData := (records.initData.write (Or.inr within)).image_eq (Or.inr rfl)
  unfold noffImage
  rw [header, NoffHeader.ofBytes_toBytes, ← code, ← initData,
    ← records.uninitData.image_eq]

/-- The image of a section of a kind of which there is no other. -/
theorem image_le_lastImage (last : lastOf kind sections = some sectionHeader) :
    sectionHeader.image coff ≤ lastImage coff kind sections := by
  unfold lastImage
  rw [last]
  exact le_rfl

theorem coffImage_eq_iff (records : Records coff s sections) :
    lastImage coff .text sections ⊔ lastImage coff .data sections ⊔
        lastImage coff .bss sections = coffImage coff sections ↔
      ∀ sectionHeader ∈ sections, sectionHeader.kind = .text →
        sectionHeader.image coff ≤
          lastImage coff .text sections ⊔ lastImage coff .data sections := by
  have smaller := sup_le (sup_le (lastImage_le .text) (lastImage_le .data))
    (@lastImage_le coff sections .bss)
  constructor
  · intro same sectionHeader member isKind
    have inside : sectionHeader.image coff ≤ coffImage coff sections :=
      le_iSup₂_of_le sectionHeader member le_rfl
    rw [← same, ← records.uninitData.image_eq] at inside
    unfold SectionHeader.image at inside ⊢
    rw [isKind] at inside ⊢
    exact placed_le_of_le_sup_zeroed inside
  · intro textKept
    apply le_antisymm smaller
    apply iSup₂_le
    intro sectionHeader member
    cases isKind : sectionHeader.kind with
    | empty | unknown =>
        unfold SectionHeader.image
        rw [isKind]
        exact bot_le
    | text => exact le_sup_of_le_left (textKept sectionHeader member isKind)
    | data =>
        have last := records.oneData sectionHeader member isKind
        exact le_sup_of_le_left (le_sup_of_le_right (image_le_lastImage last))
    | bss =>
        have last := records.oneBss sectionHeader member isKind
        exact le_sup_of_le_right (image_le_lastImage last)

/-- When only one section of zeroed memory is reached, the loop ends as it is said of the
sections alone, and the image is kept when no code is lost. -/
theorem noffImage_eq_coffImage_iff (uninitialized : NoffHeader) {position : Nat}
    (headers : readHeaders coff = .ok (sections, position))
    (proper : ∀ sectionHeader ∈ sections, sectionHeader.HasRawData)
    (oneBss : RunRequested (collect coff) FirstBss [] sections) :
    (∀ noff, coff2noff uninitialized coff = .ok noff →
      noffImage noff = coffImage coff sections) ↔
        ∀ all, run (collect coff) [] sections = .ok all →
          ∀ sectionHeader ∈ all, sectionHeader.kind = .text →
            sectionHeader.image coff ≤
              lastImage coff .text all ⊔ lastImage coff .data all := by
  have outcome := sameOutcome_run (sameOutcome_loadSection coff)
    (records_start uninitialized position) proper oneBss
  have converted : coff2noff uninitialized coff =
      (run (Conversion.loadSection coff) (start uninitialized position) sections >>=
        Conversion.finish) := by
    unfold coff2noff
    rw [headers]
    rfl
  rw [converted]
  generalize run (Conversion.loadSection coff) (start uninitialized position) sections =
    result at outcome
  generalize collected : run (collect coff) [] sections = otherResult at outcome
  cases outcome with
  | error fault =>
      constructor
      · intro _ all done
        cases done
      · intro _ noff done
        cases done
  | @ok s all records =>
      have same := run_collect_eq_ok collected
      rw [List.nil_append] at same
      subst same
      have kept := coffImage_eq_iff records
      constructor
      · intro preserved other done
        cases done
        exact kept.mp ((noffImage_of_finish records (finish_eq s)).symm.trans
          (preserved _ (finish_eq s)))
      · intro textKept noff done
        exact (noffImage_of_finish records done).trans (kept.mpr (textKept all rfl))

theorem preservesImage_of_headers (uninitialized : NoffHeader) {position : Nat}
    (headers : readHeaders coff = .ok (sections, position))
    (proper : ∀ sectionHeader ∈ sections, sectionHeader.HasRawData) :
    ((∀ noff, coff2noff uninitialized coff = .ok noff →
        noffImage noff = coffImage coff sections) ∧
      RunRequested (Conversion.loadSection coff) (AcceptsContiguousBss coff)
        (start uninitialized position) sections) ↔
      RepeatsNoSegment coff sections := by
  have rule : RunRequested (Conversion.loadSection coff) (AcceptsContiguousBss coff)
      (start uninitialized position) sections ↔
        RunRequested (collect coff) FirstBss [] sections :=
    runRequested_iff_of_simulation
      (fun s before sectionHeader records _ =>
        acceptsContiguousBss_iff s before sectionHeader records)
      (sameOutcome_loadSection coff) (records_start uninitialized position) proper
  constructor
  · rintro ⟨preserved, merges⟩
    have oneBss := rule.mp merges
    exact ⟨oneBss,
      (noffImage_eq_coffImage_iff uninitialized headers proper oneBss).mp preserved⟩
  · rintro ⟨oneBss, textKept⟩
    exact ⟨(noffImage_eq_coffImage_iff uninitialized headers proper oneBss).mpr textKept,
      rule.mpr oneBss⟩

/-- The conversion of a COFF file preserves its image, and merges contiguous sections of
zeroed memory and no others, exactly when it never reaches a second such section and loses
no code. -/
theorem preservesImage_iff (uninitialized : NoffHeader) (coff : UnixFile)
    (isCoff : IsCoff coff) :
    PreservesImage uninitialized coff ↔
      ∀ sections position, readHeaders coff = .ok (sections, position) →
        RepeatsNoSegment coff sections := by
  apply forall_congr'
  intro sections
  apply forall_congr'
  intro position
  apply imp_congr_right
  intro headers
  exact preservesImage_of_headers uninitialized headers (isCoff sections position headers)

/-- With one section of code, none is lost. -/
theorem repeatsNoSegment_of_once (oneBss : RunRequested (collect coff) FirstBss [] sections)
    (once : ∀ sectionHeader ∈ sections, sectionHeader.kind = .text →
      lastOf .text sections = some sectionHeader) : RepeatsNoSegment coff sections where
  oneBss := oneBss
  textKept := by
    intro all done sectionHeader member isKind
    have same := run_collect_eq_ok done
    rw [List.nil_append] at same
    subst same
    exact le_sup_of_le_left (image_le_lastImage (once sectionHeader member isKind))

instance (sectionHeader : SectionHeader) : Decidable sectionHeader.HasRawData :=
  inferInstanceAs (Decidable (_ → _))

instance (before : List SectionHeader) (sectionHeader : SectionHeader) :
    Decidable (FirstBss before sectionHeader) :=
  inferInstanceAs (Decidable (_ → _))

/-- A COFF file with these sections (name, `s_paddr`, `s_size` and `s_scnptr`) and the raw
data behind the headers. -/
def coffFile (sections : List (List Char × CInt × CInt × CInt)) (rawData : List Byte) :
    UnixFile :=
  let headers := [98, 1, UInt8.ofNat sections.length, 0] ++ List.replicate 16 0 ++
    [7, 1] ++ List.replicate 54 0 ++ sections.flatMap fun fields =>
      (fields.1.map fun c => UInt8.ofNat c.toNat).takeD 8 0 ++
        encodeWords [fields.2.1, 0, fields.2.2.1, fields.2.2.2, 0, 0, 0, 0]
  ⟨fun position => (headers ++ rawData).getD position 0, (headers ++ rawData).length⟩

def blankHeader : NoffHeader :=
  ⟨0, ⟨0, 0, 0⟩, ⟨0, 0, 0⟩, ⟨0, 0, 0⟩⟩

theorem isCoff_of_headers {position : Nat} (headers : readHeaders coff = .ok (sections, position))
    (proper : ∀ sectionHeader ∈ sections, sectionHeader.HasRawData) : IsCoff coff := by
  intro others _ again
  rw [headers] at again
  cases again
  exact proper

set_option maxRecDepth 8000 in
/-- A program with code, data and zeroed memory is converted. -/
theorem preservesImage_of_three :
    ∃ uninitialized coff noff, coff2noff uninitialized coff = .ok noff ∧
      PreservesImage uninitialized coff := by
  let coff := coffFile [(['.', 't', 'e', 'x', 't'], 0, 4, 196),
    (['.', 'd', 'a', 't', 'a'], 4, 4, 200), (['.', 'b', 's', 's'], 8, 16, 0)]
    [1, 2, 3, 4, 5, 6, 7, 8]
  have facts : (readHeaders coff).map (fun headers => decide
      (RunRequested (collect coff) FirstBss [] headers.1 ∧
        (∀ sectionHeader ∈ headers.1, sectionHeader.HasRawData) ∧
        ∀ sectionHeader ∈ headers.1, sectionHeader.kind = .text →
          lastOf .text headers.1 = some sectionHeader)) = .ok true := by
    decide +kernel
  have converts : (coff2noff blankHeader coff).map (fun _ => ()) = .ok () := by
    decide +kernel
  rcases map_eq_ok_iff.mp converts with ⟨noff, done, -⟩
  rcases map_eq_ok_iff.mp facts with ⟨⟨sections, position⟩, headers, holds⟩
  rcases of_decide_eq_true holds with ⟨oneBss, proper, once⟩
  refine ⟨blankHeader, coff, noff, done,
    (preservesImage_iff _ coff (isCoff_of_headers headers proper)).mpr ?_⟩
  intro others _ again
  rw [headers] at again
  cases again
  exact repeatsNoSegment_of_once oneBss once

/-- Two sections of zeroed memory, of 16 bytes each. -/
def twoBss (second : CInt) : UnixFile :=
  coffFile [(['.', 'b', 's', 's'], 0, 16, 0), (['.', 's', 'b', 's', 's'], second, 16, 0)] []

/-- Two sections of code, of four bytes each. -/
def twoTexts : UnixFile :=
  coffFile [(['.', 't', 'e', 'x', 't'], 0, 4, 156), (['.', 't', 'e', 'x', 't'], 16, 4, 160)]
    [1, 2, 3, 4, 5, 6, 7, 8]

theorem not_preservesImage_of_headers (uninitialized : NoffHeader) {position : Nat}
    (headers : readHeaders coff = .ok (sections, position))
    (proper : ∀ sectionHeader ∈ sections, sectionHeader.HasRawData)
    (broken : ¬ RepeatsNoSegment coff sections) :
    IsCoff coff ∧ ¬ PreservesImage uninitialized coff :=
  ⟨isCoff_of_headers headers proper, fun preserves => broken
    ((preservesImage_of_headers uninitialized headers proper).mp (preserves _ _ headers))⟩

theorem not_preservesImage_of_second {coff : UnixFile}
    (facts : (readHeaders coff).map (fun headers => decide
      ((∀ sectionHeader ∈ headers.1, sectionHeader.HasRawData) ∧
        ¬ RunRequested (collect coff) FirstBss [] headers.1)) = .ok true) :
    IsCoff coff ∧ ¬ PreservesImage blankHeader coff := by
  rcases map_eq_ok_iff.mp facts with ⟨⟨sections, position⟩, headers, holds⟩
  rcases of_decide_eq_true holds with ⟨proper, second⟩
  exact not_preservesImage_of_headers _ headers proper fun repeats => second repeats.oneBss

set_option maxRecDepth 8000 in
/-- Sections of zeroed memory that are contiguous are rejected, others are taken for
contiguous ones, and of two sections of code the first is lost. -/
theorem not_preservesImage :
    (IsCoff (twoBss 16) ∧ ¬ PreservesImage blankHeader (twoBss 16) ∧
      (coff2noff blankHeader (twoBss 16)).map (fun _ => ()) = .error .bssAndSbss) ∧
    (IsCoff (twoBss 4096) ∧ ¬ PreservesImage blankHeader (twoBss 4096) ∧
      (coff2noff blankHeader (twoBss 4096)).map (fun _ => ()) = .ok ()) ∧
    IsCoff twoTexts ∧ ¬ PreservesImage blankHeader twoTexts ∧
      (coff2noff blankHeader twoTexts).map (fun _ => ()) = .ok () := by
  have contiguous := @not_preservesImage_of_second (twoBss 16) (by decide +kernel)
  have apart := @not_preservesImage_of_second (twoBss 4096) (by decide +kernel)
  have facts : (readHeaders twoTexts).map (fun headers => (headers.1, decide
      ((run (collect twoTexts) [] headers.1).map (fun _ => ()) = .ok ()),
      decide (∀ sectionHeader ∈ headers.1, sectionHeader.HasRawData),
      lastOf .data headers.1)) =
        .ok ([⟨[46, 116, 101, 120, 116, 0, 0, 0], 0, 4, 156⟩,
          ⟨[46, 116, 101, 120, 116, 0, 0, 0], 16, 4, 160⟩], true, true, none) := by
    decide +kernel
  rcases map_eq_ok_iff.mp facts with ⟨⟨sections, position⟩, headers, holds⟩
  simp only [Prod.mk.injEq, decide_eq_true_eq] at holds
  rcases holds with ⟨rfl, collected, proper, noData⟩
  rcases map_eq_ok_iff.mp collected with ⟨all, done, -⟩
  have lost := not_preservesImage_of_headers blankHeader headers proper (by
    intro repeats
    have same := run_collect_eq_ok done
    rw [List.nil_append] at same
    subst same
    have kept := repeats.textKept _ done _ List.mem_cons_self (by decide)
    have byte : ((0 : Int), (1 : Byte)) ∈ (SectionHeader.image twoTexts
        ⟨[46, 116, 101, 120, 116, 0, 0, 0], 0, 4, 156⟩).1 := ⟨0, rfl, by decide +kernel⟩
    rcases kept.1 byte with ⟨offset, address, -⟩ | none
    · change (0 : Int) = 16 + offset at address
      omega
    · unfold lastImage at none
      rw [noData] at none
      exact none)
  exact ⟨⟨contiguous.1, contiguous.2, by decide +kernel⟩,
    ⟨apart.1, apart.2, by decide +kernel⟩, lost.1, lost.2, by decide +kernel⟩

end Coff2noff

end Nachos
