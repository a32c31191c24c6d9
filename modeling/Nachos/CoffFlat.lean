import Nachos.CoffImage

/-!
# Flat files

`coff2flat` makes a file that is copied directly to memory.  It writes the raw data of the
sections one after the other, wherever their headers want it, and puts a word at the end of the
stack behind them.  Where the sections follow each other in memory, the file shows their image,
and that of the NOFF file.
-/

namespace Nachos

open LittleEndianWords ByteStore TransitionRuns MemoryImages CInt

open Coff2noff (readHeaders maxFileSize coffImage noffImage)

namespace SectionHeader

/-- Whether `coff2flat` copies nothing. -/
def isZeroed (sectionHeader : SectionHeader) : Bool :=
  sectionHeader.isNamed ['.', 'b', 's', 's'] || sectionHeader.isNamed ['.', 's', 'b', 's', 's']

end SectionHeader

namespace Coff2flat

/-- `StackSize`. -/
def stackSize : Nat := 1024

/-- The variables of the loop over the sections, and the flat file with the positions of both
descriptors. -/
structure Conversion where
  top : CInt
  coffPosition : Nat
  flat : UnixFile
  flatPosition : Nat

def start (position : Nat) : Conversion where
  top := 0
  coffPosition := position
  flat := ⟨fun _ => 0, 0⟩
  flatPosition := 0

namespace Conversion

/-- The end of the section, where it is above `top`. -/
def raise (top : CInt) (sectionHeader : SectionHeader) : CInt :=
  let finish := sectionHeader.sPaddr + sectionHeader.sSize
  if top.toInt < finish.toInt then finish else top

/-- The body of the loop over the sections. -/
def loadSection (coff : UnixFile) (s : Conversion) (sectionHeader : SectionHeader) :
    Except ConversionError Conversion :=
  let top := raise s.top sectionHeader
  if sectionHeader.isZeroed then .ok { s with top := top }
  else do
    -- `lseek` leaves the position alone when it fails
    let position := if 0 ≤ sectionHeader.sScnptr.toInt then sectionHeader.sScnptr.toInt.toNat
      else s.coffPosition
    let (buffer, coffPosition) ← Coff2noff.read coff position sectionHeader.sSize.toInt
    let (flat, flatPosition) ← Coff2noff.write s.flat s.flatPosition buffer
      sectionHeader.sSize.toInt
    return {
      top := top
      coffPosition := coffPosition
      flat := flat
      flatPosition := flatPosition }

/-- The blank word at the end. -/
def finish (s : Conversion) : Except ConversionError UnixFile :=
  let tmp : CInt := 0
  let target := s.top + BitVec.ofNat 32 stackSize - 4
  let position := if 0 ≤ target.toInt then target.toInt.toNat else s.flatPosition
  (Coff2noff.write s.flat position (encodeWords [tmp]) 4).map Prod.fst

end Conversion

/-- `main`: the flat file made from a COFF file. -/
def coff2flat (coff : UnixFile) : Except ConversionError UnixFile := do
  let (sections, position) ← readHeaders coff
  let s ← run (Conversion.loadSection coff) (start position) sections
  s.finish

/-- The raw data of the sections that are copied. -/
def rawData (coff : UnixFile) (sections : List SectionHeader) : List Byte :=
  sections.flatMap fun sectionHeader =>
    if sectionHeader.isZeroed then [] else sectionHeader.data coff

/-- What the header of a section says about memory. -/
def sectionImage (coff : UnixFile) (sectionHeader : SectionHeader) : Image Byte :=
  if sectionHeader.isZeroed then zeroed sectionHeader.sPaddr.toInt sectionHeader.sSize.toInt
  else placed sectionHeader.sPaddr.toInt (sectionHeader.data coff)

/-- The image of all the sections. -/
def image (coff : UnixFile) (sections : List SectionHeader) : Image Byte :=
  ⨆ sectionHeader ∈ sections, sectionImage coff sectionHeader

/-- The end of the last section. -/
def topOf (top : Int) (sections : List SectionHeader) : Int :=
  sections.foldl
    (fun top sectionHeader => max top (sectionHeader.sPaddr.toInt + sectionHeader.sSize.toInt)) top

/-- The section is inside of the memory that the flat file has room for, and what is copied is
in the COFF file. -/
structure Inside (coff : UnixFile) (sectionHeader : SectionHeader) : Prop where
  paddr : 0 ≤ sectionHeader.sPaddr.toInt
  size : 0 ≤ sectionHeader.sSize.toInt
  room : sectionHeader.sPaddr.toInt + sectionHeader.sSize.toInt + stackSize ≤ maxFileSize
  raw : sectionHeader.isZeroed = false → 0 ≤ sectionHeader.sScnptr.toInt ∧
    sectionHeader.sScnptr.toInt + sectionHeader.sSize.toInt ≤ coff.length

/-- The sections that are copied follow each other in memory. -/
def Follow : Int → List SectionHeader → Prop
  | _, [] => True
  | address, sectionHeader :: sections =>
      if sectionHeader.isZeroed then Follow address sections
      else sectionHeader.sPaddr.toInt = address ∧
        Follow (address + sectionHeader.sSize.toInt) sections

/-- The sections that are copied follow each other from address 0, and zeroed memory is behind
them. -/
structure Flat (coff : UnixFile) (sections : List SectionHeader) : Prop where
  inside : ∀ sectionHeader ∈ sections, Inside coff sectionHeader
  follow : Follow 0 sections
  behind : ∀ sectionHeader ∈ sections, sectionHeader.isZeroed = true →
    (rawData coff sections).length ≤ sectionHeader.sPaddr.toInt

instance (coff : UnixFile) (sectionHeader : SectionHeader) :
    Decidable (Inside coff sectionHeader) :=
  decidable_of_iff (0 ≤ sectionHeader.sPaddr.toInt ∧ 0 ≤ sectionHeader.sSize.toInt ∧
      sectionHeader.sPaddr.toInt + sectionHeader.sSize.toInt + stackSize ≤ maxFileSize ∧
      (sectionHeader.isZeroed = false → 0 ≤ sectionHeader.sScnptr.toInt ∧
        sectionHeader.sScnptr.toInt + sectionHeader.sSize.toInt ≤ coff.length))
    ⟨fun ⟨paddr, size, room, raw⟩ => ⟨paddr, size, room, raw⟩,
      fun ⟨paddr, size, room, raw⟩ => ⟨paddr, size, room, raw⟩⟩

instance decidableFollow : ∀ address sections, Decidable (Follow address sections)
  | _, [] => inferInstanceAs (Decidable True)
  | address, sectionHeader :: sections =>
      have := decidableFollow address sections
      have := decidableFollow (address + sectionHeader.sSize.toInt) sections
      inferInstanceAs (Decidable (if sectionHeader.isZeroed then Follow address sections
        else sectionHeader.sPaddr.toInt = address ∧
          Follow (address + sectionHeader.sSize.toInt) sections))

instance (coff : UnixFile) (sections : List SectionHeader) : Decidable (Flat coff sections) :=
  decidable_of_iff ((∀ sectionHeader ∈ sections, Inside coff sectionHeader) ∧ Follow 0 sections ∧
      ∀ sectionHeader ∈ sections, sectionHeader.isZeroed = true →
        (rawData coff sections).length ≤ sectionHeader.sPaddr.toInt)
    ⟨fun ⟨inside, follow, behind⟩ => ⟨inside, follow, behind⟩,
      fun ⟨inside, follow, behind⟩ => ⟨inside, follow, behind⟩⟩

variable {coff : UnixFile} {sections : List SectionHeader} {sectionHeader : SectionHeader}
  {s : Conversion}

theorem Inside.length_data (inside : Inside coff sectionHeader)
    (copied : sectionHeader.isZeroed = false) :
    ((sectionHeader.data coff).length : Int) = sectionHeader.sSize.toInt := by
  obtain ⟨scnptr, within⟩ := inside.raw copied
  have size := inside.size
  rw [Coff2noff.length_data (by omega), Int.toNat_of_nonneg size]

/-- The end of a section does not overflow. -/
theorem Inside.toInt_finish (inside : Inside coff sectionHeader) :
    (sectionHeader.sPaddr + sectionHeader.sSize).toInt =
      sectionHeader.sPaddr.toInt + sectionHeader.sSize.toInt := by
  obtain ⟨paddr, size, room, -⟩ := inside
  simp only [maxFileSize] at room
  exact toInt_add_of_fits ⟨by omega, by omega⟩

theorem Inside.toInt_raise (inside : Inside coff sectionHeader) (top : CInt) :
    (Conversion.raise top sectionHeader).toInt =
      max top.toInt (sectionHeader.sPaddr.toInt + sectionHeader.sSize.toInt) := by
  simp only [Conversion.raise, inside.toInt_finish]
  split
  · rw [inside.toInt_finish]
    omega
  · omega

/-- What is written to the flat file fits into it. -/
theorem write_eq {file : UnixFile} {position : Nat} {buffer : List Byte}
    (room : position + buffer.length ≤ maxFileSize) :
    Coff2noff.write file position buffer buffer.length =
      .ok (ByteStore.File.write file 0 position buffer, position + buffer.length) := by
  rw [Coff2noff.write_natCast, if_neg (by omega)]

/-- What is read is in the COFF file. -/
theorem read_eq (file : UnixFile) (position count : Nat)
    (inside : position + count ≤ file.length) :
    Coff2noff.read file position count =
      .ok (ByteStore.File.read file position count, position + count) := by
  have length : (ByteStore.File.read file position count).length = count := by
    rw [ByteStore.File.read_eq_segment file inside, length_segment]
  simp only [Coff2noff.read, Int.toNat_natCast, length]
  rw [if_neg (show ¬ (count : Int) < 0 by omega), if_neg (by omega)]

/-- A section at the end of the flat file. -/
theorem loadSection_copied (inside : Inside coff sectionHeader)
    (copied : sectionHeader.isZeroed = false) (atEnd : s.flatPosition = s.flat.length)
    (room : (s.flat.length : Int) + sectionHeader.sSize.toInt ≤ maxFileSize) :
    ∃ next, s.loadSection coff sectionHeader = .ok next ∧
      next.flat.contents = s.flat.contents ++ sectionHeader.data coff ∧
      next.flatPosition = next.flat.length ∧
      next.top.toInt = max s.top.toInt
        (sectionHeader.sPaddr.toInt + sectionHeader.sSize.toInt) := by
  obtain ⟨scnptr, within⟩ := inside.raw copied
  have size := inside.size
  have length := inside.length_data copied
  have reading := read_eq coff sectionHeader.sScnptr.toInt.toNat sectionHeader.sSize.toInt.toNat
    (by omega)
  rw [Int.toNat_of_nonneg size] at reading
  have writing : Coff2noff.write s.flat s.flatPosition (sectionHeader.data coff) _ = _ :=
    write_eq (by omega)
  rw [length, atEnd] at writing
  refine ⟨{
    top := Conversion.raise s.top sectionHeader
    coffPosition := sectionHeader.sScnptr.toInt.toNat + sectionHeader.sSize.toInt.toNat
    flat := ByteStore.File.write s.flat 0 s.flat.length (sectionHeader.data coff)
    flatPosition := s.flat.length + (sectionHeader.data coff).length }, ?_,
    ByteStore.File.contents_write_end _ _ _, ?_, inside.toInt_raise _⟩
  · unfold Conversion.loadSection
    rw [copied, if_neg Bool.false_ne_true, if_pos scnptr]
    dsimp only
    rw [reading, atEnd, ok_bind]
    change (Coff2noff.write s.flat s.flat.length (sectionHeader.data coff) _ >>= _) = _
    rw [writing]
    rfl
  · have grown := congrArg List.length
      (ByteStore.File.contents_write_end s.flat 0 (sectionHeader.data coff))
    rw [List.length_append, ByteStore.File.length_contents, ByteStore.File.length_contents] at grown
    exact grown.symm

theorem loadSection_zeroed (inside : Inside coff sectionHeader)
    (zeroed : sectionHeader.isZeroed = true) :
    ∃ next, s.loadSection coff sectionHeader = .ok next ∧ next.flat = s.flat ∧
      next.flatPosition = s.flatPosition ∧
      next.top.toInt = max s.top.toInt
        (sectionHeader.sPaddr.toInt + sectionHeader.sSize.toInt) :=
  ⟨{ s with top := Conversion.raise s.top sectionHeader }, if_pos zeroed, rfl, rfl,
    inside.toInt_raise _⟩

/-- The loop over sections of which those that are copied follow each other in memory. -/
theorem run_loadSection (inside : ∀ sectionHeader ∈ sections, Inside coff sectionHeader)
    (follow : Follow s.flat.length sections) (atEnd : s.flatPosition = s.flat.length) :
    ∃ last, run (Conversion.loadSection coff) s sections = .ok last ∧
      last.flat.contents = s.flat.contents ++ rawData coff sections ∧
      last.top.toInt = topOf s.top.toInt sections := by
  induction sections generalizing s with
  | nil => exact ⟨s, rfl, (List.append_nil _).symm, rfl⟩
  | cons sectionHeader sections ih =>
      have here := inside sectionHeader List.mem_cons_self
      have rest : ∀ other ∈ sections, Inside coff other :=
        fun other member => inside other (List.mem_cons_of_mem _ member)
      cases kind : sectionHeader.isZeroed with
      | true =>
          simp only [Follow, kind, if_true] at follow
          obtain ⟨next, loaded, flat, position, top⟩ := loadSection_zeroed (s := s) here kind
          obtain ⟨last, ran, contents, finish⟩ := ih (s := next) rest (flat ▸ follow)
            (by rw [position, flat, atEnd])
          refine ⟨last, (run_cons_of_ok loaded sections).trans ran, ?_, ?_⟩
          · rw [contents, flat, rawData, rawData, List.flatMap_cons, if_pos kind, List.nil_append]
          · rw [finish, top]
            rfl
      | false =>
          simp only [Follow, kind, Bool.false_eq_true, if_false] at follow
          obtain ⟨address, follow⟩ := follow
          have room := here.room
          obtain ⟨next, loaded, contents, position, top⟩ := loadSection_copied (s := s) here kind
            atEnd (by omega)
          have length : (next.flat.length : Int) =
              s.flat.length + sectionHeader.sSize.toInt := by
            have grown := congrArg List.length contents
            rw [List.length_append, ByteStore.File.length_contents,
              ByteStore.File.length_contents] at grown
            rw [grown, ← here.length_data kind]
            rfl
          obtain ⟨last, ran, after, finish⟩ := ih (s := next) rest (length ▸ follow) position
          refine ⟨last, (run_cons_of_ok loaded sections).trans ran, ?_, ?_⟩
          · rw [after, contents, rawData, rawData, List.flatMap_cons, if_neg (by simp [kind]),
              List.append_assoc]
          · rw [finish, top]
            rfl

/-- Zeros from the end of the file up to the end of the stack. -/
theorem finish_eq (nonneg : 0 ≤ s.top.toInt) (room : s.top.toInt + stackSize ≤ maxFileSize)
    (below : s.flat.length ≤ s.top.toInt) :
    ∃ flat, s.finish = .ok flat ∧ flat.contents = s.flat.contents ++
      List.replicate (s.top.toInt.toNat + stackSize - s.flat.length) 0 := by
  simp only [stackSize, maxFileSize] at room
  have target : (s.top + BitVec.ofNat 32 stackSize - 4).toInt = s.top.toInt + 1020 := by
    rw [show s.top + BitVec.ofNat 32 stackSize - 4 = s.top + 1020 from by
      rw [BitVec.sub_eq_add_neg, BitVec.add_assoc]
      rfl]
    exact toInt_add_of_fits ⟨by simp; omega, by simp; omega⟩
  have words : encodeWords [0] = List.replicate 4 (0 : Byte) := rfl
  have behind : s.flat.length ≤ s.top.toInt.toNat + 1020 := by omega
  have writing : Coff2noff.write s.flat (s.top.toInt.toNat + 1020) (encodeWords [0])
      (encodeWords [0]).length = _ := write_eq (by simp [maxFileSize]; omega)
  have nonempty : encodeWords [0] ≠ [] := by
    rw [words]
    exact List.cons_ne_nil _ _
  refine ⟨_, ?_, (ByteStore.File.contents_write_behind s.flat 0 behind nonempty).trans ?_⟩
  · unfold Conversion.finish
    dsimp only
    rw [target, if_pos (by omega), show (s.top.toInt + 1020).toNat = s.top.toInt.toNat + 1020 by
      omega]
    exact congrArg (Except.map Prod.fst) writing
  · have count : s.top.toInt.toNat + 1020 - s.flat.length + 4 =
        s.top.toInt.toNat + stackSize - s.flat.length := by
      simp only [stackSize]
      omega
    rw [words, List.append_assoc, List.replicate_append_replicate, count]

theorem le_topOf (top : Int) (sections : List SectionHeader) :
    top ≤ topOf top sections ∧ ∀ sectionHeader ∈ sections,
      sectionHeader.sPaddr.toInt + sectionHeader.sSize.toInt ≤ topOf top sections := by
  induction sections generalizing top with
  | nil => exact ⟨Int.le_refl _, fun _ member => nomatch member⟩
  | cons sectionHeader sections ih =>
      obtain ⟨above, others⟩ := ih
        (max top (sectionHeader.sPaddr.toInt + sectionHeader.sSize.toInt))
      change _ ≤ topOf (max top _) sections ∧ ∀ other ∈ _, _ ≤ topOf (max top _) sections
      refine ⟨by omega, fun other member => ?_⟩
      rcases List.mem_cons.mp member with rfl | member
      · omega
      · exact others other member

theorem topOf_le {top bound : Int} (below : top ≤ bound)
    (others : ∀ sectionHeader ∈ sections,
      sectionHeader.sPaddr.toInt + sectionHeader.sSize.toInt ≤ bound) :
    topOf top sections ≤ bound := by
  induction sections generalizing top with
  | nil => exact below
  | cons sectionHeader sections ih =>
      have here := others sectionHeader List.mem_cons_self
      exact ih (max_le below here) fun other member =>
        others other (List.mem_cons_of_mem _ member)

/-- The raw data ends where the last section does that is copied. -/
theorem Follow.end_le {address top : Int} (follow : Follow address sections)
    (inside : ∀ sectionHeader ∈ sections, Inside coff sectionHeader) (below : address ≤ top) :
    address + (rawData coff sections).length ≤ topOf top sections := by
  induction sections generalizing address top with
  | nil => simpa [rawData, topOf] using below
  | cons sectionHeader sections ih =>
      have here := inside sectionHeader List.mem_cons_self
      have rest : ∀ other ∈ sections, Inside coff other :=
        fun other member => inside other (List.mem_cons_of_mem _ member)
      change _ ≤ topOf (max top (sectionHeader.sPaddr.toInt + sectionHeader.sSize.toInt)) sections
      cases kind : sectionHeader.isZeroed with
      | true =>
          simp only [Follow, kind, if_true] at follow
          have others := ih follow rest
            (show address ≤ max top (sectionHeader.sPaddr.toInt + sectionHeader.sSize.toInt) by
              omega)
          simpa [rawData, kind] using others
      | false =>
          simp only [Follow, kind, Bool.false_eq_true, if_false] at follow
          obtain ⟨start, follow⟩ := follow
          have others := ih follow rest
            (show address + sectionHeader.sSize.toInt ≤
              max top (sectionHeader.sPaddr.toInt + sectionHeader.sSize.toInt) by omega)
          have length := here.length_data kind
          have whole : (rawData coff (sectionHeader :: sections)).length =
              (sectionHeader.data coff).length + (rawData coff sections).length := by
            simp [rawData, kind]
          omega

/-- The data of each section that is copied is at its address. -/
theorem Follow.data_at {front : List Byte} (follow : Follow front.length sections)
    (inside : ∀ sectionHeader ∈ sections, Inside coff sectionHeader)
    (member : sectionHeader ∈ sections) (copied : sectionHeader.isZeroed = false) :
    ∃ before after, front ++ rawData coff sections = before ++ sectionHeader.data coff ++ after ∧
      sectionHeader.sPaddr.toInt = before.length := by
  induction sections generalizing front with
  | nil => cases member
  | cons first sections ih =>
      have here := inside first List.mem_cons_self
      have rest : ∀ other ∈ sections, Inside coff other :=
        fun other member => inside other (List.mem_cons_of_mem _ member)
      cases kind : first.isZeroed with
      | true =>
          simp only [Follow, kind, if_true] at follow
          have later : sectionHeader ∈ sections := by
            rcases List.mem_cons.mp member with rfl | later
            · rw [kind] at copied
              cases copied
            · exact later
          obtain ⟨before, after, split, address⟩ := ih follow rest later
          exact ⟨before, after, by simpa [rawData, kind] using split, address⟩
      | false =>
          simp only [Follow, kind, Bool.false_eq_true, if_false] at follow
          obtain ⟨start, follow⟩ := follow
          have whole : rawData coff (first :: sections) =
              first.data coff ++ rawData coff sections := by
            simp [rawData, kind]
          rw [whole]
          rcases List.mem_cons.mp member with rfl | later
          · exact ⟨front, rawData coff sections, (List.append_assoc _ _ _).symm, start⟩
          · have length : ((front ++ first.data coff).length : Int) =
                front.length + first.sSize.toInt := by
              rw [List.length_append, ← here.length_data kind]
              rfl
            obtain ⟨before, after, split, address⟩ := ih (length ▸ follow) rest later
            exact ⟨before, after, by rw [← List.append_assoc, split], address⟩

/-- All of the raw data belongs to sections. -/
theorem Follow.found {address : Int} (follow : Follow address sections)
    (inside : ∀ sectionHeader ∈ sections, Inside coff sectionHeader) {index : Nat} {value : Byte}
    (found : (rawData coff sections)[index]? = some value) :
    ∃ sectionHeader ∈ sections, (address + index, value) ∈ (sectionImage coff sectionHeader).1 := by
  induction sections generalizing address index with
  | nil => simp [rawData] at found
  | cons first sections ih =>
      have here := inside first List.mem_cons_self
      have rest : ∀ other ∈ sections, Inside coff other :=
        fun other member => inside other (List.mem_cons_of_mem _ member)
      cases kind : first.isZeroed with
      | true =>
          simp only [Follow, kind, if_true] at follow
          simp only [rawData, List.flatMap_cons, kind, if_true, List.nil_append] at found
          obtain ⟨other, member, there⟩ := ih follow rest found
          exact ⟨other, List.mem_cons_of_mem _ member, there⟩
      | false =>
          simp only [Follow, kind, Bool.false_eq_true, if_false] at follow
          obtain ⟨start, follow⟩ := follow
          simp only [rawData, List.flatMap_cons, kind, Bool.false_eq_true, if_false] at found
          by_cases within : index < (first.data coff).length
          · rw [List.getElem?_append_left within] at found
            refine ⟨first, List.mem_cons_self, ?_⟩
            rw [sectionImage, if_neg (by simp [kind]), start]
            exact ⟨index, rfl, found⟩
          · rw [List.getElem?_append_right (by omega)] at found
            obtain ⟨other, member, there⟩ := ih follow rest found
            have length := here.length_data kind
            refine ⟨other, List.mem_cons_of_mem _ member, ?_⟩
            have place : address + first.sSize.toInt +
                ((index - (first.data coff).length : Nat) : Int) = address + index := by omega
            rwa [place] at there

/-- A section has one name. -/
theorem isNamed_eq_false {first second : List Char} (named : sectionHeader.isNamed first = true)
    (different : (first.map fun c => UInt8.ofNat c.toNat) ≠
      second.map fun c => UInt8.ofNat c.toNat) : sectionHeader.isNamed second = false := by
  unfold SectionHeader.isNamed at named ⊢
  rw [beq_iff_eq.mp named]
  exact beq_false_of_ne different

/-- A section that `coff2noff` copies is copied. -/
theorem isZeroed_of_raw (raw : sectionHeader.kind = .text ∨ sectionHeader.kind = .data) :
    sectionHeader.isZeroed = false := by
  unfold SectionHeader.isZeroed
  rw [Bool.or_eq_false_iff]
  unfold SectionHeader.kind at raw
  split at raw
  · simp at raw
  split at raw
  · next isText => exact ⟨isNamed_eq_false isText (by decide), isNamed_eq_false isText (by decide)⟩
  split at raw
  · next isData =>
    rcases Bool.or_eq_true_iff.mp isData with isData | isData <;>
      exact ⟨isNamed_eq_false isData (by decide), isNamed_eq_false isData (by decide)⟩
  · split at raw <;> simp at raw

theorem isZeroed_of_bss (bss : sectionHeader.kind = .bss) : sectionHeader.isZeroed = true := by
  unfold SectionHeader.kind at bss
  split at bss <;> try cases bss
  split at bss <;> try cases bss
  split at bss <;> try cases bss
  split at bss <;> try cases bss
  assumption

/-- Both converters understand the sections that `coff2noff` takes in the same way. -/
theorem coffImage_le_image : coffImage coff sections ≤ image coff sections := by
  apply iSup₂_mono
  intro sectionHeader _
  unfold SectionHeader.image sectionImage
  cases kind : sectionHeader.kind with
  | text => rw [isZeroed_of_raw (Or.inl kind), if_neg Bool.false_ne_true]
  | data => rw [isZeroed_of_raw (Or.inr kind), if_neg Bool.false_ne_true]
  | bss => rw [isZeroed_of_bss kind, if_pos rfl]
  | empty | unknown => exact bot_le

/-- The flat file made from a COFF file whose sections follow each other shows their image, and
nothing else but zeros, up to the end of the stack.  So it shows what the NOFF file says, too,
when that was made without the loss of a section. -/
theorem coff2flat_shows {position : Nat} (headers : readHeaders coff = .ok (sections, position))
    (isFlat : Flat coff sections) :
    ∃ flat, coff2flat coff = .ok flat ∧ (flat.length : Int) = topOf 0 sections + stackSize ∧
      Shows 0 flat.contents (image coff sections) ∧
      (∀ (address : Nat) (value : Byte), flat.contents[address]? = some value → value ≠ 0 →
        ((address : Int), value) ∈ (image coff sections).1) ∧
      ∀ uninitialized noff, Coff2noff.RepeatsNoSegment coff sections →
        Coff2noff.coff2noff uninitialized coff = .ok noff →
          Shows 0 flat.contents (noffImage noff) := by
  obtain ⟨inside, follow, behind⟩ := isFlat
  obtain ⟨last, ran, raw, top⟩ := run_loadSection (s := start position) inside follow rfl
  have contents : last.flat.contents = rawData coff sections := raw
  have length : last.flat.length = (rawData coff sections).length := by
    rw [← contents, ByteStore.File.length_contents]
  have tops := le_topOf 0 sections
  have ends := follow.end_le inside (Int.le_refl 0)
  have bound : topOf 0 sections ≤ maxFileSize - stackSize := by
    apply topOf_le (by decide)
    intro sectionHeader member
    have room := (inside sectionHeader member).room
    omega
  change last.top.toInt = topOf 0 sections at top
  obtain ⟨flat, finished, whole⟩ := finish_eq (s := last) (by omega) (by omega) (by omega)
  rw [contents, top, length] at whole
  have shown : Shows 0 flat.contents (image coff sections) := by
    refine shows_iSup fun sectionHeader => shows_iSup fun member => ?_
    rw [whole, sectionImage]
    cases kind : sectionHeader.isZeroed with
    | true =>
        rw [if_pos rfl]
        have above := behind sectionHeader member kind
        have below := tops.2 sectionHeader member
        exact shows_zeroed 0 _ above (by omega)
    | false =>
        rw [if_neg Bool.false_ne_true]
        obtain ⟨before, after, split, address⟩ :=
          @Follow.data_at _ _ _ [] follow inside member kind
        rw [List.nil_append] at split
        rw [split, address, List.append_assoc]
        exact shows_placed 0 _ _ _
  refine ⟨flat, ?_, ?_, shown, fun address value found nonzero => ?_,
    fun uninitialized noff repeats converted => ?_⟩
  · unfold coff2flat
    rw [headers, ok_bind]
    change (run _ _ sections >>= _) = _
    rw [ran, ok_bind]
    exact finished
  · have lengths := congrArg List.length whole
    rw [ByteStore.File.length_contents, List.length_append, List.length_replicate] at lengths
    omega
  · rw [whole] at found
    by_cases within : address < (rawData coff sections).length
    · rw [List.getElem?_append_left within] at found
      obtain ⟨sectionHeader, member, there⟩ := follow.found inside found
      rw [Int.zero_add] at there
      exact (le_iSup₂_of_le sectionHeader member le_rfl :
        sectionImage coff sectionHeader ≤ image coff sections).1 there
    · rw [List.getElem?_append_right (by omega), List.getElem?_replicate] at found
      split at found
      · exact absurd (Option.some.inj found).symm nonzero
      · cases found
  · have proper : ∀ sectionHeader ∈ sections, sectionHeader.HasRawData := by
      intro sectionHeader member isRaw
      have here := inside sectionHeader member
      exact ⟨here.size, (here.raw (isZeroed_of_raw isRaw)).1⟩
    have same := ((Coff2noff.preservesImage_of_headers uninitialized headers proper).mpr
      repeats).1 noff converted
    rw [same]
    exact shown.mono coffImage_le_image

set_option maxRecDepth 8000 in
/-- A program with code, data and zeroed memory. -/
theorem coff2flat_shows_three :
    ∃ coff sections flat, coff2flat coff = .ok flat ∧ flat.length = 1048 ∧
      Shows 0 flat.contents (image coff sections) := by
  let coff := Coff2noff.coffFile [(['.', 't', 'e', 'x', 't'], 0, 4, 196),
    (['.', 'd', 'a', 't', 'a'], 4, 4, 200), (['.', 'b', 's', 's'], 8, 16, 0)]
    [1, 2, 3, 4, 5, 6, 7, 8]
  have facts : (readHeaders coff).map (fun headers => decide
      (Flat coff headers.1 ∧ topOf 0 headers.1 = 24)) = .ok true := by
    decide +kernel
  rcases map_eq_ok_iff.mp facts with ⟨⟨sections, position⟩, headers, holds⟩
  obtain ⟨isFlat, top⟩ := of_decide_eq_true holds
  obtain ⟨flat, done, length, shown, -⟩ := coff2flat_shows headers isFlat
  rw [top, stackSize] at length
  exact ⟨coff, sections, flat, done, by omega, shown⟩

set_option maxRecDepth 8000 in
/-- Where there is a gap between two sections, the data is not at its address. -/
example :
    let coff := Coff2noff.coffFile [(['.', 't', 'e', 'x', 't'], 0, 4, 156),
      (['.', 'd', 'a', 't', 'a'], 8, 4, 160)] [1, 2, 3, 4, 5, 6, 7, 8]
    (coff2flat coff).map (fun flat => ByteStore.File.read flat 0 12) =
      .ok [1, 2, 3, 4, 5, 6, 7, 8, 0, 0, 0, 0] := by
  decide +kernel

end Coff2flat

end Nachos
