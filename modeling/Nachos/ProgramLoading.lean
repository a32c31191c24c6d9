import Nachos.FrameOwnership
import Nachos.ProgramImage

/-!
# Programs in their frames

The frames of a new address space are the first clear ones of the bitmap, but the program
is put where it would lie if the frames of all the programs before it were still taken.
The two agree as long as no address space was deleted.  Afterwards a program is in its
frames only by chance, and what a deleted one has left is cleared only for a program that
starts in frame 0.
-/

namespace Nachos

open LittleEndianWords ByteStore TransitionRuns ExclusiveOwnership

/-- A NOFF executable whose segments lie inside the file and the address space, and whose
copies in the swap file have positions in the range of an `int`. -/
structure Program.Sound (program : Program) : Prop where
  noff : program.header.noffMagic = noffMagic
  fits : program.executable.length + memorySize < 2 ^ 31
  inside : ∀ part, part = program.header.code ∨ part = program.header.initData →
    0 < part.size.toInt → program.SegmentInside part

namespace TranslationView

variable {view : TranslationView}

/-- The frames of an address space; a page that got none has frame -1. -/
def framesOf (view : TranslationView) (id : Nat) : List Int :=
  (view.tableOf id).map Mapping.physicalPage

/-- The bits of the frames that the address spaces have are the marked ones. -/
def FramesHeld (view : TranslationView) : Prop :=
  Ledger (fun id => BitMap.bitsOf memorySize (view.framesOf id)) view.marked

theorem framesOf_create (formed : view.WellFormed) (found : List Int)
    (marked : Fin memorySize → Bool) (realNumPages : Nat) :
    (view.create found marked realNumPages).framesOf =
      Function.update view.framesOf view.allocated found := by
  funext id
  unfold framesOf
  rw [tableOf_create formed]
  by_cases same : id = view.allocated
  · subst same
    rw [Function.update_self, Function.update_self, map_physicalPage_fresh]
  · rw [Function.update_of_ne same, Function.update_of_ne same]

theorem framesOf_remove (formed : view.WellFormed) (id : Nat)
    (marked : Fin memorySize → Bool) :
    (view.remove id id marked).framesOf = Function.update view.framesOf id [] := by
  funext other
  unfold framesOf
  rw [tableOf_remove formed]
  by_cases same : other = id
  · subst same
    rw [Function.update_self, Function.update_self, List.map_nil]
  · rw [Function.update_of_ne same, Function.update_of_ne same]

theorem bitsOf_update (framesOf : Nat → List Int) (id : Nat) (found : List Int) :
    (fun other => BitMap.bitsOf memorySize (Function.update framesOf id found other)) =
      Function.update (fun other => BitMap.bitsOf memorySize (framesOf other)) id
        (BitMap.bitsOf memorySize found) := by
  funext other
  exact Function.apply_update (fun _ => BitMap.bitsOf memorySize) framesOf id found other

theorem FramesHeld.create (held : view.FramesHeld) (formed : view.WellFormed)
    {found : List Int} {marked : Fin memorySize → Bool}
    (distinct : (BitMap.bitsOf memorySize found).Nodup)
    (unmarked : ∀ bit ∈ BitMap.bitsOf memorySize found, view.marked bit = false)
    (updated : ∀ bit, marked bit =
      (decide (bit ∈ BitMap.bitsOf memorySize found) || view.marked bit))
    (realNumPages : Nat) : (view.create found marked realNumPages).FramesHeld := by
  have idle : BitMap.bitsOf memorySize (view.framesOf view.allocated) = [] := by
    rw [framesOf, formed.tableOf_allocated]
    rfl
  unfold FramesHeld
  rw [framesOf_create formed, bitsOf_update]
  apply held.allocate idle distinct unmarked
  intro bit
  change marked bit = true ↔ _
  rw [updated, Bool.or_eq_true, decide_eq_true_eq]

theorem FramesHeld.remove (held : view.FramesHeld) (formed : view.WellFormed) {id : Nat}
    {table : List Mapping} {marked : Fin memorySize → Bool}
    (isTable : view.tables id = some table)
    (cleared : ∀ bit, marked bit = true ↔
      (∀ mapping ∈ table, mapping.physicalPage ≠ (Fin.val bit : Int)) ∧
        view.marked bit = true) :
    (view.remove id id marked).FramesHeld := by
  unfold FramesHeld
  rw [framesOf_remove formed, bitsOf_update]
  apply held.release id
  intro bit
  change marked bit = true ↔ _
  rw [cleared, BitMap.mem_bitsOf_iff, framesOf, formed.tableOf isTable, List.mem_map]
  simp only [not_exists, not_and, ne_eq]

end TranslationView

namespace UserSystem

/-- An address space is constructed or destructed. -/
inductive Lifetime where
  | start (program : Program)
  | destroy (id : Nat)

def Lifetime.action : Lifetime → Action
  | .start program => .start program
  | .destroy id => .destroy id

/-- The step, with `USE_SWAP` defined. -/
def lifetimeStep (sys : UserSystem) (lifetime : Lifetime) : Except Fault UserSystem :=
  sys.step true lifetime.action

/-- The translation state that the constructors and destructors keep. -/
structure FramesInOrder (sys : UserSystem) : Prop where
  formed : sys.view.WellFormed
  held : sys.view.FramesHeld

theorem framesInOrder_boot (memory : BootMemory) : (boot memory).FramesInOrder where
  formed := wellFormed_boot memory
  held := {
    nodup := fun _ => List.nodup_nil
    unique := fun inFirst => nomatch inFirst
    marks := fun bit => by
      constructor
      · intro isSet
        simp only [view, boot, BitMap.testBit_new] at isSet
        cases isSet
      · rintro ⟨owner, member⟩
        cases member }

theorem FramesInOrder.lifetimeStep {sys after : UserSystem} {lifetime : Lifetime}
    (order : sys.FramesInOrder) (stepped : sys.lifetimeStep lifetime = .ok after) :
    after.FramesInOrder := by
  have moved := step_transition order.formed stepped
  refine ⟨moved.wellFormed order.formed, ?_⟩
  generalize after.view = result at moved
  cases lifetime with
  | start program =>
      cases moved with
      | start finding =>
          obtain ⟨distinct, unmarked, updated⟩ :=
            BitMap.bitsOf_findEach sys.bitmap program.header.numPages
          rw [finding] at distinct unmarked updated
          exact order.held.create order.formed distinct unmarked updated _
  | destroy id =>
      cases moved with
      | destroy isTable cleared => exact order.held.remove order.formed isTable cleared

/-- The frames that the pages of a new address space get. -/
def newFrames (sys : UserSystem) (program : Program) : List Int :=
  (sys.bitmap.findEach program.header.numPages).1

/-- The physical address of the first byte of the next program, as the constructor
computes it. -/
def loadBase (sys : UserSystem) : Int :=
  wrapInt (sys.machine.lastVpn * pageSize)

/-- The byte at a virtual address, through the page table of its address space. -/
def virtualByte (sys : UserSystem) (id address : Nat) : Option Byte :=
  (sys.view.framesOf id)[address / pageSize]?.bind fun frame =>
    if 0 ≤ frame ∧ frame < numPhysPages then
      some (sys.machine.mainMemory (frame.toNat * pageSize + address % pageSize))
    else none

/-- Every page of the program gets a frame of the main memory. -/
structure AllInMemory (sys : UserSystem) (program : Program) : Prop where
  pages : program.header.realNumPages ≤ numPhysPages
  frames : ∀ frame ∈ sys.newFrames program, 0 ≤ frame ∧ frame < numPhysPages

/-- The constructor makes an address space with the contents of the program, and leaves
the frames of the others as they are. -/
def LoadsProgram (sys : UserSystem) (program : Program) : Prop :=
  ∃ created after, sys.construct true program = .ok (created, after) ∧
    (∀ address < program.header.realNumPages * pageSize,
      after.virtualByte created address = some (program.byteAt address)) ∧
    ∀ id, ∀ frame < numPhysPages, (frame : Int) ∈ sys.view.framesOf id →
      ∀ offset < pageSize, after.machine.mainMemory (frame * pageSize + offset) =
        sys.machine.mainMemory (frame * pageSize + offset)

/-- Where the segments are put is where the page table maps their pages to. -/
structure SegmentsInLine (sys : UserSystem) (program : Program) : Prop where
  base : 0 ≤ sys.loadBase
  fits : sys.loadBase + program.executable.length < 2 ^ 31
  inside : ∀ part, part = program.header.code ∨ part = program.header.initData →
    0 < part.size.toInt → program.SegmentInside part
  frames : ∀ address, program.loadedByte address ≠ none →
    ∀ frame ∈ (sys.newFrames program)[address / pageSize]?,
      frame * pageSize = sys.loadBase + (address / pageSize * pageSize : Nat)

/-- The constructor clears a frame when the first page is frame 0 and the frame is below
the number of pages. -/
def Clears (sys : UserSystem) (program : Program) (frame : Nat) : Prop :=
  (sys.newFrames program).head? = some 0 ∧ frame < program.header.realNumPages

/-- The rest of the address space is cleared or was zero, and nothing is cleared in the
frames of the others. -/
structure RestIsZero (sys : UserSystem) (program : Program) : Prop where
  own : ∀ address, program.loadedByte address = none → ∀ frame : Nat,
    (sys.newFrames program)[address / pageSize]? = some (frame : Int) →
      sys.Clears program frame ∨
        sys.machine.mainMemory (frame * pageSize + address % pageSize) = 0
  others : ∀ id, ∀ frame < numPhysPages, (frame : Int) ∈ sys.view.framesOf id →
    sys.Clears program frame → ∀ offset < pageSize,
      sys.machine.mainMemory (frame * pageSize + offset) = 0

section Loading

variable {sys : UserSystem} {program : Program}

theorem numPages_of_allInMemory (all : sys.AllInMemory program) :
    program.header.numPages = program.header.realNumPages :=
  if_neg (Nat.not_lt.mpr all.pages)

theorem length_newFrames (sys : UserSystem) (program : Program) :
    (sys.newFrames program).length = program.header.numPages :=
  BitMap.length_findEach ..

/-- The frame of a page. -/
theorem AllInMemory.frame (all : sys.AllInMemory program) {page : Nat}
    (inside : page < program.header.realNumPages) :
    ∃ frame : Nat, frame < numPhysPages ∧
      (sys.newFrames program)[page]? = some (frame : Int) := by
  have bound : page < (sys.newFrames program).length := by
    rw [length_newFrames, numPages_of_allInMemory all]
    exact inside
  obtain ⟨nonneg, small⟩ := all.frames _ (List.getElem_mem bound)
  obtain ⟨frame, isFrame⟩ := Int.eq_ofNat_of_zero_le nonneg
  refine ⟨frame, by omega, ?_⟩
  rw [List.getElem?_eq_getElem bound, isFrame]

/-- Bytes are loaded only inside the address space. -/
theorem SegmentsInLine.page_lt (line : sys.SegmentsInLine program) {address : Nat}
    (isLoaded : program.loadedByte address ≠ none) :
    address / pageSize < program.header.realNumPages := by
  have within : ∀ part, part = program.header.code ∨ part = program.header.initData →
      program.segmentByte part address ≠ none →
        address < program.header.realNumPages * pageSize := by
    intro part isPart isByte
    unfold Program.segmentByte at isByte
    split at isByte
    · next covered =>
      have bounds := line.inside part isPart (by omega)
      have space := bounds.space
      omega
    · exact absurd rfl isByte
  apply Nat.div_lt_of_lt_mul
  rw [Nat.mul_comm]
  by_cases inData : program.segmentByte program.header.initData address = none
  · apply within _ (Or.inl rfl)
    rwa [Program.loadedByte, inData, Option.none_or] at isLoaded
  · exact within _ (Or.inr rfl) inData

/-- The physical address of a loaded byte. -/
theorem SegmentsInLine.position (line : sys.SegmentsInLine program)
    (all : sys.AllInMemory program) {base address : Nat} (isBase : sys.loadBase = base)
    (isLoaded : program.loadedByte address ≠ none) :
    ∃ frame : Nat, frame < numPhysPages ∧
      (sys.newFrames program)[address / pageSize]? = some (frame : Int) ∧
        base + address = frame * pageSize + address % pageSize := by
  obtain ⟨frame, small, isFrame⟩ := all.frame (line.page_lt isLoaded)
  have place := line.frames address isLoaded frame isFrame
  have split := Nat.div_add_mod' address pageSize
  refine ⟨frame, small, isFrame, ?_⟩
  rw [isBase] at place
  omega

theorem SegmentsInLine.segmentsFit (line : sys.SegmentsInLine program)
    (all : sys.AllInMemory program) {base : Nat} (isBase : sys.loadBase = base) :
    sys.machine.SegmentsFit program base where
  isBase := isBase
  fits := by
    have fits := line.fits
    omega
  inside := line.inside
  inMemory part isPart some_bytes := by
    have bounds := line.inside part isPart some_bytes
    obtain ⟨start, isStart⟩ := Int.eq_ofNat_of_zero_le bounds.virtualAddr
    -- the last byte of the segment lies in a frame of the main memory
    generalize isLast : start + part.size.toInt.toNat - 1 = last
    have isByte : program.segmentByte part last ≠ none := by
      rw [Program.segmentByte, if_pos (by omega)]
      exact Option.some_ne_none _
    have isLoaded : program.loadedByte last ≠ none := by
      unfold Program.loadedByte
      rcases isPart with rfl | rfl
      · cases program.segmentByte program.header.initData last
        · rwa [Option.none_or]
        · exact Option.some_ne_none _
      · cases found : program.segmentByte program.header.initData last
        · exact absurd found isByte
        · exact Option.some_ne_none _
    obtain ⟨frame, small, -, place⟩ := line.position all isBase isLoaded
    have offset : last % pageSize < pageSize := Nat.mod_lt _ (by decide)
    have memory : (memorySize : Int) = 4096 := rfl
    have page : pageSize = 128 := rfl
    have pages : numPhysPages = 32 := rfl
    rw [page] at place offset
    omega

/-- The frames found have different numbers. -/
theorem AllInMemory.nodup (all : sys.AllInMemory program) :
    (sys.newFrames program).Nodup := by
  have missing : (-1 : Int) ∉ sys.newFrames program := by
    intro member
    have bounds := all.frames _ member
    omega
  obtain ⟨found, after, isFound, -, distinct, -⟩ :=
    BitMap.findEach_eq _ (BitMap.neg_one_notMem_findEach_iff.mp missing)
  unfold newFrames
  rw [isFound]
  exact TranslationView.nodup_numbers distinct

/-- Where a loaded byte lies in a frame, the frame is that of its page. -/
theorem SegmentsInLine.reached (line : sys.SegmentsInLine program)
    (all : sys.AllInMemory program) {base frame offset : Nat} (isBase : sys.loadBase = base)
    (small : offset < pageSize) (after : base ≤ frame * pageSize + offset)
    (isLoaded : program.loadedByte (frame * pageSize + offset - base) ≠ none) :
    (sys.newFrames program)[(frame * pageSize + offset - base) / pageSize]? =
        some (frame : Int) ∧
      (frame * pageSize + offset - base) % pageSize = offset := by
  obtain ⟨other, -, isOther, place⟩ := line.position all isBase isLoaded
  rw [Nat.add_sub_cancel' after] at place
  have remainder : (frame * pageSize + offset - base) % pageSize < pageSize :=
    Nat.mod_lt _ (by decide)
  have page : pageSize = 128 := rfl
  rw [page] at place remainder small
  obtain rfl : other = frame := by omega
  exact ⟨isOther, by rw [page]; omega⟩

variable {base : Nat} (cells : Nat → Byte)

theorem SegmentsInLine.overlay_loaded (line : sys.SegmentsInLine program)
    (isBase : sys.loadBase = base) {address frame : Nat} {byte : Byte}
    (isFrame : (sys.newFrames program)[address / pageSize]? = some (frame : Int))
    (isByte : program.loadedByte address = some byte) :
    overlay base program.loadedByte cells (frame * pageSize + address % pageSize) = byte := by
  have place := line.frames address (by rw [isByte]; exact Option.some_ne_none _) _ isFrame
  have split := Nat.div_add_mod' address pageSize
  have position : frame * pageSize + address % pageSize = base + address := by
    rw [isBase] at place
    omega
  unfold overlay
  rw [position, if_pos (Nat.le_add_right ..), Nat.add_sub_cancel_left, isByte,
    Option.getD_some]

/-- A byte of the address space that is in no segment keeps what is behind it. -/
theorem SegmentsInLine.overlay_rest (line : sys.SegmentsInLine program)
    (all : sys.AllInMemory program) (isBase : sys.loadBase = base) {address frame : Nat}
    (isFrame : (sys.newFrames program)[address / pageSize]? = some (frame : Int))
    (isRest : program.loadedByte address = none) :
    overlay base program.loadedByte cells (frame * pageSize + address % pageSize) =
      cells (frame * pageSize + address % pageSize) := by
  have remainder : address % pageSize < pageSize := Nat.mod_lt _ (by decide)
  unfold overlay
  split
  · next after =>
    generalize isPlace : frame * pageSize + address % pageSize - base = place
    cases isByte : program.loadedByte place with
    | none => rfl
    | some byte =>
        have isLoaded : program.loadedByte place ≠ none := by
          rw [isByte]
          exact Option.some_ne_none _
        subst isPlace
        obtain ⟨isPage, sameOffset⟩ := line.reached all isBase remainder after isLoaded
        -- two pages in one frame are the same page
        obtain ⟨bound, -⟩ := List.getElem?_eq_some_iff.mp isPage
        have samePage := List.getElem?_inj bound all.nodup |>.mp (isPage.trans isFrame.symm)
        have same := Nat.div_add_mod' (frame * pageSize + address % pageSize - base) pageSize
        rw [samePage, sameOffset, Nat.div_add_mod'] at same
        rw [← same, isRest] at isByte
        cases isByte
  · rfl

/-- A frame that no page of the program got keeps its bytes. -/
theorem SegmentsInLine.overlay_other (line : sys.SegmentsInLine program)
    (all : sys.AllInMemory program) (isBase : sys.loadBase = base) {frame offset : Nat}
    (notNew : (frame : Int) ∉ sys.newFrames program) (small : offset < pageSize) :
    overlay base program.loadedByte cells (frame * pageSize + offset) =
      cells (frame * pageSize + offset) := by
  unfold overlay
  split
  · next after =>
    cases isByte : program.loadedByte (frame * pageSize + offset - base) with
    | none => rfl
    | some byte =>
        have isLoaded : program.loadedByte (frame * pageSize + offset - base) ≠ none := by
          rw [isByte]
          exact Option.some_ne_none _
        have reached := (line.reached all isBase small after isLoaded).1
        exact absurd (List.mem_of_getElem? reached) notNew
  · rfl

/-- Whose frames are taken are not found. -/
theorem FramesInOrder.notMem_newFrames (order : sys.FramesInOrder) {id frame : Nat}
    (small : frame < numPhysPages) (owned : (frame : Int) ∈ sys.view.framesOf id) :
    (frame : Int) ∉ sys.newFrames program := by
  intro isNew
  have inside : frame < memorySize := small.trans (by decide)
  have held : (⟨frame, inside⟩ : Fin memorySize) ∈
      BitMap.bitsOf memorySize (sys.view.framesOf id) := BitMap.mem_bitsOf_iff.mpr owned
  have taken : sys.bitmap.testBit ⟨frame, inside⟩ = true :=
    order.held.marked_of_held (by exact held)
  have clear := (BitMap.bitsOf_findEach sys.bitmap program.header.numPages).2.1
    ⟨frame, inside⟩ (BitMap.mem_bitsOf_iff.mpr isNew)
  rw [clear] at taken
  cases taken

/-- What is behind the segments in a frame. -/
theorem background_eq (frame : Nat) {offset : Nat} (small : offset < pageSize) :
    sys.machine.background program (sys.newFrames program).head?
        (frame * pageSize + offset) =
      if (sys.newFrames program).head? = some 0 ∧ frame < program.header.realNumPages then 0
      else sys.machine.mainMemory (frame * pageSize + offset) := by
  have below : frame * pageSize + offset < program.header.realNumPages * pageSize ↔
      frame < program.header.realNumPages := by
    have page : pageSize = 128 := rfl
    rw [page] at small ⊢
    omega
  unfold Machine.background
  simp only [below]

theorem background_eq_zero_iff {frame offset : Nat} (small : offset < pageSize) :
    sys.machine.background program (sys.newFrames program).head?
        (frame * pageSize + offset) = 0 ↔
      sys.Clears program frame ∨ sys.machine.mainMemory (frame * pageSize + offset) = 0 := by
  rw [background_eq frame small]
  unfold Clears
  split
  · next cleared => exact ⟨fun _ => Or.inl cleared, fun _ => rfl⟩
  · next kept => exact ⟨Or.inr, fun either => either.resolve_left kept⟩

theorem background_eq_mainMemory_iff {frame offset : Nat} (small : offset < pageSize) :
    sys.machine.background program (sys.newFrames program).head?
        (frame * pageSize + offset) = sys.machine.mainMemory (frame * pageSize + offset) ↔
      (sys.Clears program frame → sys.machine.mainMemory (frame * pageSize + offset) = 0) := by
  rw [background_eq frame small]
  unfold Clears
  split
  · next cleared => exact ⟨fun same _ => same.symm, fun zero => (zero cleared).symm⟩
  · next kept => exact ⟨fun _ cleared => absurd cleared kept, fun _ => rfl⟩

/-- What the constructor returns. -/
theorem construct_eq (isNoff : program.header.noffMagic = noffMagic) {machine : Machine}
    (loading : sys.machine.loadProgram true program (sys.newFrames program).head? =
      .ok machine) :
    ∃ after, sys.construct true program = .ok (sys.allocated, after) ∧
      after.machine = machine ∧
      after.bitmap = (sys.bitmap.findEach program.header.numPages).2 ∧
      after.view.framesOf sys.allocated = sys.newFrames program := by
  unfold newFrames at loading ⊢
  cases finding : sys.bitmap.findEach program.header.numPages with
  | mk frames bitmap =>
  rw [finding] at loading
  unfold construct
  simp only [isNoff, ne_eq, not_true_eq_false, if_false, finding]
  rw [loading, ok_bind]
  refine ⟨_, rfl, rfl, rfl, ?_⟩
  rw [TranslationView.framesOf, TranslationView.tableOf_eq _ (Function.update_self ..) rfl
    (by
      simp only [view, Function.update_self, Option.map_some]
      rw [map_mapIdx_fresh]), TranslationView.map_physicalPage_fresh]

theorem virtualByte_eq {after : UserSystem} {created address frame : Nat}
    (small : frame < numPhysPages)
    (isFrame : (after.view.framesOf created)[address / pageSize]? = some (frame : Int)) :
    after.virtualByte created address =
      some (after.machine.mainMemory (frame * pageSize + address % pageSize)) := by
  rw [virtualByte, isFrame, Option.bind_some, if_pos (by omega), Int.toNat_natCast]

/-- The address space has the contents of the program when the bytes outside the segments
are zero. -/
theorem SegmentsInLine.contents_iff (line : sys.SegmentsInLine program)
    (all : sys.AllInMemory program) (isBase : sys.loadBase = base) {after : UserSystem}
    {created : Nat} (isNew : after.view.framesOf created = sys.newFrames program)
    (memory : after.machine.mainMemory = overlay base program.loadedByte
      (sys.machine.background program (sys.newFrames program).head?)) :
    (∀ address < program.header.realNumPages * pageSize,
        after.virtualByte created address = some (program.byteAt address)) ↔
      ∀ address, program.loadedByte address = none → ∀ frame : Nat,
        (sys.newFrames program)[address / pageSize]? = some (frame : Int) →
          sys.Clears program frame ∨
            sys.machine.mainMemory (frame * pageSize + address % pageSize) = 0 := by
  have remainder : ∀ address, address % pageSize < pageSize :=
    fun address => Nat.mod_lt _ (by decide)
  constructor
  · intro same address isRest frame isFrame
    obtain ⟨bound, isEntry⟩ := List.getElem?_eq_some_iff.mp isFrame
    have bounds := all.frames _ (List.mem_of_getElem? isFrame)
    have small : frame < numPhysPages := by omega
    have inside : address < program.header.realNumPages * pageSize := by
      rw [length_newFrames, numPages_of_allInMemory all] at bound
      exact (Nat.div_lt_iff_lt_mul (by decide)).mp bound
    have isEntry : (after.view.framesOf created)[address / pageSize]? = some (frame : Int) := by
      rw [isNew]
      exact isFrame
    have byte := same address inside
    rw [virtualByte_eq small isEntry, memory,
      line.overlay_rest _ all isBase isFrame isRest, Program.byteAt, isRest,
      Option.getD_none] at byte
    exact (background_eq_zero_iff (remainder address)).mp (Option.some.inj byte)
  · intro zero address inside
    obtain ⟨frame, small, isFrame⟩ :=
      all.frame ((Nat.div_lt_iff_lt_mul (by decide)).mpr inside)
    have isEntry : (after.view.framesOf created)[address / pageSize]? = some (frame : Int) := by
      rw [isNew]
      exact isFrame
    rw [virtualByte_eq small isEntry, memory, Program.byteAt]
    cases isByte : program.loadedByte address with
    | some byte => rw [line.overlay_loaded _ isBase isFrame isByte, Option.getD_some]
    | none =>
        rw [line.overlay_rest _ all isBase isFrame isByte, Option.getD_none,
          (background_eq_zero_iff (remainder address)).mpr (zero address isByte frame isFrame)]

/-- The frames of the other address spaces keep their bytes when nothing but zeros is
cleared in them. -/
theorem SegmentsInLine.others_iff (line : sys.SegmentsInLine program)
    (all : sys.AllInMemory program) (order : sys.FramesInOrder)
    (isBase : sys.loadBase = base) :
    (∀ id, ∀ frame < numPhysPages, (frame : Int) ∈ sys.view.framesOf id →
        ∀ offset < pageSize, overlay base program.loadedByte
          (sys.machine.background program (sys.newFrames program).head?)
            (frame * pageSize + offset) = sys.machine.mainMemory (frame * pageSize + offset)) ↔
      ∀ id, ∀ frame < numPhysPages, (frame : Int) ∈ sys.view.framesOf id →
        sys.Clears program frame → ∀ offset < pageSize,
          sys.machine.mainMemory (frame * pageSize + offset) = 0 := by
  constructor
  · intro kept id frame small owned clears offset inside
    have same := kept id frame small owned offset inside
    rw [line.overlay_other _ all isBase (order.notMem_newFrames small owned) inside] at same
    exact (background_eq_mainMemory_iff inside).mp same clears
  · intro zero id frame small owned offset inside
    rw [line.overlay_other _ all isBase (order.notMem_newFrames small owned) inside]
    exact (background_eq_mainMemory_iff inside).mpr
      fun clears => zero id frame small owned clears offset inside

/-- A program whose segments are in line is loaded exactly when the rest is zero. -/
theorem loadsProgram_iff (order : sys.FramesInOrder)
    (isNoff : program.header.noffMagic = noffMagic) (all : sys.AllInMemory program)
    (line : sys.SegmentsInLine program) :
    sys.LoadsProgram program ↔ sys.RestIsZero program := by
  obtain ⟨base, isBase⟩ := Int.eq_ofNat_of_zero_le line.base
  obtain ⟨machine, loading, -, memory⟩ :=
    Machine.loadProgram_eq (line.segmentsFit all isBase) all.pages
  obtain ⟨after, constructing, rfl, -, isNew⟩ := construct_eq isNoff loading
  have contents := line.contents_iff all isBase isNew memory
  have others := line.others_iff all order isBase
  rw [← memory] at others
  constructor
  · rintro ⟨created, result, done, same, kept⟩
    rw [constructing] at done
    cases done
    exact ⟨contents.mp same, others.mp kept⟩
  · rintro ⟨own, kept⟩
    exact ⟨_, _, constructing, contents.mpr own, others.mpr kept⟩

end Loading

/-- After all constructions and destructions of address spaces, a program whose pages all
get frames and whose segments are in line is loaded exactly when the rest is zero. -/
theorem loadsProgram_along_lifetimes (memory : BootMemory) (lifetimes : List Lifetime) :
    AlongRun lifetimeStep
      (fun sys => ∀ program, program.header.noffMagic = noffMagic →
        sys.AllInMemory program → sys.SegmentsInLine program →
          (sys.LoadsProgram program ↔ sys.RestIsZero program))
      (boot memory) lifetimes := by
  have ordered : AlongRun lifetimeStep FramesInOrder (boot memory) lifetimes :=
    alongRun_of_preserved (fun _ _ _ order stepped => order.lifetimeStep stepped)
      (framesInOrder_boot memory)
  apply ordered.mono
  intro sys order program isNoff all line
  exact loadsProgram_iff order isNoff all line

section Sequence

variable {sys after : UserSystem} {program : Program} {count : Nat}

/-- No address space was deleted: the programs lie in the memory one after the other, and
what is behind them is still zero. -/
structure InSequence (sys : UserSystem) (count : Nat) : Prop where
  order : sys.FramesInOrder
  lastVpn : sys.machine.lastVpn = count
  small : count ≤ numPhysPages
  marked : ∀ bit, sys.bitmap.testBit bit = decide (bit.val < count)
  zero : ∀ address, count * pageSize ≤ address → sys.machine.mainMemory address = 0

theorem inSequence_boot (memory : BootMemory) : (boot memory).InSequence 0 where
  order := framesInOrder_boot memory
  lastVpn := rfl
  small := Nat.zero_le _
  marked bit := by
    simp only [boot, BitMap.testBit_new, Nat.not_lt_zero, decide_false]
  zero _ _ := rfl

theorem InSequence.loadBase (sequence : sys.InSequence count) :
    sys.loadBase = (count * pageSize : Nat) := by
  have bound : count * pageSize ≤ memorySize := Nat.mul_le_mul_right _ sequence.small
  have memory : memorySize = 4096 := rfl
  rw [UserSystem.loadBase, sequence.lastVpn]
  exact Machine.wrapInt_of_small (by omega) (by omega)

/-- The frames that come next. -/
theorem InSequence.newFrames (sequence : sys.InSequence count)
    (all : sys.AllInMemory program) :
    sys.newFrames program = (List.range program.header.realNumPages).map
      (fun index => ((count + index : Nat) : Int)) ∧
        ∀ bit, (sys.bitmap.findEach program.header.numPages).2.testBit bit =
          decide (bit.val < count + program.header.realNumPages) := by
  have small := sequence.small
  have few := all.pages
  have pages : numPhysPages = 32 := rfl
  have memory : memorySize = 4096 := rfl
  rw [UserSystem.newFrames, numPages_of_allInMemory all]
  exact BitMap.findEach_of_below _ (by omega) sequence.marked

theorem InSequence.frame_eq (sequence : sys.InSequence count)
    (all : sys.AllInMemory program) {page : Nat} {frame : Int}
    (isFrame : (sys.newFrames program)[page]? = some frame) :
    page < program.header.realNumPages ∧ frame = (count + page : Nat) := by
  rw [(sequence.newFrames all).1, List.getElem?_map, Option.map_eq_some_iff] at isFrame
  obtain ⟨index, isIndex, rfl⟩ := isFrame
  obtain ⟨bound, rfl⟩ := List.getElem?_eq_some_iff.mp isIndex
  rw [List.getElem_range]
  exact ⟨by simpa using bound, rfl⟩

theorem InSequence.segmentsInLine (sequence : sys.InSequence count)
    (all : sys.AllInMemory program) (sound : program.Sound) :
    sys.SegmentsInLine program where
  base := by
    rw [sequence.loadBase]
    omega
  fits := by
    have bound : count * pageSize ≤ memorySize := Nat.mul_le_mul_right _ sequence.small
    have fits := sound.fits
    rw [sequence.loadBase]
    omega
  inside := sound.inside
  frames address _ frame isFrame := by
    rw [(sequence.frame_eq all isFrame).2, sequence.loadBase]
    exact_mod_cast Nat.add_mul count (address / pageSize) pageSize

/-- Only the first program clears frames. -/
theorem InSequence.count_eq_zero (sequence : sys.InSequence count)
    (all : sys.AllInMemory program) {frame : Nat} (clears : sys.Clears program frame) :
    count = 0 := by
  obtain ⟨isFirst, some_page⟩ := clears
  rw [List.head?_eq_getElem?] at isFirst
  have first := (sequence.frame_eq all isFirst).2
  omega

theorem InSequence.restIsZero (sequence : sys.InSequence count)
    (all : sys.AllInMemory program) : sys.RestIsZero program where
  own address _ frame isFrame := by
    have after : count ≤ frame := by
      rw [Int.ofNat.inj (sequence.frame_eq all isFrame).2]
      exact Nat.le_add_right ..
    exact Or.inr (sequence.zero _ ((Nat.mul_le_mul_right _ after).trans (Nat.le_add_right ..)))
  others id frame _ _ clears offset _ := by
    rw [sequence.count_eq_zero all clears] at sequence
    exact sequence.zero _ (by omega)

/-- Starting the program changes nothing more than constructing its address space. -/
theorem lifetimeStep_start {created : Nat} {constructed : UserSystem}
    (constructing : sys.construct true program = .ok (created, constructed))
    (done : sys.lifetimeStep (.start program) = .ok after) :
    after.bitmap = constructed.bitmap ∧
      after.machine.lastVpn = constructed.machine.lastVpn ∧
        after.machine.mainMemory = constructed.machine.mainMemory := by
  change sys.startProcess true program = .ok after at done
  rw [startProcess, constructing, ok_bind] at done
  obtain ⟨space, -, done⟩ := bind_eq_ok_iff.mp done
  cases done
  exact ⟨rfl, rfl, rfl⟩

theorem InSequence.small_of_allInMemory (sequence : sys.InSequence count)
    (all : sys.AllInMemory program) : count + program.header.realNumPages ≤ numPhysPages := by
  have small := sequence.small
  by_cases none : program.header.realNumPages = 0
  · omega
  · obtain ⟨frame, bound, isLast⟩ :=
      all.frame (show program.header.realNumPages - 1 < program.header.realNumPages by omega)
    have last := (sequence.frame_eq all isLast).2
    omega

/-- The next program is put behind the others. -/
theorem InSequence.start (sequence : sys.InSequence count) (all : sys.AllInMemory program)
    (sound : program.Sound) (done : sys.lifetimeStep (.start program) = .ok after) :
    after.InSequence (count + program.header.realNumPages) := by
  have line := sequence.segmentsInLine all sound
  have small := sequence.small_of_allInMemory all
  obtain ⟨machine, loading, lastVpn, memory⟩ :=
    Machine.loadProgram_eq (line.segmentsFit all sequence.loadBase) all.pages
  obtain ⟨constructed, constructing, rfl, isBitmap, -⟩ := construct_eq sound.noff loading
  obtain ⟨sameBitmap, sameLastVpn, sameMemory⟩ := lifetimeStep_start constructing done
  refine ⟨sequence.order.lifetimeStep done, ?_, small, ?_, ?_⟩
  · have pages : numPhysPages = 32 := rfl
    rw [sameLastVpn, lastVpn, sequence.lastVpn, numPages_of_allInMemory all]
    exact Machine.wrapInt_of_small (by omega) (by omega)
  · rw [sameBitmap, isBitmap]
    exact (sequence.newFrames all).2
  · intro address behind
    rw [Nat.add_mul] at behind
    rw [sameMemory, memory]
    have notLoaded : program.loadedByte (address - count * pageSize) = none := by
      by_contra isLoaded
      have page := line.page_lt isLoaded
      rw [Nat.div_lt_iff_lt_mul (by decide)] at page
      omega
    have zero := sequence.zero address (by omega)
    rw [overlay, notLoaded, Option.getD_none, ite_self, Machine.background]
    split
    · rfl
    · exact zero

/-- The constructors of a run in which no address space is deleted. -/
def Starts (sys : UserSystem) : Lifetime → Prop
  | .start program => program.Sound ∧ sys.AllInMemory program
  | .destroy _ => False

/-- As long as no address space was deleted, every program is loaded. -/
theorem loadsProgram_along_starts (memory : BootMemory) {lifetimes : List Lifetime}
    (starts : RunAllowed lifetimeStep Starts (boot memory) lifetimes) :
    AlongRun lifetimeStep
      (fun sys => ∀ program : Program, program.Sound → sys.AllInMemory program →
        sys.LoadsProgram program)
      (boot memory) lifetimes := by
  have preserved : ∀ (sys : UserSystem) (lifetime : Lifetime) (after : UserSystem),
      (∃ count, sys.InSequence count) → sys.Starts lifetime →
        sys.lifetimeStep lifetime = .ok after → ∃ count, after.InSequence count := by
    rintro sys lifetime after ⟨count, sequence⟩ started stepped
    cases lifetime with
    | start program => exact ⟨_, sequence.start started.2 started.1 stepped⟩
    | destroy id => exact started.elim
  have sequences : AlongRun lifetimeStep (fun sys => ∃ count, sys.InSequence count)
      (boot memory) lifetimes :=
    alongRun_of_invariant preserved ⟨0, inSequence_boot memory⟩ starts
  apply sequences.mono
  rintro sys ⟨count, sequence⟩ program sound all
  exact (loadsProgram_iff sequence.order sound.noff all
    (sequence.segmentsInLine all sound)).mpr (sequence.restIsZero all)

end Sequence

set_option maxRecDepth 4000 in
/-- A program that is started again after it was deleted gets the frames 0 to 8 once more,
but its instruction is put into frame 9. -/
theorem not_loadsProgram_after_destroy :
    ∃ sys, run lifetimeStep (boot .zero) [.start .oneInstruction, .destroy 0] = .ok sys ∧
      Program.oneInstruction.header.noffMagic = noffMagic ∧
      sys.AllInMemory .oneInstruction ∧ ¬ sys.LoadsProgram .oneInstruction := by
  have facts : (do
      let sys ← run lifetimeStep (boot .zero) [.start .oneInstruction, .destroy 0]
      let loaded ← sys.construct true .oneInstruction
      return (sys.newFrames .oneInstruction, loaded.2.virtualByte loaded.1 0)) =
        .ok ([0, 1, 2, 3, 4, 5, 6, 7, 8], some 0) := by
    decide +kernel
  obtain ⟨sys, reached, facts⟩ := bind_eq_ok_iff.mp facts
  obtain ⟨⟨created, after⟩, constructing, facts⟩ := bind_eq_ok_iff.mp facts
  simp only [pure, Except.pure, Except.ok.injEq, Prod.mk.injEq] at facts
  obtain ⟨frames, byte⟩ := facts
  refine ⟨sys, reached, by decide +kernel, ⟨by decide +kernel, ?_⟩, ?_⟩
  · rw [frames]
    decide
  · rintro ⟨id, loaded, done, contents, -⟩
    rw [constructing] at done
    cases done
    have expected := contents 0 (by decide +kernel)
    rw [byte] at expected
    exact absurd expected (by decide +kernel)

end UserSystem

end Nachos
