import Nachos.MachineMemory
import Nachos.TlbUniqueness

/-!
# Reading back what was written

An access goes to the frame in the translation buffer, in the page table, or, after a
page fault, to the frame with the number of the page.  A read that follows a write to
the same address uses the same frame.  It returns the value written, unless the bytes
went through the buffer of the swap file: `WriteMem` puts only one byte there.
-/

namespace Nachos

open LittleEndianWords ByteStore TransitionRuns

namespace Machine

/-- A loaded `int` has the bytes that were read as its low bytes. -/
theorem loadedValue_eq_iff {data : List Byte} {size : Nat} (value : CInt)
    (sizes : size = 1 ∨ size = 2 ∨ size = 4) (length : data.length = size) :
    (loadedValue data).toNat % 2 ^ (8 * size) = value.toNat % 2 ^ (8 * size) ↔
      data = (wordBytes value).take size := by
  have bound := value.isLt
  rcases sizes with rfl | rfl | rfl
  · obtain ⟨first, rfl⟩ := List.length_eq_one_iff.mp length
    have firstBound := first.toNat_lt
    -- The signed `char` is extended above its eight bits.
    have low : (loadedValue [first]).toNat % 2 ^ 8 = first.toNat := by
      rw [loadedValue, if_pos length, BitVec.toNat_signExtend]
      simp only [wordAt, BitVec.toNat_setWidth, BitVec.toNat_ofNat, List.getD_cons_zero,
        List.getD_cons_succ, List.getD_nil, Nat.zero_add, UInt8.toNat_zero]
      split <;> omega
    simp only [low, wordBytes, List.take_succ_cons, List.take_zero, List.cons.injEq,
      and_true, ← UInt8.toNat_inj, UInt8.toNat_ofNat']
  · obtain ⟨first, second, rfl⟩ := List.length_eq_two.mp length
    have firstBound := first.toNat_lt
    have secondBound := second.toNat_lt
    rw [loadedValue, if_neg (by simp)]
    simp only [wordAt, wordBytes, BitVec.toNat_ofNat, List.getD_cons_zero,
      List.getD_cons_succ, List.getD_nil, Nat.zero_add, List.take_succ_cons,
      List.take_zero, List.cons.injEq, and_true, ← UInt8.toNat_inj, UInt8.toNat_ofNat',
      UInt8.toNat_zero]
    omega
  · obtain ⟨first, second, third, fourth, rfl⟩ := List.length_eq_four.mp length
    have firstBound := first.toNat_lt
    have secondBound := second.toNat_lt
    have thirdBound := third.toNat_lt
    have fourthBound := fourth.toNat_lt
    rw [loadedValue, if_neg (by simp)]
    simp only [wordAt, wordBytes, BitVec.toNat_ofNat, List.getD_cons_zero,
      List.getD_cons_succ, Nat.zero_add, List.take_succ_cons, List.take_zero,
      List.cons.injEq, and_true, ← UInt8.toNat_inj, UInt8.toNat_ofNat']
    omega

/-- The bytes that a write leaves at a physical address: those of the value, or what
is in the buffer of the swap file once its first byte was assigned. -/
def writtenBytes (machine : Machine) (address : Int) (size : Nat) (value : CInt) :
    List Byte :=
  if (memorySize : Int) ≤ address then
    segment (overwrite machine.disk 0 [UInt8.ofNat value.toNat]) 0 size
  else (wordBytes value).take size

theorem length_writtenBytes (machine : Machine) (address : Int) {size : Nat} (value : CInt)
    (small : size ≤ 4) : (machine.writtenBytes address size value).length = size := by
  unfold writtenBytes
  split
  next => exact length_segment _ _ _
  next =>
    rw [List.length_take, length_wordBytes]
    omega

/-- The bytes of the value are left there exactly when the buffer held them already,
except the first. -/
theorem writtenBytes_eq_iff (machine : Machine) (address : Int) {size : Nat} (value : CInt)
    (small : size ≤ 4) :
    machine.writtenBytes address size value = (wordBytes value).take size ↔
      address < memorySize ∨ ∀ index, 1 ≤ index → index < size →
        machine.disk index = (wordBytes value).getD index 0 := by
  by_cases swapped : (memorySize : Int) ≤ address
  · have notMain : ¬ address < memorySize := by omega
    have inWord : (wordBytes value).length = 4 := length_wordBytes value
    simp only [writtenBytes, if_pos swapped, notMain, false_or]
    constructor
    · intro same index positive inside
      have byte := congrArg (fun data => data[index]?) same
      have beyond : overwrite machine.disk 0 [UInt8.ofNat value.toNat] index =
          machine.disk index := by
        apply overwrite_outside
        exact Or.inr (by simpa using positive)
      simpa [ByteStore.segment, inside, beyond, List.getD_eq_getElem?_getD, inWord,
        show index < 4 by omega] using byte
    · intro ready
      apply List.ext_getElem
      · rw [length_segment, List.length_take, inWord]
        omega
      · intro index inSegment inTake
        have inside : index < size := by simpa using inSegment
        rw [List.getElem_take]
        simp only [ByteStore.segment, List.getElem_map, List.getElem_range, Nat.zero_add]
        by_cases first : index = 0
        · subst first
          rfl
        · have beyond : overwrite machine.disk 0 [UInt8.ofNat value.toNat] index =
              machine.disk index := by
            apply overwrite_outside
            exact Or.inr (by simpa using Nat.one_le_iff_ne_zero.mpr first)
          rw [beyond, ready index (Nat.pos_of_ne_zero first) inside,
            List.getD_eq_getElem _ _ (by omega)]
  · simp only [writtenBytes, if_neg swapped, true_iff]
    exact Or.inl (by omega)

variable {machine stored : Machine} {address : Int} {size : Nat} {value : CInt}

/-- A read of the address gets the bytes that the write left there. -/
theorem fetch_store_same (small : size ≤ 4)
    (done : machine.store address size value = .ok stored) :
    (stored.fetch address size).map Prod.fst =
      .ok (machine.writtenBytes address size value) := by
  unfold store at done
  unfold writtenBytes
  split at done
  next swapped =>
    by_cases nonneg : 0 ≤ machine.swapPosition address
    · simp only [UnixFile.writeAt, UnixFile.lseek, nonneg, if_true, Except.map,
        Except.ok.injEq] at done
      subst done
      -- The whole buffer is read back from the position where it was written.
      have length : (segment (overwrite machine.disk 0 [UInt8.ofNat value.toNat]) 0
          size).length = size := length_segment _ _ _
      have back := File.read_write_same machine.swap 0 (machine.swapPosition address).toNat
        (segment (overwrite machine.disk 0 [UInt8.ofNat value.toNat]) 0 size)
      rw [length] at back
      have position : Machine.swapPosition { machine with
          disk := overwrite machine.disk 0 [UInt8.ofNat value.toNat]
          swap := File.write machine.swap 0 (machine.swapPosition address).toNat
            (segment (overwrite machine.disk 0 [UInt8.ofNat value.toNat]) 0 size) } address =
          machine.swapPosition address := rfl
      rw [if_pos swapped, fetch, if_pos swapped, position, readAt_eq nonneg, back]
      simp only [Except.map, segment_disk _ length]
    · simp [UnixFile.writeAt, UnixFile.lseek, nonneg, Except.map] at done
  next main =>
    split at done
    next inMemory =>
      cases done
      have length : ((wordBytes value).take size).length = size := by
        rw [List.length_take, length_wordBytes]
        omega
      have back := segment_overwrite_same machine.mainMemory address.toNat
        ((wordBytes value).take size)
      rw [length] at back
      rw [if_neg main, fetch, if_neg main, if_pos inMemory]
      simp only [Except.map, back]
    next => cases done

/-- A write changes the bytes of the main memory or of the swap file that it is for,
and no others. -/
structure KeepsOthers (before after : Machine) (address : Int) (size : Nat) : Prop where
  mainMemory : ∀ position : Nat,
    (position < address ∨ address + size ≤ position) →
      after.mainMemory position = before.mainMemory position
  length : before.swap.length ≤ after.swap.length
  swap : ∀ position < before.swap.length,
    (address < memorySize ∨ (position : Int) < before.swapPosition address ∨
      before.swapPosition address + size ≤ position) →
      after.swap.cells position = before.swap.cells position

theorem keepsOthers_store (done : machine.store address size value = .ok stored) :
    KeepsOthers machine stored address size := by
  rcases store_eq_ok done with inSwap | inMemory
  · obtain ⟨data, length, swap⟩ := inSwap.swap
    have swapped := inSwap.swapped
    have nonneg := inSwap.nonneg
    constructor
    · intro position outside
      rw [inSwap.mainMemory]
    · rw [swap]
      exact File.length_le_length_write ..
    · intro position inside outside
      rw [swap]
      exact File.cells_write _ _ inside (by omega)
  · obtain ⟨data, length, mainMemory⟩ := inMemory.mainMemory
    have nonneg := inMemory.nonneg
    constructor
    · intro position outside
      rw [mainMemory]
      exact overwrite_outside _ (by omega)
    · rw [inMemory.swap]
    · intro position inside outside
      rw [inMemory.swap]

theorem KeepsOthers.congr {before after first last : Machine}
    (keeps : KeepsOthers before after address size) (storage : before.storage = first.storage)
    (mainMemory : last.mainMemory = after.mainMemory) (swap : last.swap = after.swap) :
    KeepsOthers first last address size := by
  simp only [Machine.storage, Storage.mk.injEq] at storage
  obtain ⟨sameMemory, -, sameSwap, sameOffset⟩ := storage
  constructor
  · rw [mainMemory, ← sameMemory]
    exact keeps.mainMemory
  · rw [swap, ← sameSwap]
    exact keeps.length
  · have samePosition : first.swapPosition address = before.swapPosition address := by
      rw [swapPosition, swapPosition, sameOffset]
    rw [swap, ← sameSwap, samePosition]
    exact keeps.swap

theorem writtenBytes_congr {first : Machine} (storage : machine.storage = first.storage) :
    machine.writtenBytes address size value = first.writtenBytes address size value := by
  simp only [Machine.storage, Storage.mk.injEq] at storage
  rw [writtenBytes, writtenBytes, storage.2.1]

end Machine

/-- The frame that an access to a page goes to. -/
def TranslationView.frameOf (view : TranslationView) (vpn : Nat) : Int :=
  match view.findTLB vpn with
  | some slot => (view.tlb slot).physicalPage
  | none =>
      if view.present vpn then
        ((view.pageTable.bind view.tables).bind fun table => table[vpn]?).elim 0
          Mapping.physicalPage
      else vpn

namespace UserSystem

variable {sys after stored : UserSystem} {id size : Nat} {addr value : CInt}

/-- The physical address that an access goes to. -/
def physicalAddress (sys : UserSystem) (addr : CInt) : Int :=
  wrapInt (sys.view.frameOf (addr.toNat / pageSize) * pageSize +
    (addr.toNat % pageSize : Nat))

theorem Lookup.frameOf {vpn : Nat} {mapping : Mapping} {view : TranslationView}
    (formed : sys.view.WellFormed) (running : sys.current = some id)
    (found : sys.Lookup id vpn mapping view) :
    mapping.physicalPage = sys.view.frameOf vpn := by
  cases found with
  | hit isSlot => simp [TranslationView.frameOf, isSlot]
  | load missed present chosen isTable isMapping =>
      obtain ⟨space, -, isPageTable, -⟩ := formed.running running
      simp [TranslationView.frameOf, missed, present, isPageTable, isTable, isMapping]
  | fault missed absent => simp [TranslationView.frameOf, missed, absent,
      TranslationView.faulted]

theorem translate_physicalAddress {writing : Bool} {physicalAddress : Int}
    (formed : sys.view.WellFormed) (running : sys.current = some id)
    (done : sys.translate addr size writing = .ok (.ok physicalAddress, after)) :
    physicalAddress = sys.physicalAddress addr := by
  obtain ⟨-, mapping, found, -, isAddress⟩ := translate_eq_ok formed running done
  rw [isAddress, found.frameOf formed running]
  rfl

/-- After a translation the page is in the translation buffer, and the next access
to it goes to the same address. -/
theorem physicalAddress_translate {writing : Bool} {physicalAddress : Int}
    (formed : sys.view.WellFormed) (once : sys.view.HoldsOnce)
    (running : sys.current = some id)
    (done : sys.translate addr size writing = .ok (.ok physicalAddress, after)) :
    after.physicalAddress addr = sys.physicalAddress addr := by
  obtain ⟨-, mapping, found, -⟩ := translate_eq_ok formed running done
  obtain ⟨slot, isMapping, holds⟩ := found.holds formed running
  have again := (found.holdsOnce formed running once).findTLB holds
  unfold UserSystem.physicalAddress
  rw [← found.frameOf formed running]
  simp only [TranslationView.frameOf, again, isMapping]

theorem translate_keeps {writing : Bool} {physicalAddress : Int}
    (formed : sys.view.WellFormed) (running : sys.current = some id)
    (done : sys.translate addr size writing = .ok (.ok physicalAddress, after)) :
    after.machine.storage = sys.machine.storage ∧ after.view.WellFormed ∧
      after.current = some id := by
  obtain ⟨-, mapping, found, storage, -⟩ := translate_eq_ok formed running done
  exact ⟨storage, found.wellFormed formed, found.keeps.1.trans running⟩

theorem sizes_of_checkSize (checked : checkSize size = .ok ()) :
    size = 1 ∨ size = 2 ∨ size = 4 := by
  unfold checkSize at checked
  split at checked
  next sizes => exact sizes
  next => cases checked

/-- What a read returns right after a write to the same address, and the bytes that
both leave as they were. -/
theorem readMem_after_writeMem {x : CInt} (formed : sys.view.WellFormed)
    (once : sys.view.HoldsOnce) (running : sys.current = some id)
    (written : sys.writeMem addr size value = .ok (true, stored))
    (read : stored.readMem addr size = .ok (some x, after)) :
    (size = 1 ∨ size = 2 ∨ size = 4) ∧
      x = Machine.loadedValue
        (sys.machine.writtenBytes (sys.physicalAddress addr) size value) ∧
      Machine.KeepsOthers sys.machine after.machine (sys.physicalAddress addr) size := by
  obtain ⟨address, translated, machine, translating, checked, storing, -, rfl⟩ :=
    writeMem_eq_ok written
  obtain ⟨readAddress, readTranslated, data, fetched, retranslating, -, fetching, isValue,
    rfl⟩ := readMem_eq_ok read
  obtain ⟨storage, newFormed, newRunning⟩ := translate_keeps formed running translating
  have sizes := sizes_of_checkSize checked
  have sameView := view_of_store storing
  have readFormed : ({ translated with machine := machine } : UserSystem).view.WellFormed := by
    rw [sameView]
    exact newFormed
  obtain rfl := translate_physicalAddress formed running translating
  have isReadAddress : readAddress = sys.physicalAddress addr := by
    rw [translate_physicalAddress readFormed newRunning retranslating,
      ← physicalAddress_translate formed once running translating]
    simp only [physicalAddress, sameView]
  obtain ⟨readStorage, -, -⟩ := translate_keeps readFormed newRunning retranslating
  refine ⟨sizes, ?_, ?_⟩
  · have bytes := (Machine.fetch_congr readStorage (sys.physicalAddress addr) size).trans
      (Machine.fetch_store_same (by omega) storing)
    rw [isReadAddress] at fetching
    rw [fetching, Machine.writtenBytes_congr storage] at bytes
    have isData : data = sys.machine.writtenBytes (sys.physicalAddress addr) size value :=
      Except.ok.inj bytes
    rw [← isData]
    exact Option.some.inj isValue
  · obtain ⟨disk, rfl⟩ := Machine.fetch_eq_ok fetching
    simp only [Machine.storage, Storage.mk.injEq] at readStorage
    obtain ⟨sameMemory, -, sameSwap, -⟩ := readStorage
    exact (Machine.keepsOthers_store storing).congr storage sameMemory sameSwap

/-- The read returns the value written, up to the size of the access, and no other
byte has changed. -/
def ReadsBack (sys after : UserSystem) (addr : CInt) (size : Nat) (value x : CInt) : Prop :=
  x.toNat % 2 ^ (8 * size) = value.toNat % 2 ^ (8 * size) ∧
    Machine.KeepsOthers sys.machine after.machine (sys.physicalAddress addr) size

/-- In every reachable state, a read after a write returns what was written exactly
when the page is in main memory, or the buffer of the swap file held all bytes of the
value but the first. -/
theorem readsBack_iff (useSwap : Bool) (memory : BootMemory) {actions : List Action}
    {x : CInt} (reached : run (step useSwap) (boot memory) actions = .ok sys)
    (running : sys.current = some id)
    (written : sys.writeMem addr size value = .ok (true, stored))
    (read : stored.readMem addr size = .ok (some x, after)) :
    sys.ReadsBack after addr size value x ↔
      sys.physicalAddress addr < memorySize ∨
        ∀ index, 1 ≤ index → index < size →
          sys.machine.disk index = (wordBytes value).getD index 0 := by
  obtain ⟨formed, once⟩ := alongRun_last (holdsOnce_along_run useSwap memory actions) reached
  obtain ⟨sizes, rfl, keeps⟩ := readMem_after_writeMem formed once running written read
  have small : size ≤ 4 := by omega
  rw [ReadsBack, and_iff_left keeps, Machine.loadedValue_eq_iff value sizes
    (Machine.length_writtenBytes _ _ _ small), Machine.writtenBytes_eq_iff _ _ _ small]

/-- A word is written and read back. -/
def writeThenRead (sys : UserSystem) (addr value : CInt) :
    Except Fault (Bool × Option CInt) := do
  let (written, stored) ← sys.writeMem addr 4 value
  let (read, _) ← stored.readMem addr 4
  return (written, read)

theorem writeThenRead_eq_ok {sys : UserSystem} {addr value : CInt} {written : Bool}
    {read : Option CInt} (done : sys.writeThenRead addr value = .ok (written, read)) :
    ∃ stored after, sys.writeMem addr 4 value = .ok (written, stored) ∧
      stored.readMem addr 4 = .ok (read, after) := by
  obtain ⟨⟨written, stored⟩, writing, done⟩ := bind_eq_ok_iff.mp done
  obtain ⟨⟨read, after⟩, reading, done⟩ := bind_eq_ok_iff.mp done
  cases done
  exact ⟨stored, after, writing, reading⟩

set_option maxRecDepth 4000 in
/-- A word in main memory. -/
theorem readsBack_in_memory :
    ∃ sys stored after x,
      run (step false) (boot .zero) [.start .oneInstruction] = .ok sys ∧
        sys.writeMem 256 4 0x01020304 = .ok (true, stored) ∧
        stored.readMem 256 4 = .ok (some x, after) ∧
        sys.ReadsBack after 256 4 0x01020304 x := by
  have facts : (do
      let sys ← run (step false) (boot .zero) [.start .oneInstruction]
      let accesses ← sys.writeThenRead 256 0x01020304
      return (sys.current, decide (sys.physicalAddress 256 < memorySize), accesses)) =
        .ok (some 0, true, true, some 0x01020304) := by
    decide +kernel
  obtain ⟨sys, reached, facts⟩ := bind_eq_ok_iff.mp facts
  obtain ⟨accesses, done, facts⟩ := bind_eq_ok_iff.mp facts
  simp only [pure, Except.pure, Except.ok.injEq, Prod.mk.injEq, decide_eq_true_eq] at facts
  obtain ⟨running, inMemory, rfl⟩ := facts
  obtain ⟨stored, after, writing, reading⟩ := writeThenRead_eq_ok done
  exact ⟨sys, stored, after, _, reached, writing, reading,
    (readsBack_iff false .zero reached running writing reading).mpr (Or.inl inMemory)⟩

set_option maxRecDepth 4000 in
/-- The fourth program has its page 5 in frame 32, which is in the swap file.  Of the
word `0x01020304` only the byte 4 comes back. -/
theorem not_readsBack_in_swap :
    ∃ sys stored after x,
      run (step true) (boot .zero) [.start .oneInstruction, .dispatch none,
        .start .oneInstruction, .dispatch none, .start .oneInstruction, .dispatch none,
        .start .oneInstruction] = .ok sys ∧
        sys.physicalAddress 640 = 4096 ∧
        sys.writeMem 640 4 0x01020304 = .ok (true, stored) ∧
        stored.readMem 640 4 = .ok (some x, after) ∧ x = 4 ∧
        ¬ sys.ReadsBack after 640 4 0x01020304 x := by
  have facts : (do
      let sys ← run (step true) (boot .zero) [.start .oneInstruction, .dispatch none,
        .start .oneInstruction, .dispatch none, .start .oneInstruction, .dispatch none,
        .start .oneInstruction]
      let accesses ← sys.writeThenRead 640 0x01020304
      return (sys.physicalAddress 640, accesses)) = .ok (4096, true, some 4) := by
    decide +kernel
  obtain ⟨sys, reached, facts⟩ := bind_eq_ok_iff.mp facts
  obtain ⟨accesses, done, facts⟩ := bind_eq_ok_iff.mp facts
  simp only [pure, Except.pure, Except.ok.injEq, Prod.mk.injEq] at facts
  obtain ⟨address, rfl⟩ := facts
  obtain ⟨stored, after, writing, reading⟩ := writeThenRead_eq_ok done
  refine ⟨sys, stored, after, 4, reached, address, writing, reading, rfl, ?_⟩
  rintro ⟨wrong, -⟩
  exact absurd wrong (by decide)

end UserSystem

end Nachos
