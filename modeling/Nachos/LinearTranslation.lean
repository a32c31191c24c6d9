import Nachos.Translate

/-!
# Translation through a linear page table

Without `USE_TLB` the pointer `tlb` of the machine is `NULL`, and `Translate` takes
the entry from the page table.  The flag `tlb_miss` is set at the start of `Translate`
and only a hit in the translation buffer clears it, so that `UpdateTLB` runs at the end
of every translation through the page table as well.
-/

namespace Nachos

open LittleEndianWords TransitionRuns

/-- A `TranslationEntry *` into the translation buffer or into the page table. -/
inductive EntryReference where
  | tlb (slot : Fin tlbSize)
  | page (index : Nat)
  deriving DecidableEq

/-- The fields of the machine that `Translate` uses, where `tlb` may be `NULL`.
`pageTable` is an array of `pageTableSize` entries. -/
structure TranslationMachine where
  tlb : Option (Fin tlbSize → TranslationEntry)
  pageTable : List TranslationEntry
  vpn : Nat
  offset : Nat
  entry : Option EntryReference
  pageFrame : Int

namespace TranslationMachine

def pageTableSize (machine : TranslationMachine) : Nat :=
  machine.pageTable.length

/-- `*entry`. -/
def currentEntry (machine : TranslationMachine) : Except Fault TranslationEntry := do
  let reference ← dereference machine.entry
  match reference with
  | .tlb slot => do
      let tlb ← dereference machine.tlb
      return tlb slot
  | .page index => dereference machine.pageTable[index]?

/-- An assignment through `entry`. -/
def modifyEntry (machine : TranslationMachine)
    (change : TranslationEntry → TranslationEntry) : Except Fault TranslationMachine := do
  let reference ← dereference machine.entry
  match reference with
  | .tlb slot => do
      let tlb ← dereference machine.tlb
      return { machine with tlb := some (Function.update tlb slot (change (tlb slot))) }
  | .page index => do
      let entry ← dereference machine.pageTable[index]?
      return { machine with pageTable := machine.pageTable.set index (change entry) }

/-- The slot that `UpdateTLB` fills: the first one that is not valid, or else the one
that `SortTLB` and `SwitchOutTLB` select. -/
def chooseSlot (tlb : Fin tlbSize → TranslationEntry) :
    Nat × (Fin tlbSize → TranslationEntry) :=
  match (List.finRange tlbSize).find? fun slot => !(tlb slot).valid with
  | some slot => (slot.val, tlb)
  | none =>
      let sorted := fun slot => (tlb slot).sort
      (leastIndex tlbSize fun i => if inside : i < tlbSize then (sorted ⟨i, inside⟩).nruN else 0,
        sorted)

/-- `Machine::UpdateTLB`.  Its loop starts with `tlb[0].valid`. -/
def updateTLB (machine : TranslationMachine) : Except Fault TranslationMachine := do
  let tlb ← dereference machine.tlb
  let (i, tlb) := chooseSlot tlb
  let machine := { machine with tlb := some tlb }
  let entry ← machine.currentEntry
  if inside : i < tlbSize then
    let slot : Fin tlbSize := ⟨i, inside⟩
    return { machine with
      tlb := some (Function.update tlb slot { entry with nruN := (tlb slot).nruN }) }
  else .error .outOfBounds

/-- The search of `Translate`: an exception to return, or the value of `tlb_miss` and
the machine with `entry` set. -/
def findEntry (raise : ExceptionType → TranslationMachine → Except Fault TranslationMachine)
    (machine : TranslationMachine) :
    Except Fault (Except ExceptionType (Bool × TranslationMachine)) :=
  match machine.tlb with
  | none =>
      if machine.pageTableSize ≤ machine.vpn then .ok (.error .addressError)
      else do
        let entry ← dereference machine.pageTable[machine.vpn]?
        if !entry.valid then return .error .ptePageFault
        else return .ok (true, { machine with entry := some (.page machine.vpn) })
  | some tlb =>
      match (List.finRange tlbSize).find? fun slot =>
          (tlb slot).valid && (tlb slot).virtualPage = machine.vpn with
      | some slot => .ok (.ok (false, { machine with entry := some (.tlb slot) }))
      | none => do
          let machine ← raise .tlbPageFault { machine with entry := none }
          return .ok (true, machine)

/-- The part of `Translate` behind the search. -/
def useEntry (machine : TranslationMachine) (tlbMiss writing : Bool) :
    Except Fault (Except ExceptionType Int × TranslationMachine) := do
  let entry ← machine.currentEntry
  if entry.readOnly && writing then return (.error .readOnly, machine)
  else do
    let machine := { machine with pageFrame := entry.physicalPage }
    let machine ← machine.modifyEntry (TranslationEntry.markUsed writing)
    let physAddr := wrapInt (machine.pageFrame * pageSize + machine.offset)
    let machine ← if tlbMiss then machine.updateTLB else .ok machine
    return (.ok physAddr, machine)

/-- `Machine::Translate`, in builds with and without `USE_TLB`.  The exceptions that it
raises itself are handled by `raise`. -/
def translate (raise : ExceptionType → TranslationMachine → Except Fault TranslationMachine)
    (machine : TranslationMachine) (virtAddr : CInt) (size : Nat) (writing : Bool) :
    Except Fault (Except ExceptionType Int × TranslationMachine) :=
  if UserSystem.misaligned virtAddr size then .ok (.error .addressError, machine)
  else do
    let machine := { machine with
      vpn := virtAddr.toNat / pageSize
      offset := virtAddr.toNat % pageSize }
    let found ← findEntry raise machine
    match found with
    | .error exception => return (.error exception, machine)
    | .ok (tlbMiss, machine) => machine.useEntry tlbMiss writing

/-- The exception that a linear page table calls for, if any. -/
def exceptionFor (table : List TranslationEntry) (virtAddr : CInt) (size : Nat)
    (writing : Bool) : Option ExceptionType :=
  if UserSystem.misaligned virtAddr size then some .addressError
  else match table[virtAddr.toNat / pageSize]? with
    | none => some .addressError
    | some entry =>
        if !entry.valid then some .ptePageFault
        else if entry.readOnly && writing then some .readOnly
        else none

/-- `Translate` returns the exception that the page table calls for, and otherwise the
physical address, having marked the entry of the page.  It changes nothing else in the
page table, and nothing in the translation buffer. -/
def TranslatesLinearly
    (raise : ExceptionType → TranslationMachine → Except Fault TranslationMachine)
    (machine : TranslationMachine) (virtAddr : CInt) (size : Nat) (writing : Bool) : Prop :=
  ∃ result after, translate raise machine virtAddr size writing = .ok (result, after) ∧
    after.tlb = machine.tlb ∧
    match exceptionFor machine.pageTable virtAddr size writing with
    | some exception => result = .error exception ∧ after.pageTable = machine.pageTable
    | none => ∃ entry, machine.pageTable[virtAddr.toNat / pageSize]? = some entry ∧
        result = .ok (wrapInt (entry.physicalPage * pageSize +
          (virtAddr.toNat % pageSize : Nat))) ∧
        after.pageTable = machine.pageTable.set (virtAddr.toNat / pageSize)
          (entry.markUsed writing)

variable {raise : ExceptionType → TranslationMachine → Except Fault TranslationMachine}
  {machine : TranslationMachine} {virtAddr : CInt} {size : Nat} {writing : Bool}

/-- The exceptions are right. -/
theorem translate_exception (null : machine.tlb = none) {exception : ExceptionType}
    (called : exceptionFor machine.pageTable virtAddr size writing = some exception) :
    ∃ after, translate raise machine virtAddr size writing = .ok (.error exception, after) ∧
      after.tlb = none ∧ after.pageTable = machine.pageTable := by
  unfold exceptionFor at called
  unfold translate
  split at called
  next misalign =>
    obtain rfl := Option.some.inj called
    exact ⟨machine, by rw [if_pos misalign], null, rfl⟩
  next aligned =>
    rw [if_neg aligned]
    simp only [findEntry, null, pageTableSize]
    cases isEntry : machine.pageTable[virtAddr.toNat / pageSize]? with
    | none =>
        have beyond := List.getElem?_eq_none_iff.mp isEntry
        simp only [isEntry] at called
        obtain rfl := Option.some.inj called
        rw [if_pos beyond]
        exact ⟨_, rfl, rfl, rfl⟩
    | some entry =>
        obtain ⟨inside, -⟩ := List.getElem?_eq_some_iff.mp isEntry
        simp only [isEntry] at called
        simp only [if_neg (Nat.not_le.mpr inside), dereference, ok_bind]
        split at called
        next invalid =>
          obtain rfl := Option.some.inj called
          rw [if_pos invalid]
          exact ⟨_, rfl, rfl, rfl⟩
        next valid =>
          rw [if_neg valid]
          split at called
          next forbidden =>
            obtain rfl := Option.some.inj called
            simp only [pure, Except.pure, ok_bind, useEntry, currentEntry, dereference,
              isEntry, forbidden, if_true]
            exact ⟨_, rfl, rfl, rfl⟩
          next => cases called

/-- A translation that succeeds up to its end goes on to use the translation buffer. -/
theorem translate_fault (null : machine.tlb = none)
    (called : exceptionFor machine.pageTable virtAddr size writing = none) :
    translate raise machine virtAddr size writing = .error .outOfBounds := by
  unfold exceptionFor at called
  unfold translate
  split at called
  next => cases called
  next aligned =>
    rw [if_neg aligned]
    simp only [findEntry, null, pageTableSize]
    cases isEntry : machine.pageTable[virtAddr.toNat / pageSize]? with
    | none => simp [isEntry] at called
    | some entry =>
        obtain ⟨inside, -⟩ := List.getElem?_eq_some_iff.mp isEntry
        simp only [isEntry] at called
        simp only [if_neg (Nat.not_le.mpr inside), dereference, ok_bind]
        split at called
        next => cases called
        next valid =>
          rw [if_neg valid]
          split at called
          next => cases called
          next permitted =>
            simp only [pure, Except.pure, ok_bind, useEntry, currentEntry, dereference,
              isEntry, if_neg permitted, modifyEntry, updateTLB, if_true, error_bind]

theorem exceptionFor_ne_none_iff {table : List TranslationEntry} :
    exceptionFor table virtAddr size writing ≠ none ↔
      UserSystem.misaligned virtAddr size = true ∨
        table.length ≤ virtAddr.toNat / pageSize ∨
        ∃ entry ∈ table[virtAddr.toNat / pageSize]?,
          entry.valid = false ∨ (entry.readOnly = true ∧ writing = true) := by
  unfold exceptionFor
  rw [← List.getElem?_eq_none_iff]
  cases UserSystem.misaligned virtAddr size with
  | true => simp
  | false =>
      cases table[virtAddr.toNat / pageSize]? with
      | none => simp
      | some entry => cases valid : entry.valid <;> simp [valid]

/-- With a linear page table, `Translate` does what it should exactly for the accesses
that end in an exception. -/
theorem translatesLinearly_iff (null : machine.tlb = none) :
    TranslatesLinearly raise machine virtAddr size writing ↔
      UserSystem.misaligned virtAddr size = true ∨
        machine.pageTableSize ≤ virtAddr.toNat / pageSize ∨
        ∃ entry ∈ machine.pageTable[virtAddr.toNat / pageSize]?,
          entry.valid = false ∨ (entry.readOnly = true ∧ writing = true) := by
  rw [pageTableSize, ← exceptionFor_ne_none_iff]
  constructor
  · rintro ⟨result, after, done, -⟩ called
    rw [translate_fault null called] at done
    cases done
  · intro excepted
    obtain ⟨exception, called⟩ := Option.ne_none_iff_exists'.mp excepted
    obtain ⟨after, done, tlb, table⟩ :=
      @translate_exception raise machine virtAddr size writing null exception called
    refine ⟨.error exception, after, done, tlb.trans null.symm, ?_⟩
    rw [called]
    exact ⟨rfl, table⟩

/-- A machine whose page table maps page 0 to frame 0. -/
def onePage : TranslationMachine where
  tlb := none
  pageTable := [.fresh 0 0]
  vpn := 0
  offset := 0
  entry := none
  pageFrame := 0

/-- Page 1 is beyond the page table. -/
theorem translatesLinearly_beyond :
    TranslatesLinearly (fun _ machine => .ok machine) onePage 128 4 false :=
  (translatesLinearly_iff rfl).mpr (by decide)

/-- A read of page 0 goes through the `NULL` pointer. -/
theorem not_translatesLinearly :
    translate (fun _ machine => .ok machine) onePage 0 4 false = .error .outOfBounds ∧
      ¬ TranslatesLinearly (fun _ machine => .ok machine) onePage 0 4 false := by
  have fault : translate (fun _ machine => .ok machine) onePage 0 4 false =
      .error .outOfBounds := translate_fault rfl rfl
  refine ⟨fault, ?_⟩
  rintro ⟨result, after, done, -⟩
  rw [fault] at done
  cases done

end TranslationMachine

end Nachos
