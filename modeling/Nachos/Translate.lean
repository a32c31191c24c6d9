import Nachos.AddrSpace

/-!
# Address translation

`Machine::Translate` looks for the page in the translation buffer.  A miss raises
an exception whose handler finds the entry in the page table of the machine, or
replaces an entry of that table when the page is not there.
-/

namespace Nachos

open LittleEndianWords ByteStore TransitionRuns

/-- The class of an entry for replacement, as `SortTLB` and `SortPTE` compute
it. -/
def TranslationEntry.sort (entry : TranslationEntry) : TranslationEntry :=
  { entry with
    nruN := match entry.use, entry.dirty with
      | false, false => 0
      | false, true => 1
      | true, false => 2
      | true, true => 3 }

/-- `Translate` sets the bits of the entry it uses. -/
def TranslationEntry.markUsed (writing : Bool) (entry : TranslationEntry) :
    TranslationEntry :=
  { entry with use := true, dirty := entry.dirty || writing }

/-- The loop of `SwitchOutTLB` and of `LRU_PTE`: the first of the indices below
`count` whose key is least. -/
def leastIndex (count : Nat) (key : Nat → Nat) : Nat :=
  (List.range count).foldl (fun min i => if key i < key min then i else min) 0

namespace UserSystem

/-- The page table that the machine uses, with its address. -/
def machineTable (sys : UserSystem) : Except Fault (Nat × List TranslationEntry) :=
  sys.pageTableAt sys.machine.pageTable

def setTable (sys : UserSystem) (address : Nat) (table : List TranslationEntry) :
    UserSystem :=
  { sys with tables := Function.update sys.tables address (some table) }

/-- `Machine::SortPTE`. -/
def sortPTE (sys : UserSystem) : Except Fault UserSystem := do
  let (address, table) ← sys.machineTable
  if table.length < sys.machine.pageTableSize then .error .outOfBounds
  else .ok (sys.setTable address (table.mapIdx fun i entry =>
    if i < sys.machine.pageTableSize then entry.sort else entry))

/-- `Machine::LRU_PTE`. -/
def lruPTE (sys : UserSystem) : Except Fault Nat := do
  let (_, table) ← sys.machineTable
  if table.length < sys.machine.pageTableSize then .error .outOfBounds
  else .ok (leastIndex sys.machine.pageTableSize fun i =>
    (table[i]?).elim 0 TranslationEntry.nruN)

/-- `Machine::UpdatePageTable`. -/
def updatePageTable (sys : UserSystem) : Except Fault UserSystem := do
  let sys ← sys.sortPTE
  let frame ← sys.lruPTE
  let space ← dereference sys.current
  { sys with machine := { sys.machine with pageTableFrame := frame } }.switchPageTable
    space frame

/-- The condition under which `TranslatePTE` raises a page fault: the entry at
index `vpn` is not a valid entry of page `vpn`. -/
def missingPTE (sys : UserSystem) : Except Fault Bool := do
  let vpn := sys.machine.vpn
  if sys.machine.pageTableSize ≤ vpn then .ok true
  else do
    let (_, table) ← sys.machineTable
    let entry ← dereference table[vpn]?
    return entry.virtualPage ≠ vpn || !entry.valid

/-- The page fault that `TranslatePTE` raises: its handler is
`UpdatePageTable`. -/
def raiseIfMissing (sys : UserSystem) : Except Fault UserSystem := do
  let missing ← sys.missingPTE
  if missing then sys.updatePageTable else .ok sys

/-- `Machine::TranslatePTE`. -/
def translatePTE (sys : UserSystem) : Except Fault UserSystem := do
  let sys := { sys with
    machine := { sys.machine with pageTableFrame := sys.machine.vpn } }
  let sys ← sys.raiseIfMissing
  let frame := sys.machine.pageTableFrame
  if sys.machine.pageTableSize ≤ frame then .error .assertion
  else do
    let (address, table) ← sys.machineTable
    let entry ← dereference table[frame]?
    if !entry.valid then .error .assertion
    else .ok { sys with
      machine := { sys.machine with entry := some (.page address frame) } }

/-- `ExceptionHandler`, for the exceptions of memory accesses. -/
def exceptionHandler (sys : UserSystem) : ExceptionType → Except Fault UserSystem
  | .tlbPageFault => sys.translatePTE
  | .ptePageFault => sys.updatePageTable
  | .pageFault | .readOnly | .busError | .addressError => .error .assertion

/-- `*entry`. -/
def currentEntry (sys : UserSystem) : Except Fault TranslationEntry := do
  let pointer ← dereference sys.machine.entry
  match pointer with
  | .tlb slot => .ok (sys.machine.tlb slot)
  | .page address index => do
      let table ← dereference (sys.tables address)
      dereference table[index]?

/-- An assignment through `entry`. -/
def modifyEntry (sys : UserSystem) (change : TranslationEntry → TranslationEntry) :
    Except Fault UserSystem := do
  let pointer ← dereference sys.machine.entry
  match pointer with
  | .tlb slot => .ok { sys with
      machine := { sys.machine with
        tlb := Function.update sys.machine.tlb slot (change (sys.machine.tlb slot)) } }
  | .page address index => do
      let table ← dereference (sys.tables address)
      let entry ← dereference table[index]?
      return sys.setTable address (table.set index (change entry))

end UserSystem

namespace Machine

/-- The valid slot of the translation buffer that holds the page. -/
def findTLB (machine : Machine) (vpn : Nat) : Option (Fin tlbSize) :=
  (List.finRange tlbSize).find? fun slot =>
    (machine.tlb slot).valid && (machine.tlb slot).virtualPage = vpn

/-- `Machine::SortTLB`. -/
def sortTLB (machine : Machine) : Machine :=
  { machine with tlb := fun slot => (machine.tlb slot).sort }

/-- `Machine::SwitchOutTLB`. -/
def switchOutTLB (machine : Machine) : Nat :=
  leastIndex tlbSize fun i =>
    if inside : i < tlbSize then (machine.tlb ⟨i, inside⟩).nruN else 0

/-- The slot that `UpdateTLB` fills: the first one that is not valid, or else
the one to switch out. -/
def chooseTLB (machine : Machine) : Nat × Machine :=
  match (List.finRange tlbSize).find? fun slot => !(machine.tlb slot).valid with
  | some slot => (slot.val, machine)
  | none => (machine.sortTLB.switchOutTLB, machine.sortTLB)

end Machine

namespace UserSystem

/-- `Machine::UpdateTLB`. -/
def updateTLB (sys : UserSystem) : Except Fault UserSystem := do
  let (i, machine) := sys.machine.chooseTLB
  let sys := { sys with machine := machine }
  let entry ← sys.currentEntry
  if inside : i < tlbSize then
    let slot : Fin tlbSize := ⟨i, inside⟩
    .ok { sys with
      machine := { machine with
        tlb := Function.update machine.tlb slot
          { entry with nruN := (machine.tlb slot).nruN } } }
  else .error .outOfBounds

/-- The search of `Translate`: whether the translation buffer missed, and the
system with `entry` set. -/
def findEntry (sys : UserSystem) : Except Fault (Bool × UserSystem) :=
  match sys.machine.findTLB sys.machine.vpn with
  | some slot => .ok (false, { sys with
      machine := { sys.machine with entry := some (.tlb slot) } })
  | none => do
      let sys ← sys.exceptionHandler .tlbPageFault
      return (true, sys)

def updateOnMiss (sys : UserSystem) (tlbMiss : Bool) : Except Fault UserSystem :=
  if tlbMiss then sys.updateTLB else .ok sys

/-- The part of `Translate` behind the search: check the access, mark the entry
as used, and compute the physical address. -/
def useEntry (sys : UserSystem) (tlbMiss writing : Bool) :
    Except Fault (Except ExceptionType Int × UserSystem) := do
  let entry ← sys.currentEntry
  if entry.readOnly && writing then .ok (.error .readOnly, sys)
  else do
    let sys ← sys.modifyEntry (TranslationEntry.markUsed writing)
    let sys ← sys.updateOnMiss tlbMiss
    return (.ok (wrapInt (entry.physicalPage * pageSize + sys.machine.offset)), sys)

def misaligned (virtAddr : CInt) (size : Nat) : Bool :=
  (size = 4 && virtAddr.toNat % 4 ≠ 0) || (size = 2 && virtAddr.toNat % 2 ≠ 0)

def setPage (sys : UserSystem) (virtAddr : CInt) : UserSystem :=
  { sys with
    machine := { sys.machine with
      vpn := virtAddr.toNat / pageSize
      offset := virtAddr.toNat % pageSize } }

/-- `Machine::Translate`: the physical address, or the exception returned. -/
def translate (sys : UserSystem) (virtAddr : CInt) (size : Nat) (writing : Bool) :
    Except Fault (Except ExceptionType Int × UserSystem) :=
  if misaligned virtAddr size then .ok (.error .addressError, sys)
  else do
    let (tlbMiss, sys) ← (sys.setPage virtAddr).findEntry
    sys.useEntry tlbMiss writing

/-- The first lines of `ReadMem` and `WriteMem`.  No physical address means that
they return `FALSE`. -/
def translateOrRaise (sys : UserSystem) (addr : CInt) (size : Nat) (writing : Bool) :
    Except Fault (Option Int × UserSystem) := do
  let (result, sys) ← sys.translate addr size writing
  match result with
  | .ok physicalAddress => return (some physicalAddress, sys)
  | .error exception => do
      let sys ← sys.exceptionHandler exception
      if exception = .pageFault then
        let (again, sys) ← sys.translate addr size true
        return (again.toOption, sys)
      else return (none, sys)

/-- `ASSERT(FALSE)` of the default case of `ReadMem` and `WriteMem`. -/
def checkSize (size : Nat) : Except Fault Unit :=
  if size = 1 ∨ size = 2 ∨ size = 4 then .ok () else .error .assertion

/-- `Machine::ReadMem`: the value read, or none when it returns `FALSE`. -/
def readMem (sys : UserSystem) (addr : CInt) (size : Nat) :
    Except Fault (Option CInt × UserSystem) := do
  let (translated, sys) ← sys.translateOrRaise addr size false
  match translated with
  | none => return (none, sys)
  | some physicalAddress => do
      checkSize size
      let (data, machine) ← sys.machine.fetch physicalAddress size
      return (some (Machine.loadedValue data), { sys with machine := machine })

/-- `Machine::WriteMem`: whether the value was written. -/
def writeMem (sys : UserSystem) (addr : CInt) (size : Nat) (value : CInt) :
    Except Fault (Bool × UserSystem) := do
  let (translated, sys) ← sys.translateOrRaise addr size true
  match translated with
  | none => return (false, sys)
  | some physicalAddress => do
      checkSize size
      let machine ← sys.machine.store physicalAddress size value
      return (true, { sys with machine := machine })

end UserSystem

end Nachos
