import Nachos.Processor
import Nachos.UserPrograms

/-!
# The kernel's exception handler

`ExceptionHandler` as a handler for the processor.  It does not look at `entry`, which
`Translate` clears before it raises the exception of a miss, so that the accesses of the
processor are those of the system of user programs.
-/

namespace Nachos

open LittleEndianWords TransitionRuns

section Results

variable {First First' Second Third : Type}

/-- A computation in which the value that goes on is changed, or the result is. -/
theorem map_bind_eq_map {first : Except Fault First} {before : First → First'}
    {changed : First' → Except Fault Third} {next : First → Except Fault Second}
    {after : Second → Third} (each : ∀ value, changed (before value) = (next value).map after) :
    (first.map before >>= changed) = (first >>= next).map after := by
  cases first with
  | error fault => rfl
  | ok value => exact each value

theorem bind_eq_map {first : Except Fault First} {changed : First → Except Fault Third}
    {next : First → Except Fault Second} {after : Second → Third}
    (each : ∀ value, changed value = (next value).map after) :
    (first >>= changed) = (first >>= next).map after := by
  cases first with
  | error fault => rfl
  | ok value => exact each value

end Results

namespace UserSystem

/-- An assignment to the global variable `entry`. -/
def setEntry (entry : Option EntryPointer) (sys : UserSystem) : UserSystem :=
  { sys with machine := { sys.machine with entry := entry } }

variable (sys : UserSystem) (entry : Option EntryPointer)

theorem sortPTE_setEntry :
    (sys.setEntry entry).sortPTE = sys.sortPTE.map (setEntry entry) := by
  apply bind_eq_map
  intro table
  change (if table.2.length < sys.machine.pageTableSize then _ else _) =
    (if table.2.length < sys.machine.pageTableSize then _ else _ :
      Except Fault UserSystem).map _
  by_cases short : table.2.length < sys.machine.pageTableSize
  · rw [if_pos short, if_pos short]
    rfl
  · rw [if_neg short, if_neg short]
    rfl

theorem switchPageTable_setEntry (id frameNum : Nat) :
    (sys.setEntry entry).switchPageTable id frameNum =
      (sys.switchPageTable id frameNum).map (setEntry entry) := by
  apply bind_eq_map
  intro space
  apply bind_eq_map
  intro table
  apply bind_eq_map
  intro found
  apply bind_eq_map
  intro bitmap
  apply bind_eq_map
  intro cleared
  rfl

theorem updatePageTable_setEntry :
    (sys.setEntry entry).updatePageTable = sys.updatePageTable.map (setEntry entry) := by
  unfold updatePageTable
  rw [sortPTE_setEntry]
  apply map_bind_eq_map
  intro sorted
  apply bind_eq_map
  intro frame
  apply bind_eq_map
  intro space
  exact switchPageTable_setEntry
    { sorted with machine := { sorted.machine with pageTableFrame := frame } } entry space frame

theorem raiseIfMissing_setEntry :
    (sys.setEntry entry).raiseIfMissing = sys.raiseIfMissing.map (setEntry entry) := by
  apply bind_eq_map
  intro missing
  cases missing with
  | false => rfl
  | true => exact updatePageTable_setEntry sys entry

/-- `TranslatePTE` assigns to `entry` without having used it. -/
theorem translatePTE_setEntry : (sys.setEntry entry).translatePTE = sys.translatePTE := by
  let started := { sys with
    machine := { sys.machine with pageTableFrame := sys.machine.vpn } }
  change ((started.setEntry entry).raiseIfMissing >>= _) = (started.raiseIfMissing >>= _)
  rw [raiseIfMissing_setEntry]
  cases started.raiseIfMissing with
  | error fault => rfl
  | ok present => rfl

end UserSystem

/-- `AddrSpace::InitRegisters`. -/
def AddrSpace.initRegisters (space : AddrSpace) : Registers where
  general reg := if reg = 29 then BitVec.ofNat 32 (space.realNumPages * pageSize) - 16 else 0
  hi := 0
  lo := 0
  pc := 0
  nextPC := 4
  prevPC := 0
  loadReg := 0
  loadValue := 0
  badVAddr := 0

/-- An executable with these instructions and no data. -/
def Program.ofInstructions (code : List CInt) : Program where
  executable := {
    cells := fun position => (encodeWords ([noffMagic, 0, 40, BitVec.ofNat 32 (4 * code.length),
      0, 0, 0, 0, 0, 0] ++ code)).getD position 0
    length := NoffHeader.bytes + 4 * code.length }
  stack := fun _ => 0

/-- `ExceptionHandler`, where the exceptions that are not about memory are left to another
handler. -/
def kernelHandler (other : TrapHandler) : TrapHandler
  | .memory exception, registers, sys =>
      (sys.exceptionHandler exception).map fun sys => (registers, sys)
  | which, registers, sys => other which registers sys

namespace Processor

variable {other : TrapHandler} {First Result Other : Type}

/-- What a computation of the processor does to the system. -/
def onSystem (computation : Except Crash (Result × Processor)) :
    Except Crash (Result × UserSystem) :=
  computation.map (Prod.map id system)

theorem onSystem_bind {first : Except Crash (Result × Processor)}
    {second : Result × Processor → Except Crash (Other × Processor)}
    {sysFirst : Except Fault (Result × UserSystem)}
    {sysSecond : Result × UserSystem → Except Fault (Other × UserSystem)}
    (same : onSystem first = within sysFirst)
    (each : ∀ result s, onSystem (second (result, s)) = within (sysSecond (result, s.system))) :
    onSystem (first >>= second) = within (sysFirst >>= sysSecond) := by
  cases first with
  | error crash =>
      cases sysFirst with
      | error fault =>
          cases same
          rfl
      | ok value => cases same
  | ok value =>
      cases sysFirst with
      | error fault => cases same
      | ok sysValue =>
          cases same
          exact each _ _

theorem onSystem_bind_within {result : Except Fault First}
    {second : First → Except Crash (Other × Processor)}
    {sysSecond : First → Except Fault (Other × UserSystem)}
    (each : ∀ value, onSystem (second value) = within (sysSecond value)) :
    onSystem (within result >>= second) = within (result >>= sysSecond) := by
  cases result with
  | error fault => rfl
  | ok value => exact each value

theorem onSystem_bind_raised {raised : Except Crash Processor}
    {second : Processor → Except Crash (Other × Processor)}
    {sysRaised : Except Fault UserSystem}
    {sysSecond : UserSystem → Except Fault (Other × UserSystem)}
    (same : raised.map system = within sysRaised)
    (each : ∀ s, onSystem (second s) = within (sysSecond s.system)) :
    onSystem (raised >>= second) = within (sysRaised >>= sysSecond) := by
  cases raised with
  | error crash =>
      cases sysRaised with
      | error fault =>
          cases same
          rfl
      | ok sys => cases same
  | ok s =>
      cases sysRaised with
      | error fault => cases same
      | ok sys =>
          cases same
          exact each s

theorem raiseException_kernelHandler (s : Processor) (exception : ExceptionType)
    (badVAddr : CInt) :
    (s.raiseException (kernelHandler other) (.memory exception) badVAddr).map system =
      within (s.system.exceptionHandler exception) := by
  unfold raiseException kernelHandler
  dsimp only
  cases s.system.exceptionHandler exception with
  | error fault => rfl
  | ok sys => rfl

theorem findEntry_kernelHandler (s : Processor) (virtAddr : CInt) :
    onSystem (s.findEntry (kernelHandler other) virtAddr) = within s.system.findEntry := by
  unfold findEntry UserSystem.findEntry
  cases s.system.machine.findTLB s.system.machine.vpn with
  | some slot => rfl
  | none =>
      have raised := @raiseException_kernelHandler other
        { s with system := s.system.setEntry none } .tlbPageFault virtAddr
      have same : (s.system.setEntry none).exceptionHandler .tlbPageFault =
          s.system.exceptionHandler .tlbPageFault :=
        s.system.translatePTE_setEntry none
      rw [same] at raised
      apply onSystem_bind_raised raised
      intro after
      rfl

theorem translate_kernelHandler (s : Processor) (virtAddr : CInt) (size : Nat) (writing : Bool) :
    onSystem (s.translate (kernelHandler other) virtAddr size writing) =
      within (s.system.translate virtAddr size writing) := by
  unfold translate UserSystem.translate
  split
  · rfl
  · apply onSystem_bind (findEntry_kernelHandler { s with system := s.system.setPage virtAddr } _)
    intro tlbMiss found
    dsimp only
    cases found.system.useEntry tlbMiss writing with
    | error fault => rfl
    | ok used => rfl

theorem translateOrRaise_kernelHandler (s : Processor) (addr : CInt) (size : Nat)
    (writing : Bool) :
    onSystem (s.translateOrRaise (kernelHandler other) addr size writing) =
      within (s.system.translateOrRaise addr size writing) := by
  apply onSystem_bind (translate_kernelHandler s addr size writing)
  intro result translated
  cases result with
  | ok physicalAddress => rfl
  | error exception =>
      apply onSystem_bind_raised (raiseException_kernelHandler translated exception addr)
      intro handled
      split
      · apply onSystem_bind (translate_kernelHandler handled addr size true)
        intro again last
        rfl
      · rfl

/-- What `ReadMem` reads and what it does to the system does not depend on the registers. -/
theorem readMem_kernelHandler (s : Processor) (addr : CInt) (size : Nat) :
    onSystem (s.readMem (kernelHandler other) addr size) =
      within (s.system.readMem addr size) := by
  apply onSystem_bind (translateOrRaise_kernelHandler s addr size false)
  intro translated after
  cases translated with
  | none => rfl
  | some physicalAddress =>
      apply onSystem_bind_within
      intro checked
      apply onSystem_bind_within
      intro fetched
      rfl

theorem writeMem_kernelHandler (s : Processor) (addr : CInt) (size : Nat) (value : CInt) :
    onSystem (s.writeMem (kernelHandler other) addr size value) =
      within (s.system.writeMem addr size value) := by
  apply onSystem_bind (translateOrRaise_kernelHandler s addr size true)
  intro translated after
  cases translated with
  | none => rfl
  | some physicalAddress =>
      apply onSystem_bind_within
      intro checked
      apply onSystem_bind_within
      intro stored
      rfl

/-- `StartProcess` before `machine->Run()`. -/
def startProcess (useSwap : Bool) (sys : UserSystem) (program : Program) :
    Except Crash Processor := do
  let sys ← within (sys.startProcess useSwap program)
  let space ← within (dereference (sys.current.bind sys.spaces))
  return ⟨space.initRegisters, sys, []⟩

/-- A program of one instruction before and behind its fetch, with values in two registers. -/
def fetchOne (handler : TrapHandler) (word first second : CInt) :
    Except Crash (Processor × Option CInt × Processor) := do
  let s ← startProcess true (UserSystem.boot .zero) (.ofInstructions [word])
  let s := { s with registers := (s.registers.set 9 first).set 10 second }
  let fetched ← s.readMem handler s.registers.pc 4
  return (s, fetched)

theorem fetchOne_eq_ok {handler : TrapHandler} {word first second : CInt} {s s1 : Processor}
    {read : Option CInt} (done : fetchOne handler word first second = .ok (s, read, s1)) :
    s.readMem handler s.registers.pc 4 = .ok (read, s1) := by
  obtain ⟨start, _, done⟩ := bind_eq_ok_iff.mp done
  obtain ⟨fetched, isFetched, done⟩ := bind_eq_ok_iff.mp done
  cases done
  exact isFetched

end Processor

end Nachos
