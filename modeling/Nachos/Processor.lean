import Nachos.InstructionDecode
import Nachos.Translate

/-!
# The processor

The registers of the simulated machine, `Machine::RaiseException` of `machine/machine.cc`,
and `ReadMem` and `WriteMem` of `machine/translate.cc` in the builds with `USE_TLB`, with
their effect on the registers: an exception completes a load that is in progress, whether
the access is given up or goes on.

What `ExceptionHandler` does is a parameter.  The exceptions that were raised are recorded
beside the machine; no code reads that list.
-/

namespace Nachos

open TransitionRuns

/-- The exceptions of user programs. -/
inductive Trap where
  | memory (exception : ExceptionType)
  | syscall
  | overflow
  | illegalInstr
  deriving DecidableEq

/-- How the simulator can come to an end within an instruction: by an `ASSERT` in
`OneInstruction`, by an operation that the host does not define, or within an access to
memory or the kernel. -/
inductive Crash where
  | assertion
  | undefinedOperation
  | system (fault : Fault)
  deriving DecidableEq

/-- `registers`: the general ones, and the others by their names. -/
structure Registers where
  general : RegisterNumber → CInt
  hi : CInt
  lo : CInt
  pc : CInt
  nextPC : CInt
  prevPC : CInt
  loadReg : RegisterNumber
  loadValue : CInt
  badVAddr : CInt

namespace Registers

/-- An assignment to a general register. -/
def set (registers : Registers) (reg : RegisterNumber) (value : CInt) : Registers :=
  { registers with general := Function.update registers.general reg value }

/-- `Machine::DelayedLoad`. -/
def delayedLoad (registers : Registers) (nextReg : RegisterNumber) (nextValue : CInt) :
    Registers :=
  { registers.set registers.loadReg registers.loadValue with
    loadReg := nextReg
    loadValue := nextValue }.set 0 0

end Registers

/-- `ExceptionHandler`: what the kernel makes of the registers and of the rest of the
system. -/
abbrev TrapHandler :=
  Trap → Registers → UserSystem → Except Fault (Registers × UserSystem)

/-- The registers, the memory with the kernel's tables, and the exceptions that were raised
with their addresses, the latest at the end. -/
structure Processor where
  registers : Registers
  system : UserSystem
  raised : List (Trap × CInt)

namespace Processor

/-- A part of the system that may fail. -/
def within {Result : Type} (result : Except Fault Result) : Except Crash Result :=
  result.mapError .system

/-- `Machine::RaiseException`. -/
def raiseException (handler : TrapHandler) (s : Processor) (which : Trap) (badVAddr : CInt) :
    Except Crash Processor := do
  let registers := { s.registers with badVAddr := badVAddr }.delayedLoad 0 0
  let (registers, system) ← within (handler which registers s.system)
  return ⟨registers, system, s.raised ++ [(which, badVAddr)]⟩

/-- The search of `Translate`: whether the translation buffer missed.  The handler of a miss
has to set `entry`. -/
def findEntry (handler : TrapHandler) (s : Processor) (virtAddr : CInt) :
    Except Crash (Bool × Processor) :=
  match s.system.machine.findTLB s.system.machine.vpn with
  | some slot => .ok (false, { s with
      system := { s.system with
        machine := { s.system.machine with entry := some (.tlb slot) } } })
  | none => do
      let s ← { s with
        system := { s.system with machine := { s.system.machine with entry := none } }
        }.raiseException handler (.memory .tlbPageFault) virtAddr
      return (true, s)

/-- `Machine::Translate`. -/
def translate (handler : TrapHandler) (s : Processor) (virtAddr : CInt) (size : Nat)
    (writing : Bool) : Except Crash (Except ExceptionType Int × Processor) :=
  if UserSystem.misaligned virtAddr size then .ok (.error .addressError, s)
  else do
    let (tlbMiss, s) ← { s with system := s.system.setPage virtAddr }.findEntry handler virtAddr
    let (result, system) ← within (s.system.useEntry tlbMiss writing)
    return (result, { s with system := system })

/-- The first lines of `ReadMem` and `WriteMem`.  No physical address means that they return
`FALSE`. -/
def translateOrRaise (handler : TrapHandler) (s : Processor) (addr : CInt) (size : Nat)
    (writing : Bool) : Except Crash (Option Int × Processor) := do
  let (result, s) ← s.translate handler addr size writing
  match result with
  | .ok physicalAddress => return (some physicalAddress, s)
  | .error exception => do
      let s ← s.raiseException handler (.memory exception) addr
      if exception = .pageFault then
        let (again, s) ← s.translate handler addr size true
        return (again.toOption, s)
      else return (none, s)

/-- `Machine::ReadMem`: the value read, or none when it returns `FALSE`. -/
def readMem (handler : TrapHandler) (s : Processor) (addr : CInt) (size : Nat) :
    Except Crash (Option CInt × Processor) := do
  let (translated, s) ← s.translateOrRaise handler addr size false
  match translated with
  | none => return (none, s)
  | some physicalAddress => do
      within (UserSystem.checkSize size)
      let (data, machine) ← within (s.system.machine.fetch physicalAddress size)
      return (some (Machine.loadedValue data),
        { s with system := { s.system with machine := machine } })

/-- `Machine::WriteMem`: whether the value was written. -/
def writeMem (handler : TrapHandler) (s : Processor) (addr : CInt) (size : Nat) (value : CInt) :
    Except Crash (Bool × Processor) := do
  let (translated, s) ← s.translateOrRaise handler addr size true
  match translated with
  | none => return (false, s)
  | some physicalAddress => do
      within (UserSystem.checkSize size)
      let machine ← within (s.system.machine.store physicalAddress size value)
      return (true, { s with system := { s.system with machine := machine } })

end Processor

end Nachos
