import Nachos.Translate

/-!
# Running user programs

User programs run in threads of their own, one address space each.  A step of the
system starts a program, dispatches another thread, performs one memory access of
the running program, handles a page fault, or deletes an address space.
-/

namespace Nachos

open LittleEndianWords ByteStore TransitionRuns

/-- The contents of memory that the constructors leave as they find it. -/
structure BootMemory where
  tlb : Fin tlbSize → TranslationEntry
  disk : Nat → Byte
  words : Vector Word (BitMap.wordCount memorySize)
  pageTableSize : Nat
  pageTableFrame : Nat

/-- Memory that is all zeros. -/
def BootMemory.zero : BootMemory where
  tlb _ := {
    virtualPage := 0, physicalPage := 0, valid := false, readOnly := false, use := false
    dirty := false, nruN := 0 }
  disk _ := 0
  words := Vector.replicate _ 0
  pageTableSize := 0
  pageTableFrame := 0

/-- A program with one instruction: the executable is a header and four bytes of
code. -/
def Program.oneInstruction : Program where
  executable := {
    cells := fun position => (encodeWords [noffMagic, 0, 40, 4, 0, 0, 0, 0, 0, 0, 12]).getD
      position 0
    length := 44 }
  stack := fun _ => 0

/-- `Machine::Machine` with `USE_TLB`.  `Create` makes the swap file empty. -/
def Machine.new (memory : BootMemory) : Machine where
  tlb slot := { memory.tlb slot with valid := false, nruN := 0 }
  pageTable := none
  pageTableSize := memory.pageTableSize
  vpn := 0
  offset := 0
  entry := none
  pageTableFrame := memory.pageTableFrame
  mainMemory _ := 0
  disk := memory.disk
  swap := ⟨fun _ => 0, 0⟩
  noffCodeOffset := 0
  lastVpn := 0

namespace UserSystem

/-- The system before any program was started. -/
def boot (memory : BootMemory) : UserSystem where
  machine := Machine.new memory
  bitmap := BitMap.new memory.words
  tables _ := none
  spaces _ := none
  allocated := 0
  current := none

/-- The part of `StartProcess` before `machine->Run()`. -/
def startProcess (useSwap : Bool) (sys : UserSystem) (program : Program) :
    Except Fault UserSystem := do
  let (created, sys) ← sys.construct useSwap program
  { sys with current := some created }.restoreState created

def saveCurrent (sys : UserSystem) : Except Fault UserSystem :=
  match sys.current with
  | some id => sys.saveState id
  | none => .ok sys

def restoreCurrent (sys : UserSystem) : Except Fault UserSystem :=
  match sys.current with
  | some id => sys.restoreState id
  | none => .ok sys

/-- What `Scheduler::Run` does for user programs when it dispatches a thread whose
`space` is `next`. -/
def dispatch (sys : UserSystem) (next : Option Nat) : Except Fault UserSystem := do
  let sys ← sys.saveCurrent
  { sys with current := next }.restoreCurrent

inductive Action where
  | start (program : Program)
  | dispatch (next : Option Nat)
  | read (addr : CInt) (size : Nat)
  | write (addr : CInt) (size : Nat) (value : CInt)
  | pageFault (vpn : Nat)
  | destroy (id : Nat)

/-- One step.  Only a thread with an address space accesses user memory. -/
def step (useSwap : Bool) (sys : UserSystem) : Action → Except Fault UserSystem
  | .start program => sys.startProcess useSwap program
  | .dispatch next => sys.dispatch next
  | .read addr size => do
      let _ ← dereference sys.current
      let (_, sys) ← sys.readMem addr size
      return sys
  | .write addr size value => do
      let _ ← dereference sys.current
      let (_, sys) ← sys.writeMem addr size value
      return sys
  | .pageFault vpn =>
      { sys with machine := { sys.machine with vpn := vpn } }.exceptionHandler
        .ptePageFault
  | .destroy id => sys.destroy id

end UserSystem

end Nachos
