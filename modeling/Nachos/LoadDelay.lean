import Nachos.MemoryAccesses

/-!
# Load delays

A register file in which the latest instruction to write a register in program order wins,
and a loaded value arrives one instruction late, is a function of the list of writes.  The
simulator keeps the value that has not arrived in `LoadReg` and `LoadValueReg`, and applies it
behind what the next instruction has assigned.
-/

namespace Nachos

open TransitionRuns

/-- What an instruction writes: a general register at once, and another one, or the same,
with delay.  Register 0 stands for none. -/
structure Written where
  direct : Option (RegisterNumber × CInt)
  loadReg : RegisterNumber
  loadValue : CInt

namespace Written

/-- The registers when only the direct write has arrived. -/
def apply (write : Written) (older : RegisterNumber → CInt) : RegisterNumber → CInt :=
  match write.direct with
  | none => older
  | some (reg, value) => Function.update older reg value

/-- The registers when all writes of a history have arrived.  The latest one comes first. -/
def settled (initial : RegisterNumber → CInt) : List Written → RegisterNumber → CInt
  | [] => initial
  | write :: earlier =>
      Function.update (write.apply (settled initial earlier)) write.loadReg write.loadValue

end Written

/-- The general register to which an operation assigns. -/
def Operation.direct : Operation → Option (RegisterNumber × CInt)
  | .goOn written _ _ _ => written
  | _ => none

/-- The registers with another value for the load in progress. -/
def Registers.pending (registers : Registers) (loadValue : CInt) : Registers :=
  { registers with loadValue := loadValue }

namespace Instruction

end Instruction

namespace Processor

variable {handler : TrapHandler} {s last : Processor} {operation : Operation}
  {completion : Completion}

/-- What the next instruction writes, if it comes to its end. -/
def written (handler : TrapHandler) (s : Processor) : Written :=
  match s.readMem handler s.registers.pc 4 with
  | .ok (some word, fetched) =>
      match fetched.execute handler (Instruction.decode word) with
      | .ok (some completion, _) =>
          ⟨((Instruction.decode word).operation fetched.registers).direct,
            completion.nextLoadReg, completion.nextLoadValue⟩
      | _ => ⟨none, 0, 0⟩
  | _ => ⟨none, 0, 0⟩

end Processor

/-- A processor with the register file that it started from, and what its instructions have
written since, the latest one first. -/
structure TracedProcessor where
  processor : Processor
  initial : RegisterNumber → CInt
  writes : List Written

namespace TracedProcessor

/-- A processor of which nothing is known but the load in progress. -/
def start (s : Processor) : TracedProcessor where
  processor := s
  initial := s.registers.general
  writes := [⟨none, s.registers.loadReg, s.registers.loadValue⟩]

/-- What happens to the rest of the system between two instructions comes first. -/
def enter (t : TracedProcessor) (between : UserSystem → UserSystem) : Processor :=
  { t.processor with system := between t.processor.system }

def step (handler : TrapHandler) (t : TracedProcessor) (between : UserSystem → UserSystem) :
    Except Crash TracedProcessor := do
  let (_, after) ← (t.enter between).oneInstruction handler
  return { t with processor := after, writes := (t.enter between).written handler :: t.writes }

end TracedProcessor

end Nachos
