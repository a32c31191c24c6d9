import Nachos.Processor

/-!
# Executing instructions

`Machine::OneInstruction` and `Mult` of `machine/mipssim.cc`.  The result of an instruction
is written at once, except for that of a load, which goes to two registers of its own and
reaches its target at the end of the next instruction.

Signed sums, differences and products wrap around, as on the host.
-/

namespace Nachos

open TransitionRuns

/-- The variables of the loop in `Mult`.  The host shifts the signed `a` arithmetically. -/
structure MultState where
  a : CInt
  bLo : CInt
  bHi : CInt
  lo : CInt
  hi : CInt

/-- The addition in a round of the loop. -/
def MultState.add (s : MultState) : MultState :=
  let lo := s.lo + s.bLo
  let hi := if lo.ult s.bLo then s.hi + 1 else s.hi
  { s with lo := lo, hi := hi + s.bHi }

/-- The shifts at the end of a round. -/
def MultState.shift (s : MultState) : MultState :=
  let bHi := s.bHi <<< 1
  { s with
    bHi := if s.bLo &&& 0x80000000 ≠ 0 then bHi ||| 1 else bHi
    bLo := s.bLo <<< 1
    a := s.a.sshiftRight 1 }

/-- The loop of `Mult` for the given number of rounds. -/
def multLoop : Nat → MultState → MultState
  | 0, s => s
  | rounds + 1, s =>
      if s.a &&& 1 ≠ 0 then
        if s.a &&& 0xfffffffe = 0 then s.add
        else multLoop rounds s.add.shift
      else multLoop rounds s.shift

/-- The two's complement of a double word. -/
def negateDouble (hi lo : CInt) : CInt × CInt :=
  let hi := ~~~hi
  let lo := ~~~lo + 1
  (if lo = 0 then hi + 1 else hi, lo)

/-- `Mult`: the words for `*hiPtr` and `*loPtr`. -/
def mult (a b : CInt) (signedArith : Bool) : CInt × CInt :=
  if a = 0 ∨ b = 0 then (0, 0)
  else
    let aNegative := signedArith && a.slt 0
    let bNegative := signedArith && b.slt 0
    let product := multLoop 32 {
      a := if aNegative then -a else a
      bLo := if bNegative then -b else b
      bHi := 0
      lo := 0
      hi := 0 }
    if aNegative ^^ bNegative then negateDouble product.hi product.lo
    else (product.hi, product.lo)

def signBit : CInt := 0x80000000

def indexToAddr (index : CInt) : CInt :=
  index <<< 2

/-- The test for overflow in `OP_ADD` and `OP_ADDI`. -/
def sumOverflows (first second compared sum : CInt) : Bool :=
  (first ^^^ second) &&& signBit = 0 && (compared ^^^ sum) &&& signBit ≠ 0

/-- The test for overflow in `OP_SUB`. -/
def differenceOverflows (first second difference : CInt) : Bool :=
  (first ^^^ second) &&& signBit ≠ 0 && (first ^^^ difference) &&& signBit ≠ 0

/-- The bytes and half words of loads. -/
def extendByte (signed : Bool) (value : CInt) : CInt :=
  if value &&& 0x80 ≠ 0 && signed then value ||| 0xffffff00 else value &&& 0xff

def extendHalf (signed : Bool) (value : CInt) : CInt :=
  if value &&& 0x8000 ≠ 0 && signed then value ||| 0xffff0000 else value &&& 0xffff

/-- The word that `OP_LWL` makes of the register and the memory. -/
def loadLeft (tmp old value : CInt) : CInt :=
  match (tmp &&& 3).toNat with
  | 0 => value
  | 1 => (old &&& 0xff) ||| (value <<< 8)
  | 2 => (old &&& 0xffff) ||| (value <<< 16)
  | _ => (old &&& 0xffffff) ||| (value <<< 24)

def loadRight (tmp old value : CInt) : CInt :=
  match (tmp &&& 3).toNat with
  | 0 => (old &&& 0xffffff00) ||| (value.sshiftRight 24 &&& 0xff)
  | 1 => (old &&& 0xffff0000) ||| (value.sshiftRight 16 &&& 0xffff)
  | 2 => (old &&& 0xff000000) ||| (value.sshiftRight 8 &&& 0xffffff)
  | _ => value

/-- The word that `OP_SWL` makes of the memory and the register. -/
def storeLeft (tmp value reg : CInt) : CInt :=
  match (tmp &&& 3).toNat with
  | 0 => reg
  | 1 => (value &&& 0xff000000) ||| (reg.sshiftRight 8 &&& 0xffffff)
  | 2 => (value &&& 0xffff0000) ||| (reg.sshiftRight 16 &&& 0xffff)
  | _ => (value &&& 0xffffff00) ||| (reg.sshiftRight 24 &&& 0xff)

def storeRight (tmp value reg : CInt) : CInt :=
  match (tmp &&& 3).toNat with
  | 0 => (value &&& 0xffffff) ||| (reg <<< 24)
  | 1 => (value &&& 0xffff) ||| (reg <<< 16)
  | 2 => (value &&& 0xff) ||| (reg <<< 8)
  | _ => reg

/-- The value of the register that `OP_LWL` and `OP_LWR` change: the pending one, if a load
of it is in progress. -/
def Registers.newest (registers : Registers) (reg : RegisterNumber) : CInt :=
  if registers.loadReg = reg then registers.loadValue else registers.general reg

/-- What a case of the `switch` comes to: it goes on with an assignment to a general register
and with new values of `HiReg`, `LoReg` and `pcAfter`, it raises an exception and returns, it
reads or writes memory, or it brings the simulator down.  The values of loads and of updates
of words are made of the registers as they are behind the access, and of what was read. -/
inductive Operation where
  | goOn (written : Option (RegisterNumber × CInt)) (hi lo pcAfter : CInt)
  | fault (which : Trap) (badVAddr : CInt)
  | load (addr : CInt) (size : Nat) (reg : RegisterNumber) (value : Registers → CInt → CInt)
  | store (addr : CInt) (size : Nat) (value : CInt)
  | update (addr : CInt) (value : Registers → CInt → CInt)
  | crash (reason : Crash)

namespace Registers

/-- The case assigns a value to a register. -/
def write (registers : Registers) (reg : RegisterNumber) (value : CInt) : Operation :=
  .goOn (some (reg, value)) registers.hi registers.lo (registers.nextPC + 4)

/-- The case assigns to `HiReg` and `LoReg`. -/
def writeHiLo (registers : Registers) (hi lo : CInt) : Operation :=
  .goOn none hi lo (registers.nextPC + 4)

/-- A jump, with a register for the return address. -/
def jump (registers : Registers) (link : Option RegisterNumber) (pcAfter : CInt) : Operation :=
  .goOn (link.map fun reg => (reg, registers.nextPC + 4)) registers.hi registers.lo pcAfter

/-- A branch. -/
def branch (registers : Registers) (link : Option RegisterNumber) (taken : Bool)
    (extra : CInt) : Operation :=
  registers.jump link (if taken then registers.nextPC + indexToAddr extra
    else registers.nextPC + 4)

/-- `OP_DIV` with a divisor that is not zero. -/
def divide (registers : Registers) (first second : CInt) : Operation :=
  if first = signBit ∧ second = -1 then .crash .undefinedOperation
  else registers.writeHiLo (first.srem second) (first.sdiv second)

end Registers

/-- `ASSERT((tmp & 0x3) == 0)`. -/
def assertAligned (tmp : CInt) (operation : Operation) : Operation :=
  if tmp &&& 3 = 0 then operation else .crash .assertion

/-- The `switch` of `OneInstruction`. -/
def Instruction.operation (instr : Instruction) (registers : Registers) : Operation :=
  let rs := registers.general instr.rs
  let rt := registers.general instr.rt
  let extra := instr.extra
  let pcAfter := registers.nextPC + 4
  let tmp := rs + extra
  match instr.opCode with
  | .add =>
      let sum := rs + rt
      if sumOverflows rs rt rs sum then .fault .overflow 0 else registers.write instr.rd sum
  | .addi =>
      let sum := rs + extra
      if sumOverflows rs extra extra sum then .fault .overflow 0
      else registers.write instr.rt sum
  | .addiu => registers.write instr.rt (rs + extra)
  | .addu => registers.write instr.rd (rs + rt)
  | .and => registers.write instr.rd (rs &&& rt)
  | .andi => registers.write instr.rt (rs &&& (extra &&& 0xffff))
  | .beq => registers.branch none (rs = rt) extra
  -- the return address is written before `rs` is read
  | .bgezal => registers.branch (some 31)
      ((registers.set 31 pcAfter).general instr.rs &&& signBit = 0) extra
  | .bgez => registers.branch none (rs &&& signBit = 0) extra
  | .bgtz => registers.branch none (BitVec.slt 0 rs) extra
  | .blez => registers.branch none (BitVec.sle rs 0) extra
  | .bltzal => registers.branch (some 31)
      ((registers.set 31 pcAfter).general instr.rs &&& signBit ≠ 0) extra
  | .bltz => registers.branch none (rs &&& signBit ≠ 0) extra
  | .bne => registers.branch none (rs ≠ rt) extra
  | .div => if rt = 0 then registers.writeHiLo 0 0 else registers.divide rs rt
  | .divu =>
      if rt = 0 then registers.writeHiLo 0 0
      else registers.writeHiLo (rs.umod rt) (rs.udiv rt)
  | .jal => registers.jump (some 31) ((pcAfter &&& 0xf0000000) ||| indexToAddr extra)
  | .j => registers.jump none ((pcAfter &&& 0xf0000000) ||| indexToAddr extra)
  | .jalr => registers.jump (some instr.rd) ((registers.set instr.rd pcAfter).general instr.rs)
  | .jr => registers.jump none rs
  | .lb => .load tmp 1 instr.rt fun _ value => extendByte true value
  | .lbu => .load tmp 1 instr.rt fun _ value => extendByte false value
  | .lh =>
      if tmp &&& 1 ≠ 0 then .fault (.memory .addressError) tmp
      else .load tmp 2 instr.rt fun _ value => extendHalf true value
  | .lhu =>
      if tmp &&& 1 ≠ 0 then .fault (.memory .addressError) tmp
      else .load tmp 2 instr.rt fun _ value => extendHalf false value
  | .lui => registers.write instr.rt (extra <<< 16)
  | .lw =>
      if tmp &&& 3 ≠ 0 then .fault (.memory .addressError) tmp
      else .load tmp 4 instr.rt fun _ value => value
  | .lwl => assertAligned tmp (.load tmp 4 instr.rt fun after value =>
      loadLeft tmp (after.newest instr.rt) value)
  | .lwr => assertAligned tmp (.load tmp 4 instr.rt fun after value =>
      loadRight tmp (after.newest instr.rt) value)
  | .mfhi => registers.write instr.rd registers.hi
  | .mflo => registers.write instr.rd registers.lo
  | .mthi => registers.writeHiLo rs registers.lo
  | .mtlo => registers.writeHiLo registers.hi rs
  | .mult => registers.writeHiLo (mult rs rt true).1 (mult rs rt true).2
  | .multu => registers.writeHiLo (mult rs rt false).1 (mult rs rt false).2
  | .nor => registers.write instr.rd (~~~(rs ||| rt))
  -- the second operand of `OP_OR` is `registers[instr->rs]` as well
  | .or => registers.write instr.rd (rs ||| rs)
  | .ori => registers.write instr.rt (rs ||| (extra &&& 0xffff))
  | .sb => .store tmp 1 rt
  | .sh => .store tmp 2 rt
  | .sll => registers.write instr.rd (rt <<< extra.toNat)
  | .sllv => registers.write instr.rd (rt <<< (rs &&& 0x1f).toNat)
  | .slt => registers.write instr.rd (if rs.slt rt then 1 else 0)
  | .slti => registers.write instr.rt (if rs.slt extra then 1 else 0)
  | .sltiu => registers.write instr.rt (if rs.ult extra then 1 else 0)
  | .sltu => registers.write instr.rd (if rs.ult rt then 1 else 0)
  | .sra => registers.write instr.rd (rt.sshiftRight extra.toNat)
  | .srav => registers.write instr.rd (rt.sshiftRight (rs &&& 0x1f).toNat)
  -- `tmp` is an `int`, so that these two shift arithmetically
  | .srl => registers.write instr.rd (rt.sshiftRight extra.toNat)
  | .srlv => registers.write instr.rd (rt.sshiftRight (rs &&& 0x1f).toNat)
  | .sub =>
      let diff := rs - rt
      if differenceOverflows rs rt diff then .fault .overflow 0
      else registers.write instr.rd diff
  | .subu => registers.write instr.rd (rs - rt)
  | .sw => .store tmp 4 rt
  | .swl => assertAligned tmp (.update (tmp &&& ~~~3) fun after value =>
      storeLeft tmp value (after.general instr.rt))
  | .swr => assertAligned tmp (.update (tmp &&& ~~~3) fun after value =>
      storeRight tmp value (after.general instr.rt))
  | .syscall => .fault .syscall 0
  | .xor => registers.write instr.rd (rs ^^^ rt)
  | .xori => registers.write instr.rt (rs ^^^ (extra &&& 0xffff))
  | .res | .unimp => .fault .illegalInstr 0
  -- the default case
  | .rfe => .crash .assertion

/-- The local variables of `OneInstruction` behind the `switch`. -/
structure Completion where
  pcAfter : CInt
  nextLoadReg : RegisterNumber
  nextLoadValue : CInt

/-- The end of the `switch`, or none when an exception had `OneInstruction` return. -/
abbrev Execution := Except Crash (Option Completion × Processor)

/-- An instruction assigns to at most one general register. -/
def Registers.assign (registers : Registers) : Option (RegisterNumber × CInt) → Registers
  | none => registers
  | some (reg, value) => registers.set reg value

namespace Processor

def load (handler : TrapHandler) (s : Processor) (addr : CInt) (size : Nat)
    (reg : RegisterNumber) (value : Registers → CInt → CInt) : Execution := do
  let (read, after) ← s.readMem handler addr size
  match read with
  | none => return (none, after)
  | some data =>
      return (some ⟨s.registers.nextPC + 4, reg, value after.registers data⟩, after)

def store (handler : TrapHandler) (s : Processor) (addr : CInt) (size : Nat) (value : CInt) :
    Execution := do
  let (written, after) ← s.writeMem handler addr size value
  if written then return (some ⟨s.registers.nextPC + 4, 0, 0⟩, after) else return (none, after)

/-- A word is read, changed and written. -/
def update (handler : TrapHandler) (s : Processor) (addr : CInt)
    (value : Registers → CInt → CInt) : Execution := do
  let (read, after) ← s.readMem handler addr 4
  match read with
  | none => return (none, after)
  | some data => do
      let (written, last) ← after.writeMem handler addr 4 (value after.registers data)
      if written then return (some ⟨s.registers.nextPC + 4, 0, 0⟩, last) else return (none, last)

/-- A case of the `switch` is executed. -/
def carryOut (handler : TrapHandler) (s : Processor) : Operation → Execution
  | .goOn written hi lo pcAfter => .ok (some ⟨pcAfter, 0, 0⟩,
      { s with registers := { s.registers.assign written with hi := hi, lo := lo } })
  | .fault which badVAddr => do
      let s ← s.raiseException handler which badVAddr
      return (none, s)
  | .load addr size reg value => s.load handler addr size reg value
  | .store addr size value => s.store handler addr size value
  | .update addr value => s.update handler addr value
  | .crash reason => .error reason

/-- `OneInstruction` from the decoded instruction to the end of the `switch`. -/
def execute (handler : TrapHandler) (instr : Instruction) (s : Processor) : Execution :=
  s.carryOut handler (instr.operation s.registers)

/-- The end of `OneInstruction`: the load in progress is completed, and the program counters
are advanced. -/
def advance (s : Processor) (completion : Completion) : Processor :=
  let registers := s.registers.delayedLoad completion.nextLoadReg completion.nextLoadValue
  { s with registers := { registers with
      prevPC := registers.pc
      pc := registers.nextPC
      nextPC := completion.pcAfter } }

/-- `OneInstruction` behind the fetch: whether it comes to its end. -/
def perform (handler : TrapHandler) (instr : Instruction) (s : Processor) :
    Except Crash (Bool × Processor) := do
  let (completion, s) ← s.execute handler instr
  match completion with
  | none => return (false, s)
  | some completion => return (true, s.advance completion)

/-- `Machine::OneInstruction`. -/
def oneInstruction (handler : TrapHandler) (s : Processor) :
    Except Crash (Bool × Processor) := do
  let (raw, s) ← s.readMem handler s.registers.pc 4
  match raw with
  | none => return (false, s)
  | some raw => s.perform handler (Instruction.decode raw)

end Processor

end Nachos
