import Nachos.KernelTraps
import Nachos.Multiplication

/-!
# Integer instructions

What the manual of the processor says of the instructions that compute a word, with signed
numbers for the sums and comparisons and with strings of bits for the rest, and how
`OneInstruction` compares with it.  `OP_OR` takes its first operand twice, and the variable
of `OP_SRL` and `OP_SRLV` is an `int`, which the host shifts with its sign.
-/

namespace Nachos

open TransitionRuns

/-- What an instruction has to do: raise an overflow exception, or set a register. -/
inductive Effect where
  | overflow
  | result (reg : RegisterNumber) (value : CInt)
  deriving DecidableEq

/-- A sum or difference of signed numbers that is checked for overflow. -/
def Effect.checked (reg : RegisterNumber) (value : Int) : Effect :=
  if CInt.Fits value then .result reg (BitVec.ofInt 32 value) else .overflow

namespace Manual

/-! The fields of an instruction word. -/

def rsField (word : CInt) : RegisterNumber := word.extractLsb' 21 5

def rtField (word : CInt) : RegisterNumber := word.extractLsb' 16 5

def rdField (word : CInt) : RegisterNumber := word.extractLsb' 11 5

def shiftAmount (word : CInt) : BitVec 5 := word.extractLsb' 6 5

def immediate (word : CInt) : BitVec 16 := word.extractLsb' 0 16

/-- The number of bits by which a register has the variable shifts shift. -/
def variableAmount (rs : CInt) : Nat := rs.toNat % 32

/-- The effect of an arithmetic, logical, shift or comparing instruction on the general
registers, and none for the other instructions. -/
def effect (opCode : OpCode) (word : CInt) (general : RegisterNumber → CInt) : Option Effect :=
  let rs := general (rsField word)
  let rt := general (rtField word)
  let imm := immediate word
  match opCode with
  | .add => some (.checked (rdField word) (rs.toInt + rt.toInt))
  | .addi => some (.checked (rtField word) (rs.toInt + imm.toInt))
  | .sub => some (.checked (rdField word) (rs.toInt - rt.toInt))
  | .addu => some (.result (rdField word) (BitVec.ofInt 32 (rs.toInt + rt.toInt)))
  | .addiu => some (.result (rtField word) (BitVec.ofInt 32 (rs.toInt + imm.toInt)))
  | .subu => some (.result (rdField word) (BitVec.ofInt 32 (rs.toInt - rt.toInt)))
  | .and => some (.result (rdField word) (rs &&& rt))
  | .andi => some (.result (rtField word) (rs &&& imm.setWidth 32))
  | .or => some (.result (rdField word) (rs ||| rt))
  | .ori => some (.result (rtField word) (rs ||| imm.setWidth 32))
  | .xor => some (.result (rdField word) (rs ^^^ rt))
  | .xori => some (.result (rtField word) (rs ^^^ imm.setWidth 32))
  | .nor => some (.result (rdField word) (~~~(rs ||| rt)))
  | .lui => some (.result (rtField word) (imm ++ 0#16))
  | .sll => some (.result (rdField word) (rt <<< (shiftAmount word).toNat))
  | .sllv => some (.result (rdField word) (rt <<< variableAmount rs))
  | .srl => some (.result (rdField word) (rt >>> (shiftAmount word).toNat))
  | .srlv => some (.result (rdField word) (rt >>> variableAmount rs))
  | .sra => some (.result (rdField word) (rt.sshiftRight (shiftAmount word).toNat))
  | .srav => some (.result (rdField word) (rt.sshiftRight (variableAmount rs)))
  | .slt => some (.result (rdField word) (if rs.toInt < rt.toInt then 1 else 0))
  | .slti => some (.result (rtField word) (if rs.toInt < imm.toInt then 1 else 0))
  | .sltu => some (.result (rdField word) (if rs.toNat < rt.toNat then 1 else 0))
  | .sltiu => some (.result (rtField word)
      (if rs.toNat < (imm.signExtend 32).toNat then 1 else 0))
  | _ => none

end Manual

namespace Processor

/-- `OneInstruction` has this effect and no other one on the general registers, where `s1` is
the state after the fetch. -/
def Performs (handler : TrapHandler) (s s1 : Processor) : Effect → Prop
  | .overflow => s.oneInstruction handler = do
      let after ← s1.raiseException handler .overflow 0
      return (false, after)
  | .result reg value => ∃ after,
      s.oneInstruction handler = .ok (true, after) ∧ after.raised = s1.raised ∧
        ∀ r, after.registers.general r =
          if r = 0 then 0 else if r = reg then value else s1.registers.general r

end Processor

/-- The three operations for which the manual and the code differ agree on these operands. -/
def OperandsAgree (opCode : OpCode) (word : CInt) (general : RegisterNumber → CInt) : Prop :=
  let rs := general (Manual.rsField word)
  let rt := general (Manual.rtField word)
  match opCode with
  | .or => Manual.rdField word = 0 ∨ rt &&& ~~~rs = 0
  | .srl => Manual.rdField word = 0 ∨ Manual.shiftAmount word = 0 ∨ 0 ≤ rt.toInt
  | .srlv => Manual.rdField word = 0 ∨ Manual.variableAmount rs = 0 ∨ 0 ≤ rt.toInt
  | _ => True

section Words

theorem ofInt_toInt_add (a b : CInt) : BitVec.ofInt 32 (a.toInt + b.toInt) = a + b := by
  rw [BitVec.ofInt_add, BitVec.ofInt_toInt, BitVec.ofInt_toInt]

theorem ofInt_toInt_sub (a b : CInt) : BitVec.ofInt 32 (a.toInt - b.toInt) = a - b := by
  apply BitVec.eq_of_toInt_eq
  rw [BitVec.toInt_ofInt, BitVec.toInt_sub]

theorem toInt_signExtend_immediate (imm : BitVec 16) :
    (imm.signExtend 32).toInt = imm.toInt :=
  BitVec.toInt_signExtend_of_le (by decide)

/-- A test of the sign bit compares two signs. -/
theorem decide_xor_and_signBit (a b : CInt) :
    decide ((a ^^^ b) &&& signBit ≠ 0) = (a.msb ^^ b.msb) := by
  have clear : (a ^^^ b) &&& signBit = 0 ↔ (a ^^^ b).msb = false := and_signBit_eq_zero_iff _
  rw [Bool.eq_iff_iff, decide_eq_true_iff, ne_eq, clear, BitVec.msb_xor, Bool.not_eq_false]

theorem sumOverflows_eq (a b : CInt) : sumOverflows a b a (a + b) = a.saddOverflow b := by
  have same := decide_xor_and_signBit a b
  have other := decide_xor_and_signBit a (a + b)
  rw [decide_not] at same
  unfold sumOverflows
  rw [BitVec.saddOverflow_eq, other, ← Bool.not_not (decide _), same]
  cases a.msb <;> cases b.msb <;> cases (a + b).msb <;> rfl

/-- `OP_ADDI` compares the sum with its second operand. -/
theorem sumOverflows_second (a b sum : CInt) : sumOverflows a b b sum = sumOverflows a b a sum := by
  have same := decide_xor_and_signBit a b
  rw [decide_not] at same
  unfold sumOverflows
  rw [decide_xor_and_signBit, decide_xor_and_signBit, ← Bool.not_not (decide _), same]
  cases a.msb <;> cases b.msb <;> rfl

theorem fits_add_iff (a b : CInt) :
    CInt.Fits (a.toInt + b.toInt) ↔ a.saddOverflow b = false := by
  unfold CInt.Fits BitVec.saddOverflow
  simp only [Bool.or_eq_false_iff, decide_eq_false_iff_not]
  omega

theorem fits_sub_iff (a b : CInt) :
    CInt.Fits (a.toInt - b.toInt) ↔ a.ssubOverflow b = false := by
  unfold CInt.Fits BitVec.ssubOverflow
  simp only [Bool.or_eq_false_iff, decide_eq_false_iff_not]
  omega

theorem differenceOverflows_eq (a b : CInt) :
    differenceOverflows a b (a - b) = a.ssubOverflow b := by
  unfold differenceOverflows
  rw [decide_xor_and_signBit, decide_xor_and_signBit, BitVec.ssubOverflow_eq]
  cases a.msb <;> cases b.msb <;> cases (a - b).msb <;> rfl

theorem signExtend_and_mask (imm : BitVec 16) : imm.signExtend 32 &&& 0xffff = imm.setWidth 32 := by
  have mask : ∀ i : Fin 32, (0xffff : CInt).getLsbD i = decide (i.val < 16) := by decide
  apply BitVec.eq_of_getLsbD_eq
  intro i inside
  rw [BitVec.getLsbD_and, mask ⟨i, inside⟩, BitVec.getLsbD_signExtend, BitVec.getLsbD_setWidth]
  by_cases low : i < 16
  · simp [low, inside]
  · simp [low, BitVec.getLsbD_of_ge imm i (Nat.le_of_not_lt low)]

theorem signExtend_shiftLeft (imm : BitVec 16) : imm.signExtend 32 <<< 16 = imm ++ 0#16 := by
  apply BitVec.eq_of_getLsbD_eq
  intro i inside
  rw [BitVec.getLsbD_shiftLeft, BitVec.getLsbD_append, BitVec.getLsbD_signExtend]
  by_cases low : i < 16
  · simp [low]
  · have shifted : i - 16 < 16 := by omega
    have shorter : i - 16 < 32 := by omega
    simp [low, inside, shifted, shorter]

theorem toNat_and_amount (rs : CInt) : (rs &&& 0x1f).toNat = Manual.variableAmount rs := by
  rw [BitVec.toNat_and]
  exact Nat.and_two_pow_sub_one_eq_mod rs.toNat 5

/-- The two kinds of shifts to the right differ for negative words. -/
theorem sshiftRight_eq_ushiftRight_iff (word : CInt) {amount : Nat} (few : amount < 32) :
    word.sshiftRight amount = word >>> amount ↔ amount = 0 ∨ 0 ≤ word.toInt := by
  have sign : 0 ≤ word.toInt ↔ word.msb = false := by
    rw [BitVec.msb_eq_toInt, decide_eq_false_iff_not, Int.not_lt]
  rw [sign]
  constructor
  · intro same
    rcases Nat.eq_zero_or_pos amount with zero | positive
    · exact Or.inl zero
    · right
      have top := congrArg BitVec.msb same
      rw [BitVec.msb_sshiftRight, BitVec.msb_ushiftRight] at top
      simpa [Nat.ne_of_gt positive] using top
  · intro agree
    rcases agree with rfl | nonnegative
    · rw [BitVec.sshiftRight_zero, BitVec.ushiftRight_zero]
    · exact BitVec.sshiftRight_eq_of_msb_false nonnegative

/-- `OP_OR` is right when its second operand adds no bit. -/
theorem or_self_eq_or_iff (rs rt : CInt) : rs ||| rs = rs ||| rt ↔ rt &&& ~~~rs = 0 := by
  constructor
  · intro same
    apply BitVec.eq_of_getLsbD_eq
    intro i inside
    have bit := congrArg (fun word => word.getLsbD i) same
    simp only [BitVec.getLsbD_or] at bit
    rw [BitVec.getLsbD_and, BitVec.getLsbD_not]
    revert bit
    cases rs.getLsbD i <;> cases rt.getLsbD i <;> simp
  · intro none
    apply BitVec.eq_of_getLsbD_eq
    intro i inside
    have bit := congrArg (fun word => word.getLsbD i) none
    simp only [BitVec.getLsbD_and, BitVec.getLsbD_not, inside] at bit
    rw [BitVec.getLsbD_or, BitVec.getLsbD_or]
    revert bit
    cases rs.getLsbD i <;> cases rt.getLsbD i <;> simp

end Words

namespace Instruction

open Manual

/-- The instructions whose second operand is the immediate value. -/
def usesImmediate : OpCode → Bool
  | .addi | .addiu | .andi | .ori | .xori | .lui | .slti | .sltiu => true
  | _ => false

def usesShiftAmount : OpCode → Bool
  | .sll | .srl | .sra => true
  | _ => false

/-- The entry stands for one operation, which has the property. -/
def names (property : OpCode → Bool) : OpKind → Bool
  | .op opCode => property opCode
  | .special | .bcond => false

/-- An operation comes from its own entry of `opTable`, or from one of the two choices. -/
theorem opCodeOf_cases (value : CInt) {kind : OpKind} {property : OpCode → Bool}
    (holds : property (opCodeOf value kind) = true) :
    names property kind = true ∨
      kind = .special ∧ property (specialTable.get (value.extractLsb' 0 6).toFin) = true ∨
      kind = .bcond ∧ property (branchCode (value.extractLsb' 16 5)) = true := by
  cases kind with
  | op opCode => exact Or.inl holds
  | special => exact Or.inr (Or.inl ⟨rfl, holds⟩)
  | bcond => exact Or.inr (Or.inr ⟨rfl, holds⟩)

theorem extra_decode_immediate {word : CInt} (used : usesImmediate (decode word).opCode = true) :
    (decode word).extra = (immediate word).signExtend 32 := by
  have inOpTable : ∀ index : Fin 64, names usesImmediate (opTable.get index).opCode = true →
      (opTable.get index).format = .ifmt := by decide +kernel
  have inSpecialTable : ∀ index : Fin 64,
      usesImmediate (specialTable.get index) = false := by decide +kernel
  have inBranches : ∀ rt : RegisterNumber, usesImmediate (branchCode rt) = false := by
    decide +kernel
  rcases opCodeOf_cases word used with entry | ⟨_, chosen⟩ | ⟨_, chosen⟩
  · have format : (opInfo word).format = .ifmt := inOpTable _ entry
    unfold decode
    dsimp only
    rw [format]
    rfl
  · exact absurd (chosen.symm.trans (inSpecialTable _)) (by decide)
  · exact absurd (chosen.symm.trans (inBranches _)) (by decide)

theorem extra_decode_shift {word : CInt} (used : usesShiftAmount (decode word).opCode = true) :
    (decode word).extra = (shiftAmount word).setWidth 32 := by
  have inOpTable : ∀ index : Fin 64,
      names usesShiftAmount (opTable.get index).opCode = false := by decide +kernel
  have specialFormat : ∀ index : Fin 64, (opTable.get index).opCode = .special →
      (opTable.get index).format = .rfmt := by decide +kernel
  have inBranches : ∀ rt : RegisterNumber, usesShiftAmount (branchCode rt) = false := by
    decide +kernel
  rcases opCodeOf_cases word used with entry | ⟨special, _⟩ | ⟨_, chosen⟩
  · exact absurd (entry.symm.trans (inOpTable _)) (by decide)
  · have format : (opInfo word).format = .rfmt := specialFormat _ special
    unfold decode
    dsimp only
    rw [format]
    rfl
  · exact absurd (chosen.symm.trans (inBranches _)) (by decide)

end Instruction

namespace Processor

variable {handler : TrapHandler} {s s1 : Processor} {word : CInt} {effect : Effect}

variable {registers : Registers}

/-- The operation that an effect stands for. -/
def operationOf (registers : Registers) : Effect → Operation
  | .overflow => .fault .overflow 0
  | .result reg value => registers.write reg value

theorem operationOf_checked_add (a b : CInt) (reg : RegisterNumber) :
    operationOf registers (.checked reg (a.toInt + b.toInt)) =
      if sumOverflows a b a (a + b) then .fault .overflow 0 else registers.write reg (a + b) := by
  unfold Effect.checked
  rw [sumOverflows_eq, ofInt_toInt_add]
  by_cases fits : CInt.Fits (a.toInt + b.toInt)
  · rw [if_pos fits, if_neg (by simp [(fits_add_iff a b).mp fits])]
    rfl
  · rw [if_neg fits, if_pos (by simpa [fits_add_iff] using fits)]
    rfl

theorem operationOf_checked_sub (a b : CInt) (reg : RegisterNumber) :
    operationOf registers (.checked reg (a.toInt - b.toInt)) =
      if differenceOverflows a b (a - b) then .fault .overflow 0
      else registers.write reg (a - b) := by
  unfold Effect.checked
  rw [differenceOverflows_eq, ofInt_toInt_sub]
  by_cases fits : CInt.Fits (a.toInt - b.toInt)
  · rw [if_pos fits, if_neg (by simp [(fits_sub_iff a b).mp fits])]
    rfl
  · rw [if_neg fits, if_pos (by simpa [fits_sub_iff] using fits)]
    rfl

/-- The `switch` does what the manual says, except in three of its cases. -/
theorem operation_eq_operationOf (regular : (Instruction.decode word).opCode ≠ .or ∧
      (Instruction.decode word).opCode ≠ .srl ∧ (Instruction.decode word).opCode ≠ .srlv)
    (defined : Manual.effect (Instruction.decode word).opCode word registers.general =
      some effect) :
    (Instruction.decode word).operation registers = operationOf registers effect := by
  have immediate := @Instruction.extra_decode_immediate word
  have shift := @Instruction.extra_decode_shift word
  unfold Instruction.operation
  generalize (Instruction.decode word).opCode = opCode at regular defined immediate shift ⊢
  cases opCode with
  | add =>
      cases defined
      exact (operationOf_checked_add _ _ _).symm
  | sub =>
      cases defined
      exact (operationOf_checked_sub _ _ _).symm
  | addi =>
      cases defined
      dsimp only
      rw [immediate rfl, sumOverflows_second, ← toInt_signExtend_immediate]
      exact (operationOf_checked_add _ _ _).symm
  | addu =>
      cases defined
      exact congrArg (registers.write _) (ofInt_toInt_add _ _).symm
  | addiu =>
      cases defined
      dsimp only
      rw [immediate rfl, ← toInt_signExtend_immediate]
      exact congrArg (registers.write _) (ofInt_toInt_add _ _).symm
  | subu =>
      cases defined
      exact congrArg (registers.write _) (ofInt_toInt_sub _ _).symm
  | and | xor | nor =>
      cases defined
      rfl
  | andi | ori | xori =>
      cases defined
      dsimp only
      rw [immediate rfl, signExtend_and_mask]
      rfl
  | lui =>
      cases defined
      dsimp only
      rw [immediate rfl, signExtend_shiftLeft]
      rfl
  | sll | sra =>
      cases defined
      dsimp only
      rw [shift rfl, BitVec.toNat_setWidth_of_le (by decide)]
      rfl
  | sllv | srav =>
      cases defined
      dsimp only
      rw [toNat_and_amount]
      rfl
  | slt | sltu =>
      cases defined
      simp only [BitVec.slt, BitVec.ult, decide_eq_true_eq]
      rfl
  | slti | sltiu =>
      cases defined
      dsimp only
      rw [immediate rfl]
      simp only [BitVec.slt, BitVec.ult, decide_eq_true_eq, toInt_signExtend_immediate]
      rfl
  | or => exact absurd rfl regular.1
  | srl => exact absurd rfl regular.2.1
  | srlv => exact absurd rfl regular.2.2
  | _ => cases defined

/-- `OP_OR` takes its first operand twice. -/
theorem operation_or (op : (Instruction.decode word).opCode = .or) :
    (Instruction.decode word).operation registers =
      registers.write (Manual.rdField word) (registers.general (Manual.rsField word) |||
        registers.general (Manual.rsField word)) := by
  unfold Instruction.operation
  rw [op]
  rfl

/-- `OP_SRL` shifts an `int`. -/
theorem operation_srl (op : (Instruction.decode word).opCode = .srl) :
    (Instruction.decode word).operation registers =
      registers.write (Manual.rdField word) ((registers.general
        (Manual.rtField word)).sshiftRight (Manual.shiftAmount word).toNat) := by
  have shift := @Instruction.extra_decode_shift word
  unfold Instruction.operation
  rw [shift (by rw [op]; rfl), op]
  dsimp only
  rw [BitVec.toNat_setWidth_of_le (by decide)]
  rfl

theorem operation_srlv (op : (Instruction.decode word).opCode = .srlv) :
    (Instruction.decode word).operation registers =
      registers.write (Manual.rdField word) ((registers.general
        (Manual.rtField word)).sshiftRight (Manual.variableAmount
          (registers.general (Manual.rsField word)))) := by
  rw [← toNat_and_amount]
  unfold Instruction.operation
  rw [op]
  rfl

theorem operandsAgree_of_regular {opCode : OpCode}
    (regular : opCode ≠ .or ∧ opCode ≠ .srl ∧ opCode ≠ .srlv) :
    OperandsAgree opCode word registers.general := by
  unfold OperandsAgree
  cases opCode with
  | or => exact absurd rfl regular.1
  | srl => exact absurd rfl regular.2.1
  | srlv => exact absurd rfl regular.2.2
  | _ => trivial

theorem oneInstruction_of_fetched
    (fetched : s.readMem handler s.registers.pc 4 = .ok (some word, s1)) :
    s.oneInstruction handler = s1.perform handler (Instruction.decode word) := by
  unfold oneInstruction
  rw [fetched]
  rfl

theorem performs_overflow (fetched : s.readMem handler s.registers.pc 4 = .ok (some word, s1))
    (faults : (Instruction.decode word).operation s1.registers = .fault .overflow 0) :
    s.Performs handler s1 .overflow := by
  unfold Performs
  rw [oneInstruction_of_fetched fetched]
  unfold perform execute
  rw [faults]
  unfold carryOut
  dsimp only
  cases s1.raiseException handler .overflow 0 with
  | error crash => rfl
  | ok after => rfl

/-- The registers behind an assignment, when no load is pending. -/
theorem general_advance_write (idle : s.registers.loadReg = 0) (reg : RegisterNumber)
    (value pcAfter : CInt) (r : RegisterNumber) :
    ({ s with registers := s.registers.set reg value }.advance
      ⟨pcAfter, 0, 0⟩).registers.general r =
        if r = 0 then 0 else if r = reg then value else s.registers.general r := by
  simp only [advance, Registers.delayedLoad, Registers.set, idle, Function.update_apply]
  split <;> rfl

theorem performs_result_iff (fetched : s.readMem handler s.registers.pc 4 = .ok (some word, s1))
    (idle : s1.registers.loadReg = 0) {reg : RegisterNumber} {computed value : CInt}
    (writes : (Instruction.decode word).operation s1.registers =
      s1.registers.write reg computed) :
    s.Performs handler s1 (.result reg value) ↔ reg = 0 ∨ computed = value := by
  have done : s.oneInstruction handler = .ok (true,
      { s1 with registers := s1.registers.set reg computed }.advance
        ⟨s1.registers.nextPC + 4, 0, 0⟩) := by
    rw [oneInstruction_of_fetched fetched]
    unfold perform execute
    rw [writes]
    rfl
  unfold Performs
  rw [done]
  constructor
  · rintro ⟨after, same, _, general⟩
    cases same
    have written := general reg
    rw [general_advance_write idle, if_pos rfl] at written
    by_cases zero : reg = 0
    · exact Or.inl zero
    · right
      rwa [if_neg zero, if_neg zero, if_pos rfl] at written
  · intro agrees
    refine ⟨_, rfl, rfl, ?_⟩
    intro r
    rw [general_advance_write idle]
    rcases agrees with rfl | rfl
    · by_cases zero : r = 0
      · rw [if_pos zero, if_pos zero]
      · rw [if_neg zero, if_neg zero, if_neg zero, if_neg zero]
    · rfl

/-- An integer instruction does what the manual says if and only if it is none of the three,
or its operands do not show the difference. -/
theorem performs_iff_operandsAgree (handler : TrapHandler) {s s1 : Processor} {word : CInt}
    {effect : Effect} (fetched : s.readMem handler s.registers.pc 4 = .ok (some word, s1))
    (idle : s1.registers.loadReg = 0)
    (defined : Manual.effect (Instruction.decode word).opCode word s1.registers.general =
      some effect) :
    s.Performs handler s1 effect ↔
      OperandsAgree (Instruction.decode word).opCode word s1.registers.general := by
  by_cases regular : (Instruction.decode word).opCode ≠ .or ∧
    (Instruction.decode word).opCode ≠ .srl ∧ (Instruction.decode word).opCode ≠ .srlv
  · have executed := operation_eq_operationOf regular defined
    rw [iff_true_right (operandsAgree_of_regular regular)]
    cases effect with
    | overflow => exact performs_overflow fetched executed
    | result reg value => exact (performs_result_iff fetched idle executed).mpr (Or.inr rfl)
  · have cases : (Instruction.decode word).opCode = .or ∨
        (Instruction.decode word).opCode = .srl ∨ (Instruction.decode word).opCode = .srlv := by
      simpa only [ne_eq, not_and_or, not_not] using regular
    rcases cases with op | op | op
    · have executed := @operation_or word s1.registers op
      rw [op] at defined ⊢
      cases defined
      rw [performs_result_iff fetched idle executed, or_self_eq_or_iff]
      rfl
    · have executed := @operation_srl word s1.registers op
      have few := (Manual.shiftAmount word).isLt
      rw [op] at defined ⊢
      cases defined
      rw [performs_result_iff fetched idle executed, sshiftRight_eq_ushiftRight_iff _ few]
      exact or_congr_right (or_congr_left (BitVec.toNat_inj (y := 0)))
    · have executed := @operation_srlv word s1.registers op
      have few : Manual.variableAmount (s1.registers.general (Manual.rsField word)) < 32 :=
        Nat.mod_lt _ (by decide)
      rw [op] at defined ⊢
      cases defined
      rw [performs_result_iff fetched idle executed, sshiftRight_eq_ushiftRight_iff _ few]
      rfl

set_option maxRecDepth 4000 in
/-- `ADDIU r8, r9, -1` with 3 in register 9. -/
theorem performs_addiu :
    ∃ handler s s1, fetchOne handler 0x2528ffff 3 0 = .ok (s, some 0x2528ffff, s1) ∧
      s.Performs handler s1 (.result 8 2) := by
  have facts : (fetchOne (kernelHandler fun _ registers sys => .ok (registers, sys))
      0x2528ffff 3 0).map (fun (_, read, s1) => (read, s1.registers.loadReg, Manual.effect
        (Instruction.decode 0x2528ffff).opCode 0x2528ffff s1.registers.general)) =
          .ok (some 0x2528ffff, 0, some (.result 8 2)) := by
    decide +kernel
  obtain ⟨⟨s, read, s1⟩, done, facts⟩ := map_eq_ok_iff.mp facts
  simp only [Prod.mk.injEq] at facts
  obtain ⟨rfl, idle, defined⟩ := facts
  exact ⟨_, s, s1, done,
    (performs_iff_operandsAgree _ (fetchOne_eq_ok done) idle defined).mpr trivial⟩

set_option maxRecDepth 4000 in
/-- `OR r8, r9, r10` of 1 and 2 gives 1, and `SRL r8, r10, 1` of the word with only the sign bit
gives that word with the next bit set as well. -/
theorem not_performs_or_srl :
    (∃ handler s s1, fetchOne handler 0x012a4025 1 2 = .ok (s, some 0x012a4025, s1) ∧
      s1.registers.loadReg = 0 ∧
      Manual.effect (Instruction.decode 0x012a4025).opCode 0x012a4025 s1.registers.general =
        some (.result 8 3) ∧ ¬ s.Performs handler s1 (.result 8 3)) ∧
    ∃ handler s s1, fetchOne handler 0x000a4042 0 0x80000000 = .ok (s, some 0x000a4042, s1) ∧
      s1.registers.loadReg = 0 ∧
      Manual.effect (Instruction.decode 0x000a4042).opCode 0x000a4042 s1.registers.general =
        some (.result 8 0x40000000) ∧ ¬ s.Performs handler s1 (.result 8 0x40000000) := by
  constructor
  · have facts : (fetchOne (kernelHandler fun _ registers sys => .ok (registers, sys))
        0x012a4025 1 2).map (fun (_, read, s1) => (read, s1.registers.loadReg, Manual.effect
          (Instruction.decode 0x012a4025).opCode 0x012a4025 s1.registers.general,
          s1.registers.general 9)) = .ok (some 0x012a4025, 0, some (.result 8 3), 1) := by
      decide +kernel
    obtain ⟨⟨s, read, s1⟩, done, facts⟩ := map_eq_ok_iff.mp facts
    simp only [Prod.mk.injEq] at facts
    obtain ⟨rfl, idle, defined, value⟩ := facts
    refine ⟨_, s, s1, done, idle, defined, ?_⟩
    have executed : (Instruction.decode 0x012a4025).operation s1.registers =
        s1.registers.write 8 (s1.registers.general 9 ||| s1.registers.general 9) := rfl
    rw [performs_result_iff (fetchOne_eq_ok done) idle executed, value]
    decide
  · have facts : (fetchOne (kernelHandler fun _ registers sys => .ok (registers, sys))
        0x000a4042 0 0x80000000).map (fun (_, read, s1) => (read, s1.registers.loadReg,
          Manual.effect (Instruction.decode 0x000a4042).opCode 0x000a4042 s1.registers.general,
          s1.registers.general 10)) =
            .ok (some 0x000a4042, 0, some (.result 8 0x40000000), 0x80000000) := by
      decide +kernel
    obtain ⟨⟨s, read, s1⟩, done, facts⟩ := map_eq_ok_iff.mp facts
    simp only [Prod.mk.injEq] at facts
    obtain ⟨rfl, idle, defined, value⟩ := facts
    refine ⟨_, s, s1, done, idle, defined, ?_⟩
    have executed : (Instruction.decode 0x000a4042).operation s1.registers =
        s1.registers.write 8 ((s1.registers.general 10).sshiftRight 1) := rfl
    rw [performs_result_iff (fetchOne_eq_ok done) idle executed, value]
    decide

end Processor

end Nachos
