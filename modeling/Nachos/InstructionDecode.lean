import Nachos.CIntegers

/-!
# Decoding instructions

`Instruction::Decode` of `machine/mipssim.cc` and the tables of `machine/mipssim.h`.  The
upper six bits of an instruction word select an entry of `opTable`, which gives the format
of the other bits.  Two of its entries stand for a further choice, by the lower six bits or
by the bits of `rt`.
-/

namespace Nachos

/-- The `OP_` values.  `unimp` is legal but not implemented, and `res` is reserved. -/
inductive OpCode where
  | add | addi | addiu | addu | and | andi
  | beq | bgez | bgezal | bgtz | blez | bltz | bltzal | bne
  | div | divu | j | jal | jalr | jr
  | lb | lbu | lh | lhu | lui | lw | lwl | lwr
  | mfhi | mflo | mthi | mtlo | mult | multu
  | nor | or | ori | rfe | sb | sh | sll | sllv | slt | slti | sltiu | sltu
  | sra | srav | srl | srlv | sub | subu | sw | swl | swr
  | xor | xori | syscall | unimp | res
  deriving DecidableEq, Repr

/-- `IFMT`, `JFMT` and `RFMT`. -/
inductive Format where
  | ifmt
  | jfmt
  | rfmt
  deriving DecidableEq

/-- The `opCode` of an entry of `opTable`: an operation, `SPECIAL`, or `BCOND`. -/
inductive OpKind where
  | op (opCode : OpCode)
  | special
  | bcond
  deriving DecidableEq

structure OpInfo where
  opCode : OpKind
  format : Format
  deriving DecidableEq

def opTable : Vector OpInfo 64 := #v[
  ⟨.special, .rfmt⟩, ⟨.bcond, .ifmt⟩, ⟨.op .j, .jfmt⟩, ⟨.op .jal, .jfmt⟩,
  ⟨.op .beq, .ifmt⟩, ⟨.op .bne, .ifmt⟩, ⟨.op .blez, .ifmt⟩, ⟨.op .bgtz, .ifmt⟩,
  ⟨.op .addi, .ifmt⟩, ⟨.op .addiu, .ifmt⟩, ⟨.op .slti, .ifmt⟩, ⟨.op .sltiu, .ifmt⟩,
  ⟨.op .andi, .ifmt⟩, ⟨.op .ori, .ifmt⟩, ⟨.op .xori, .ifmt⟩, ⟨.op .lui, .ifmt⟩,
  ⟨.op .unimp, .ifmt⟩, ⟨.op .unimp, .ifmt⟩, ⟨.op .unimp, .ifmt⟩, ⟨.op .unimp, .ifmt⟩,
  ⟨.op .res, .ifmt⟩, ⟨.op .res, .ifmt⟩, ⟨.op .res, .ifmt⟩, ⟨.op .res, .ifmt⟩,
  ⟨.op .res, .ifmt⟩, ⟨.op .res, .ifmt⟩, ⟨.op .res, .ifmt⟩, ⟨.op .res, .ifmt⟩,
  ⟨.op .res, .ifmt⟩, ⟨.op .res, .ifmt⟩, ⟨.op .res, .ifmt⟩, ⟨.op .res, .ifmt⟩,
  ⟨.op .lb, .ifmt⟩, ⟨.op .lh, .ifmt⟩, ⟨.op .lwl, .ifmt⟩, ⟨.op .lw, .ifmt⟩,
  ⟨.op .lbu, .ifmt⟩, ⟨.op .lhu, .ifmt⟩, ⟨.op .lwr, .ifmt⟩, ⟨.op .res, .ifmt⟩,
  ⟨.op .sb, .ifmt⟩, ⟨.op .sh, .ifmt⟩, ⟨.op .swl, .ifmt⟩, ⟨.op .sw, .ifmt⟩,
  ⟨.op .res, .ifmt⟩, ⟨.op .res, .ifmt⟩, ⟨.op .swr, .ifmt⟩, ⟨.op .res, .ifmt⟩,
  ⟨.op .unimp, .ifmt⟩, ⟨.op .unimp, .ifmt⟩, ⟨.op .unimp, .ifmt⟩, ⟨.op .unimp, .ifmt⟩,
  ⟨.op .res, .ifmt⟩, ⟨.op .res, .ifmt⟩, ⟨.op .res, .ifmt⟩, ⟨.op .res, .ifmt⟩,
  ⟨.op .unimp, .ifmt⟩, ⟨.op .unimp, .ifmt⟩, ⟨.op .unimp, .ifmt⟩, ⟨.op .unimp, .ifmt⟩,
  ⟨.op .res, .ifmt⟩, ⟨.op .res, .ifmt⟩, ⟨.op .res, .ifmt⟩, ⟨.op .res, .ifmt⟩]

def specialTable : Vector OpCode 64 := #v[
  .sll, .res, .srl, .sra, .sllv, .res, .srlv, .srav,
  .jr, .jalr, .res, .res, .syscall, .unimp, .res, .res,
  .mfhi, .mthi, .mflo, .mtlo, .res, .res, .res, .res,
  .mult, .multu, .div, .divu, .res, .res, .res, .res,
  .add, .addu, .sub, .subu, .and, .or, .xor, .nor,
  .res, .res, .slt, .sltu, .res, .res, .res, .res,
  .res, .res, .res, .res, .res, .res, .res, .res,
  .res, .res, .res, .res, .res, .res, .res, .res]

/-- The number of a general register. -/
abbrev RegisterNumber := BitVec 5

/-- `class Instruction`. -/
structure Instruction where
  opCode : OpCode
  rs : RegisterNumber
  rt : RegisterNumber
  rd : RegisterNumber
  extra : CInt
  deriving DecidableEq

namespace Instruction

/-- The entry of `opTable` for the word. -/
def opInfo (value : CInt) : OpInfo :=
  opTable.get (value.extractLsb' 26 6).toFin

/-- The choice that `BCOND` stands for, by the bits of `rt`. -/
def branchCode (rt : RegisterNumber) : OpCode :=
  if rt = 0 then .bltz
  else if rt = 1 then .bgez
  else if rt = 16 then .bltzal
  else if rt = 17 then .bgezal
  else .unimp

def opCodeOf (value : CInt) : OpKind → OpCode
  | .op opCode => opCode
  | .special => specialTable.get (value.extractLsb' 0 6).toFin
  | .bcond => branchCode (value.extractLsb' 16 5)

/-- The operand that does not come from a register: an immediate value with its sign, a
shift amount, or a jump target. -/
def extraOf (value : CInt) : Format → CInt
  | .ifmt => (value.extractLsb' 0 16).signExtend 32
  | .rfmt => (value.extractLsb' 6 5).setWidth 32
  | .jfmt => (value.extractLsb' 0 26).setWidth 32

/-- `Instruction::Decode`. -/
def decode (value : CInt) : Instruction where
  opCode := opCodeOf value (opInfo value).opCode
  rs := value.extractLsb' 21 5
  rt := value.extractLsb' 16 5
  rd := value.extractLsb' 11 5
  extra := extraOf value (opInfo value).format

/-- No word decodes to `RFE`, for which the simulator has no case. -/
theorem opCode_decode_ne_rfe (value : CInt) : (decode value).opCode ≠ .rfe := by
  have inOpTable : ∀ index : Fin 64, (opTable.get index).opCode ≠ .op .rfe := by decide +kernel
  have inSpecialTable : ∀ index : Fin 64, specialTable.get index ≠ .rfe := by decide +kernel
  have inBranches : ∀ rt : RegisterNumber, branchCode rt ≠ .rfe := by
    intro rt
    unfold branchCode
    repeat' split
    all_goals nofun
  have entry := inOpTable (value.extractLsb' 26 6).toFin
  change opCodeOf value (opTable.get (value.extractLsb' 26 6).toFin).opCode ≠ .rfe
  cases kind : (opTable.get (value.extractLsb' 26 6).toFin).opCode with
  | op opCode =>
      rw [kind] at entry
      intro isRfe
      apply entry
      rw [← isRfe]
      rfl
  | special => exact inSpecialTable _
  | bcond => exact inBranches _

example : decode 0x2048fffe = ⟨.addi, 2, 8, 31, -2⟩ := by decide

example : decode 0x000840c2 = ⟨.srl, 0, 8, 8, 3⟩ := by decide

end Instruction

end Nachos
