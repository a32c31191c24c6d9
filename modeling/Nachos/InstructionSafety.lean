import Nachos.InstructionRestart

/-!
# Instructions that stop the simulator

Every word decodes to an instruction that has a case.  Two kinds of instructions depend on
their operands: those for unaligned words hold an `ASSERT` that the address is aligned, and
`OP_DIV` leaves the overflow of the quotient to the host.
-/

namespace Nachos

open TransitionRuns

namespace Instruction

/-- The instructions for words that may cross the boundary of aligned ones. -/
def accessesPart (instr : Instruction) : Bool :=
  instr.opCode = .lwl || instr.opCode = .lwr || instr.opCode = .swl || instr.opCode = .swr

/-- The operands with which the case of the instruction stops the simulator. -/
def StopsOn (instr : Instruction) (registers : Registers) : Prop :=
  (instr.accessesPart = true ∧ (registers.general instr.rs + instr.extra) &&& 3 ≠ 0) ∨
    (instr.opCode = .div ∧ registers.general instr.rs = signBit ∧
      registers.general instr.rt = -1)

theorem operation_accessesPart {instr : Instruction} (part : instr.accessesPart = true)
    (registers : Registers) :
    ∃ operation, (∀ reason, operation ≠ .crash reason) ∧ instr.operation registers =
      assertAligned (registers.general instr.rs + instr.extra) operation := by
  rcases instr with ⟨opCode, rs, rt, rd, extra⟩
  unfold operation
  cases opCode with
  | lwl | lwr => exact ⟨.load _ _ _ _, (fun _ same => by cases same), rfl⟩
  | swl | swr => exact ⟨.update _ _, (fun _ same => by cases same), rfl⟩
  | _ => cases part

theorem operation_div {instr : Instruction} (isDiv : instr.opCode = .div) (registers : Registers) :
    instr.operation registers =
      if registers.general instr.rt = 0 then registers.writeHiLo 0 0
      else registers.divide (registers.general instr.rs) (registers.general instr.rt) := by
  unfold operation
  rw [isDiv]

/-- The other cases do not stop the simulator. -/
theorem operation_ne_crash {instr : Instruction} (whole : instr.accessesPart = false)
    (notDiv : instr.opCode ≠ .div) (isCase : instr.opCode ≠ .rfe) (registers : Registers)
    (reason : Crash) : instr.operation registers ≠ .crash reason := by
  rcases instr with ⟨opCode, rs, rt, rd, extra⟩
  unfold operation
  intro same
  cases opCode with
  | add | addi | sub | divu | lh | lhu | lw =>
      dsimp only at same
      split at same <;> cases same
  | lwl | lwr | swl | swr => cases whole
  | div => exact notDiv rfl
  | rfe => exact isCase rfl
  | _ => cases same

/-- The operands decide whether an instruction stops the simulator. -/
theorem operation_crashes_iff {instr : Instruction} (isCase : instr.opCode ≠ .rfe)
    (registers : Registers) :
    (instr.operation registers = .crash .assertion ∨
      instr.operation registers = .crash .undefinedOperation) ↔ instr.StopsOn registers := by
  unfold StopsOn
  cases part : instr.accessesPart with
  | true =>
      have notDiv : instr.opCode ≠ .div := by
        intro isDiv
        unfold accessesPart at part
        rw [isDiv] at part
        cases part
      rcases operation_accessesPart part registers with ⟨operation, goesOn, same⟩
      rw [same]
      unfold assertAligned
      by_cases aligned : (registers.general instr.rs + instr.extra) &&& 3 = 0
      · rw [if_pos aligned]
        constructor
        · rintro (stops | stops) <;> exact absurd stops (goesOn _)
        · rintro (⟨_, unaligned⟩ | ⟨isDiv, _⟩)
          · exact absurd aligned unaligned
          · exact absurd isDiv notDiv
      · rw [if_neg aligned]
        exact ⟨fun _ => Or.inl ⟨rfl, aligned⟩, fun _ => Or.inl rfl⟩
  | false =>
      by_cases isDiv : instr.opCode = .div
      · rw [operation_div isDiv]
        unfold Registers.divide
        by_cases overflows : registers.general instr.rs = signBit ∧
          registers.general instr.rt = -1
        · have nonzero : registers.general instr.rt ≠ 0 := by
            rw [overflows.2]
            decide
          rw [if_neg nonzero, if_pos overflows]
          exact ⟨fun _ => Or.inr ⟨isDiv, overflows⟩, fun _ => Or.inr rfl⟩
        · rw [if_neg overflows]
          constructor
          · rintro (stops | stops) <;> split at stops <;> cases stops
          · rintro (⟨wrong, _⟩ | ⟨_, overflow⟩)
            · cases wrong
            · exact absurd overflow overflows
      · constructor
        · rintro (stops | stops) <;>
            exact absurd stops (operation_ne_crash part isDiv isCase registers _)
        · rintro (⟨wrong, _⟩ | ⟨division, _⟩)
          · cases wrong
          · exact absurd division isDiv

end Instruction

namespace Processor

/-- The instruction comes to its end or raises an exception, unless the memory or the kernel
stops the simulator. -/
def StaysUp (handler : TrapHandler) (s : Processor) : Prop :=
  match s.oneInstruction handler with
  | .ok (ended, after) => ended = true ∨ s.raised.length < after.raised.length
  | .error (.system _) => True
  | .error .assertion | .error .undefinedOperation => False

variable {handler : TrapHandler} {s after : Processor}

theorem stops_of_raiseException {which : Trap} {badVAddr : CInt} {reason : Crash}
    (stopped : s.raiseException handler which badVAddr = .error reason) :
    ∃ fault, reason = .system fault := by
  have access := @IsAccess.raise handler _ which badVAddr _ (IsAccess.return_ ())
  apply access.stops s reason
  rw [stopped]
  rfl

/-- Only operations of this kind stop the simulator within `OneInstruction`. -/
theorem carryOut_eq_error {operation : Operation} {reason : Crash}
    (stopped : s.carryOut handler operation = .error reason) :
    operation = .crash reason ∨ ∃ fault, reason = .system fault := by
  cases operation with
  | goOn written hi lo pcAfter => cases stopped
  | fault which badVAddr =>
      rcases bind_eq_error_iff.mp stopped with failed | ⟨handled, _, wrong⟩
      · exact Or.inr (stops_of_raiseException failed)
      · cases wrong
  | load addr size reg value =>
      rcases bind_eq_error_iff.mp stopped with failed | ⟨⟨read, last⟩, _, wrong⟩
      · exact Or.inr ((isAccess_readMem addr size).stops s reason failed)
      · cases read <;> cases wrong
  | store addr size value =>
      rcases bind_eq_error_iff.mp stopped with failed | ⟨⟨written, last⟩, _, wrong⟩
      · exact Or.inr ((isAccess_writeMem addr size value).stops s reason failed)
      · cases written <;> cases wrong
  | update addr value =>
      rcases bind_eq_error_iff.mp stopped with failed | ⟨⟨read, middle⟩, _, stopped⟩
      · exact Or.inr ((isAccess_readMem addr 4).stops s reason failed)
      · cases read with
        | none => cases stopped
        | some data =>
            rcases bind_eq_error_iff.mp stopped with failed | ⟨⟨written, last⟩, _, wrong⟩
            · exact Or.inr ((isAccess_writeMem addr 4 _).stops middle reason failed)
            · cases written <;> cases wrong
  | crash own =>
      cases stopped
      exact Or.inl rfl

theorem oneInstruction_of_crash {word : CInt} {fetched : Processor} {reason : Crash}
    (fetching : s.readMem handler s.registers.pc 4 = .ok (some word, fetched))
    (crashes : (Instruction.decode word).operation fetched.registers = .crash reason) :
    s.oneInstruction handler = .error reason := by
  unfold oneInstruction
  rw [fetching]
  change fetched.perform handler (Instruction.decode word) = _
  unfold perform execute
  rw [crashes]
  rfl

theorem oneInstruction_eq_error {reason : Crash}
    (stopped : s.oneInstruction handler = .error reason) :
    (∃ fault, reason = .system fault) ∨ ∃ word fetched,
      s.readMem handler s.registers.pc 4 = .ok (some word, fetched) ∧
        (Instruction.decode word).operation fetched.registers = .crash reason := by
  rcases bind_eq_error_iff.mp stopped with failed | ⟨⟨raw, fetched⟩, fetching, stopped⟩
  · exact Or.inl ((isAccess_readMem s.registers.pc 4).stops s reason failed)
  · cases raw with
    | none => cases stopped
    | some word =>
        rcases bind_eq_error_iff.mp stopped with failed | ⟨⟨completion, last⟩, _, wrong⟩
        · rcases carryOut_eq_error failed with crashes | system
          · exact Or.inr ⟨word, fetched, fetching, crashes⟩
          · exact Or.inl system
        · cases completion <;> cases wrong

theorem not_staysUp_of_crash {word : CInt} {fetched : Processor} {reason : Crash}
    (fetching : s.readMem handler s.registers.pc 4 = .ok (some word, fetched))
    (crashes : (Instruction.decode word).operation fetched.registers = .crash reason)
    (own : reason = .assertion ∨ reason = .undefinedOperation) : ¬ s.StaysUp handler := by
  unfold StaysUp
  rw [oneInstruction_of_crash fetching crashes]
  rcases own with rfl | rfl
  · exact id
  · exact id

/-- An instruction does not stop the simulator if and only if its operands are fine for the
case that it leads to. -/
theorem staysUp_iff (handler : TrapHandler) (s : Processor) :
    s.StaysUp handler ↔ ∀ word fetched,
      s.readMem handler s.registers.pc 4 = .ok (some word, fetched) →
        ¬ (Instruction.decode word).StopsOn fetched.registers := by
  have crashes_iff := fun word registers =>
    Instruction.operation_crashes_iff (Instruction.opCode_decode_ne_rfe word) registers
  constructor
  · intro up word fetched fetching stopsOn
    rcases (crashes_iff word fetched.registers).mpr stopsOn with crashes | crashes
    · exact not_staysUp_of_crash fetching crashes (Or.inl rfl) up
    · exact not_staysUp_of_crash fetching crashes (Or.inr rfl) up
  · intro fine
    unfold StaysUp
    cases done : s.oneInstruction handler with
    | ok result =>
        rcases result with ⟨ended, after⟩
        rcases oneInstruction_eq_ok done with ⟨ended, _⟩ | ⟨_, trapped, _⟩
        · exact Or.inl ended
        · exact Or.inr trapped.1
    | error reason =>
        rcases oneInstruction_eq_error done with ⟨fault, rfl⟩ | ⟨word, fetched, fetching, crashes⟩
        · trivial
        · have stops := fine word fetched fetching
          rw [← crashes_iff] at stops
          cases reason with
          | assertion => exact stops (Or.inl crashes)
          | undefinedOperation => exact stops (Or.inr crashes)
          | system fault => trivial

set_option maxRecDepth 4000 in
/-- `LWL r8, 1(r9)` with 0 in register 9, and `DIV r9, r10` of the least `int` and -1. -/
theorem not_staysUp :
    (∃ handler s s1, fetchOne handler 0x89280001 0 0 = .ok (s, some 0x89280001, s1) ∧
      s.oneInstruction handler = .error .assertion ∧ ¬ s.StaysUp handler) ∧
    ∃ handler s s1, fetchOne handler 0x012a001a 0x80000000 (-1) = .ok (s, some 0x012a001a, s1) ∧
      s.oneInstruction handler = .error .undefinedOperation ∧ ¬ s.StaysUp handler := by
  constructor
  · have facts : (fetchOne (kernelHandler fun _ registers sys => .ok (registers, sys))
        0x89280001 0 0).map (fun (_, read, s1) => (read, s1.registers.general 9)) =
          .ok (some 0x89280001, 0) := by
      decide +kernel
    rcases map_eq_ok_iff.mp facts with ⟨⟨s, read, s1⟩, done, facts⟩
    simp only [Prod.mk.injEq] at facts
    rcases facts with ⟨rfl, value⟩
    have crashes : (Instruction.decode 0x89280001).operation s1.registers =
        .crash .assertion := by
      change assertAligned (s1.registers.general 9 + 1) _ = _
      rw [value]
      rfl
    exact ⟨_, s, s1, done, oneInstruction_of_crash (fetchOne_eq_ok done) crashes,
      not_staysUp_of_crash (fetchOne_eq_ok done) crashes (Or.inl rfl)⟩
  · have facts : (fetchOne (kernelHandler fun _ registers sys => .ok (registers, sys))
        0x012a001a 0x80000000 (-1)).map (fun (_, read, s1) =>
          (read, s1.registers.general 9, s1.registers.general 10)) =
            .ok (some 0x012a001a, 0x80000000, -1) := by
      decide +kernel
    rcases map_eq_ok_iff.mp facts with ⟨⟨s, read, s1⟩, done, facts⟩
    simp only [Prod.mk.injEq] at facts
    rcases facts with ⟨rfl, first, second⟩
    have crashes : (Instruction.decode 0x012a001a).operation s1.registers =
        .crash .undefinedOperation := by
      change (if s1.registers.general 10 = 0 then _ else
        s1.registers.divide (s1.registers.general 9) (s1.registers.general 10)) = _
      rw [first, second]
      rfl
    exact ⟨_, s, s1, done, oneInstruction_of_crash (fetchOne_eq_ok done) crashes,
      not_staysUp_of_crash (fetchOne_eq_ok done) crashes (Or.inr rfl)⟩

end Processor

end Nachos
