import Nachos.MemoryAccesses

/-!
# Restarting instructions

An instruction that raises an exception can be executed again: nothing of it has happened,
apart from the completion of the load that was in progress.  Register 0 is zero behind every
instruction.
-/

namespace Nachos

open TransitionRuns

namespace UserSystem

variable {sys after : UserSystem}

theorem mainMemory_updatePageTable (done : sys.updatePageTable = .ok after) :
    after.machine.mainMemory = sys.machine.mainMemory := by
  rcases updatePageTable_eq_ok done with ⟨_, _, _, _, _, _, _, _, _, _, _, _, _, _, _, machine, _⟩
  rw [machine]

theorem mainMemory_translatePTE (done : sys.translatePTE = .ok after) :
    after.machine.mainMemory = sys.machine.mainMemory := by
  rcases bind_eq_ok_iff.mp done with ⟨raised, raising, done⟩
  have kept : raised.machine.mainMemory = sys.machine.mainMemory := by
    rcases bind_eq_ok_iff.mp raising with ⟨missing, _, raising⟩
    cases missing with
    | false =>
        cases raising
        rfl
    | true =>
        have updated := mainMemory_updatePageTable raising
        exact updated
  dsimp only at done
  split at done
  · cases done
  · rcases bind_eq_ok_iff.mp done with ⟨table, _, done⟩
    rcases bind_eq_ok_iff.mp done with ⟨entry, _, done⟩
    split at done
    · cases done
    · cases done
      exact kept

theorem mainMemory_exceptionHandler {exception : ExceptionType}
    (done : sys.exceptionHandler exception = .ok after) :
    after.machine.mainMemory = sys.machine.mainMemory := by
  cases exception with
  | tlbPageFault => exact mainMemory_translatePTE done
  | ptePageFault => exact mainMemory_updatePageTable done
  | pageFault | readOnly | busError | addressError => cases done

end UserSystem

/-- The handler of the kernel leaves the program alone when the other handler does. -/
theorem changesNoUserState_kernelHandler {other : TrapHandler}
    (transparent : other.ChangesNoUserState) : (kernelHandler other).ChangesNoUserState := by
  intro which registers sys registers' sys' answered
  cases which with
  | memory exception =>
      rcases map_eq_ok_iff.mp answered with ⟨handled, handling, same⟩
      cases same
      exact ⟨rfl, UserSystem.mainMemory_exceptionHandler handling⟩
  | syscall | overflow | illegalInstr => exact transparent _ _ _ _ _ answered

namespace Registers

variable {before after : Registers}

/-- The general registers when the load in progress is completed. -/
def completed (registers : Registers) (r : RegisterNumber) : CInt :=
  if r = 0 then 0
  else if r = registers.loadReg then registers.loadValue
  else registers.general r

theorem Settled.general (settled : before.Settled after) (r : RegisterNumber) :
    after.general r = before.completed r := by
  rcases settled with ⟨badVAddr, rfl⟩
  simp only [delayedLoad, set, Function.update_apply, completed]

end Registers

namespace Processor

variable {handler : TrapHandler} {s after : Processor}

/-- The ways in which an operation is given up: the one write to memory comes last. -/
theorem carryOut_eq_none {operation : Operation}
    (done : s.carryOut handler operation = .ok (none, after)) :
    (∃ which badVAddr, s.raiseException handler which badVAddr = .ok after) ∨
      (∃ addr size, s.readMem handler addr size = .ok (none, after)) ∨
      (∃ addr size value, s.writeMem handler addr size value = .ok (false, after)) ∨
      ∃ addr data middle value, s.readMem handler addr 4 = .ok (some data, middle) ∧
        middle.writeMem handler addr 4 value = .ok (false, after) := by
  cases operation with
  | goOn written hi lo pcAfter => cases done
  | fault which badVAddr =>
      rcases bind_eq_ok_iff.mp done with ⟨handled, raising, done⟩
      cases done
      exact Or.inl ⟨which, badVAddr, raising⟩
  | load addr size reg value =>
      rcases bind_eq_ok_iff.mp done with ⟨⟨read, last⟩, reading, done⟩
      cases read with
      | none =>
          cases done
          exact Or.inr (Or.inl ⟨addr, size, reading⟩)
      | some data => cases done
  | store addr size value =>
      rcases bind_eq_ok_iff.mp done with ⟨⟨written, last⟩, writing, done⟩
      cases written with
      | false =>
          cases done
          exact Or.inr (Or.inr (Or.inl ⟨addr, size, value, writing⟩))
      | true => cases done
  | update addr value =>
      rcases bind_eq_ok_iff.mp done with ⟨⟨read, middle⟩, reading, done⟩
      cases read with
      | none =>
          cases done
          exact Or.inr (Or.inl ⟨addr, 4, reading⟩)
      | some data =>
          rcases bind_eq_ok_iff.mp done with ⟨⟨written, last⟩, writing, done⟩
          cases written with
          | false =>
              cases done
              exact Or.inr (Or.inr (Or.inr ⟨addr, data, middle, _, reading, writing⟩))
          | true => cases done
  | crash reason => cases done

/-- An operation that is given up has raised an exception. -/
theorem trapped_of_carryOut {operation : Operation}
    (done : s.carryOut handler operation = .ok (none, after)) : Trapped handler s after := by
  rcases carryOut_eq_none done with ⟨which, badVAddr, raising⟩ | ⟨addr, size, reading⟩ |
    ⟨addr, size, value, writing⟩ | ⟨addr, data, middle, value, reading, writing⟩
  · exact trapped_of_raiseException raising
  · exact readMem_eq_none reading
  · exact writeMem_eq_false writing
  · exact (writeMem_eq_false writing).behind
      ((isAccess_readMem addr 4).outcome s _ middle reading)

/-- No part of it has been done. -/
theorem sameMemory_carryOut (transparent : handler.ChangesNoUserState) {operation : Operation}
    (done : s.carryOut handler operation = .ok (none, after)) : s.SameMemory after := by
  rcases carryOut_eq_none done with ⟨which, badVAddr, raising⟩ | ⟨addr, size, reading⟩ |
    ⟨addr, size, value, writing⟩ | ⟨addr, data, middle, value, reading, writing⟩
  · exact sameMemory_raiseException transparent raising
  · exact sameMemory_readMem transparent reading
  · exact sameMemory_writeMem transparent writing
  · exact (sameMemory_writeMem transparent writing).trans (sameMemory_readMem transparent reading)

theorem general_advance_zero (completion : Completion) :
    (s.advance completion).registers.general 0 = 0 := by
  simp only [advance, Registers.delayedLoad, Registers.set, Function.update_self]

/-- `OneInstruction` either comes to its end or has been given up. -/
theorem oneInstruction_eq_ok {ended : Bool}
    (done : s.oneInstruction handler = .ok (ended, after)) :
    (ended = true ∧ ∃ last completion, after = advance last completion) ∨
      (ended = false ∧ Trapped handler s after ∧
        (handler.ChangesNoUserState → s.SameMemory after)) := by
  rcases bind_eq_ok_iff.mp done with ⟨⟨raw, fetched⟩, fetching, done⟩
  cases raw with
  | none =>
      cases done
      exact Or.inr ⟨rfl, readMem_eq_none fetching, fun transparent =>
        sameMemory_readMem transparent fetching⟩
  | some word =>
      rcases bind_eq_ok_iff.mp done with ⟨⟨completion, last⟩, executing, done⟩
      cases completion with
      | some completion =>
          cases done
          exact Or.inl ⟨rfl, last, completion, rfl⟩
      | none =>
          cases done
          exact Or.inr ⟨rfl, (trapped_of_carryOut executing).behind
            ((isAccess_readMem s.registers.pc 4).outcome s _ fetched fetching),
            fun transparent => (sameMemory_carryOut transparent executing).trans
              (sameMemory_readMem transparent fetching)⟩

/-- When the handler changes nothing, an instruction that was given up has changed nothing but
the target of the load in progress, and register 0 is zero behind every instruction. -/
theorem restartable_and_zero {ended : Bool} (transparent : handler.ChangesNoUserState)
    (done : s.oneInstruction handler = .ok (ended, after)) :
    after.registers.general 0 = 0 ∧
      (ended = false →
        after.registers.pc = s.registers.pc ∧ after.registers.nextPC = s.registers.nextPC ∧
          after.system.machine.mainMemory = s.system.machine.mainMemory ∧
          after.registers.hi = s.registers.hi ∧ after.registers.lo = s.registers.lo ∧
          ∀ r, after.registers.general r =
            if r = 0 then 0
            else if r = s.registers.loadReg then s.registers.loadValue
            else s.registers.general r) := by
  rcases oneInstruction_eq_ok done with ⟨rfl, last, completion, rfl⟩ | ⟨rfl, trapped, memory⟩
  · exact ⟨general_advance_zero completion, fun given => absurd given (by decide)⟩
  · have settled := trapped.2 transparent
    have general := settled.general
    refine ⟨general 0, fun _ => ?_⟩
    rcases settled with ⟨badVAddr, same⟩
    rw [same] at general ⊢
    exact ⟨rfl, rfl, memory transparent, rfl, rfl, general⟩

set_option maxRecDepth 4000 in
/-- `ADD r8, r9, r10` overflows, behind a load of 7 into register 11. -/
theorem restartable_and_zero_of_overflow :
    ∃ handler s after, oneInstruction handler s = .ok (false, after) ∧
      s.registers.general 11 = 0 ∧ after.registers.general 11 = 7 ∧
      after.registers.pc = s.registers.pc := by
  have facts : (do
      let started ← fetchOne (kernelHandler fun _ registers sys => .ok (registers, sys))
        0x012a4020 0x7fffffff 1
      let s := { started.1 with
        registers := { started.1.registers with loadReg := 11, loadValue := 7 } }
      let result ← s.oneInstruction (kernelHandler fun _ registers sys => .ok (registers, sys))
      return (result.1, started.1.registers.general 11)) = .ok (false, 0) := by
    decide +kernel
  rcases bind_eq_ok_iff.mp facts with ⟨⟨s, _, _⟩, _, facts⟩
  rcases bind_eq_ok_iff.mp facts with ⟨⟨ended, after⟩, done, facts⟩
  simp only [pure, Except.pure, Except.ok.injEq, Prod.mk.injEq] at facts
  rcases facts with ⟨rfl, zero⟩
  have transparent : (kernelHandler fun _ registers sys =>
      .ok (registers, sys)).ChangesNoUserState := by
    apply changesNoUserState_kernelHandler
    intro _ _ _ _ _ same
    cases same
    exact ⟨rfl, rfl⟩
  rcases restartable_and_zero transparent done with ⟨_, restarts⟩
  rcases restarts rfl with ⟨pc, _, _, _, _, general⟩
  exact ⟨_, _, after, done, zero, general 11, pc⟩

end Processor

end Nachos
