import Nachos.InstructionExecution
import Nachos.KernelTraps
import Nachos.TranslationView

/-!
# Accesses to memory and the registers

`ReadMem` and `WriteMem` are made of steps that only the rest of the system sees and of
exceptions, each of which completes the load in progress.  An access without an exception
leaves the registers alone and does not depend on them.
-/

namespace Nachos

open TransitionRuns

/-- What an exception does to the registers. -/
def Registers.Settled (before after : Registers) : Prop :=
  ∃ badVAddr, after = { before.delayedLoad 0 0 with badVAddr := badVAddr }

/-- A second exception finds no load in progress. -/
theorem Registers.Settled.trans {first second third : Registers}
    (settled : first.Settled second) (again : second.Settled third) : first.Settled third := by
  rcases settled with ⟨badVAddr, rfl⟩
  rcases again with ⟨later, rfl⟩
  refine ⟨later, ?_⟩
  simp only [delayedLoad, set, Function.update_idem]

/-- The handler leaves the registers and the main memory of the program alone. -/
def TrapHandler.ChangesNoUserState (handler : TrapHandler) : Prop :=
  ∀ which registers sys registers' sys',
    handler which registers sys = .ok (registers', sys') →
      registers' = registers ∧ sys'.machine.mainMemory = sys.machine.mainMemory

namespace Processor

variable {handler : TrapHandler} {First Second : Type}

/-- Exceptions were raised. -/
def Trapped (handler : TrapHandler) (s after : Processor) : Prop :=
  s.raised.length < after.raised.length ∧
    (handler.ChangesNoUserState → s.registers.Settled after.registers)

theorem Trapped.trans {first second third : Processor} (trapped : Trapped handler first second)
    (again : Trapped handler second third) : Trapped handler first third :=
  ⟨trapped.1.trans again.1, fun transparent =>
    (trapped.2 transparent).trans (again.2 transparent)⟩

/-- What an access can come to: no exception was raised, and the registers play no role; or
the load in progress was completed.  It does not stop at an `ASSERT` of `OneInstruction`. -/
structure IsAccess (handler : TrapHandler)
    (access : Processor → Except Crash (First × Processor)) : Prop where
  outcome : ∀ s result after, access s = .ok (result, after) →
    (after.raised = s.raised ∧ after.registers = s.registers ∧
      ∀ registers, access { s with registers := registers } =
        .ok (result, { after with registers := registers })) ∨
    Trapped handler s after
  stops : ∀ s reason, access s = .error reason → ∃ fault, reason = .system fault

/-- An access in front of exceptions. -/
theorem Trapped.behind {first second third : Processor} {others : Prop}
    (trapped : Trapped handler second third)
    (outcome : (second.raised = first.raised ∧ second.registers = first.registers ∧ others) ∨
      Trapped handler first second) : Trapped handler first third := by
  rcases outcome with ⟨raised, same, _⟩ | before
  · unfold Trapped at trapped ⊢
    rwa [raised, same] at trapped
  · exact before.trans trapped

theorem Trapped.trans_outcome {first second third : Processor} {others : Prop}
    (trapped : Trapped handler first second)
    (outcome : (third.raised = second.raised ∧ third.registers = second.registers ∧ others) ∨
      Trapped handler second third) : Trapped handler first third := by
  rcases outcome with ⟨raised, same, _⟩ | again
  · unfold Trapped at trapped ⊢
    rwa [raised, same]
  · exact trapped.trans again

namespace IsAccess

theorem return_ (result : First) : IsAccess handler fun s => .ok (result, s) where
  outcome := by
    intro s _ after done
    cases done
    exact Or.inl ⟨rfl, rfl, fun _ => rfl⟩
  stops := by
    intro s reason stopped
    cases stopped

/-- A step of the system. -/
theorem onSystem (change : UserSystem → Except Fault Second) (result : Second → First)
    (system : UserSystem → Second → UserSystem) :
    IsAccess handler fun s => within (change s.system) >>= fun changed =>
      .ok (result changed, { s with system := system s.system changed }) where
  outcome := by
    intro s outcome after done
    rcases bind_eq_ok_iff.mp done with ⟨changed, isChanged, done⟩
    cases done
    refine Or.inl ⟨rfl, rfl, ?_⟩
    intro registers
    exact bind_eq_ok_iff.mpr ⟨changed, isChanged, rfl⟩
  stops := by
    intro s reason stopped
    cases changed : change s.system with
    | error fault =>
        rw [changed] at stopped
        cases stopped
        exact ⟨fault, rfl⟩
    | ok result =>
        rw [changed] at stopped
        cases stopped

theorem bind {first : Processor → Except Crash (First × Processor)}
    {next : First × Processor → Except Crash (Second × Processor)}
    (isFirst : IsAccess handler first)
    (isNext : ∀ result, IsAccess handler fun s => next (result, s)) :
    IsAccess handler fun s => first s >>= next where
  outcome := by
    intro s result after done
    rcases bind_eq_ok_iff.mp done with ⟨⟨value, middle⟩, begun, done⟩
    rcases isFirst.outcome s value middle begun with ⟨raised, same, others⟩ | trapped
    · rcases (isNext value).outcome middle result after done with
        ⟨raised', same', others'⟩ | trapped
      · refine Or.inl ⟨raised'.trans raised, same'.trans same, ?_⟩
        intro registers
        exact bind_eq_ok_iff.mpr ⟨_, others registers, others' registers⟩
      · exact Or.inr (trapped.behind (Or.inl ⟨raised, same, others⟩))
    · exact Or.inr (trapped.trans_outcome ((isNext value).outcome middle result after done))
  stops := by
    intro s reason stopped
    rcases bind_eq_error_iff.mp stopped with early | ⟨middle, _, late⟩
    · exact isFirst.stops s reason early
    · exact (isNext middle.1).stops middle.2 reason late

end IsAccess

theorem eq_ok_of_within {result : Except Fault First} {value : First}
    (done : within result = .ok value) : result = .ok value := by
  cases result with
  | error fault => cases done
  | ok found =>
      cases done
      rfl

theorem raiseException_eq_ok {s after : Processor} {which : Trap} {badVAddr : CInt}
    (done : s.raiseException handler which badVAddr = .ok after) :
    s.raised.length < after.raised.length ∧ (handler.ChangesNoUserState →
      s.registers.Settled after.registers ∧
        after.system.machine.mainMemory = s.system.machine.mainMemory) := by
  rcases bind_eq_ok_iff.mp done with ⟨⟨registers, system⟩, handled, done⟩
  cases done
  refine ⟨by simp, ?_⟩
  intro transparent
  cases answered : handler which ({ s.registers with badVAddr := badVAddr }.delayedLoad 0 0)
      s.system with
  | error fault =>
      rw [answered] at handled
      cases handled
  | ok answer =>
      rw [answered] at handled
      cases handled
      rcases transparent _ _ _ _ _ answered with ⟨rfl, memory⟩
      exact ⟨⟨badVAddr, rfl⟩, memory⟩

theorem trapped_of_raiseException {s after : Processor} {which : Trap} {badVAddr : CInt}
    (done : s.raiseException handler which badVAddr = .ok after) : Trapped handler s after :=
  ⟨(raiseException_eq_ok done).1, fun transparent => ((raiseException_eq_ok done).2 transparent).1⟩

/-- An exception, and then the access goes on. -/
theorem IsAccess.raise (which : Trap) (badVAddr : CInt)
    {next : Processor → Except Crash (First × Processor)} (isNext : IsAccess handler next) :
    IsAccess handler fun s => s.raiseException handler which badVAddr >>= next where
  outcome := by
    intro s result after done
    rcases bind_eq_ok_iff.mp done with ⟨handled, raising, done⟩
    exact Or.inr ((trapped_of_raiseException raising).trans_outcome
      (isNext.outcome handled result after done))
  stops := by
    intro s reason stopped
    rcases bind_eq_error_iff.mp stopped with early | ⟨handled, _, late⟩
    · rcases bind_eq_error_iff.mp early with failed | ⟨answer, _, wrong⟩
      · cases answered : handler which
            ({ s.registers with badVAddr := badVAddr }.delayedLoad 0 0) s.system with
        | error fault =>
            rw [answered] at failed
            cases failed
            exact ⟨fault, rfl⟩
        | ok answer =>
            rw [answered] at failed
            cases failed
      · cases wrong
    · exact isNext.stops handled reason late

/-- An assignment to the system, and then the access goes on. -/
theorem IsAccess.behind {next : Processor → Except Crash (First × Processor)}
    (change : UserSystem → UserSystem) (isNext : IsAccess handler next) :
    IsAccess handler fun s => next { s with system := change s.system } where
  outcome := fun s result after done =>
    isNext.outcome { s with system := change s.system } result after done
  stops := fun s reason stopped =>
    isNext.stops { s with system := change s.system } reason stopped

/-- A choice between accesses that depends on the system only. -/
theorem IsAccess.choose {access : Processor → Except Crash (First × Processor)}
    (each : ∀ s : Processor, ∃ chosen, IsAccess handler chosen ∧ ∀ registers : Registers,
      access { s with registers := registers } = chosen { s with registers := registers }) :
    IsAccess handler access where
  outcome := by
    intro s result after done
    rcases each s with ⟨chosen, isChosen, same⟩
    have outcome := isChosen.outcome s result after ((same s.registers).symm.trans done)
    rcases outcome with ⟨raised, kept, others⟩ | trapped
    · exact Or.inl ⟨raised, kept, fun registers => (same registers).trans (others registers)⟩
    · exact Or.inr trapped
  stops := by
    intro s reason stopped
    rcases each s with ⟨chosen, isChosen, same⟩
    exact isChosen.stops s reason ((same s.registers).symm.trans stopped)

theorem IsAccess.check {next : Processor → Except Crash (First × Processor)}
    (checked : Except Fault Unit) (isNext : IsAccess handler next) :
    IsAccess handler fun s => within checked >>= fun _ => next s := by
  cases checked with
  | error fault =>
      constructor
      · intro s result after done
        cases done
      · intro s reason stopped
        cases stopped
        exact ⟨fault, rfl⟩
  | ok _ => exact isNext

theorem isAccess_findEntry (virtAddr : CInt) :
    IsAccess handler fun s => s.findEntry handler virtAddr := by
  apply IsAccess.choose
  intro s
  cases found : s.system.machine.findTLB s.system.machine.vpn with
  | some slot =>
      refine ⟨_, (IsAccess.return_ false).behind fun sys => sys.setEntry (some (.tlb slot)), ?_⟩
      intro registers
      unfold findEntry
      dsimp only
      rw [found]
      rfl
  | none =>
      refine ⟨_, ((IsAccess.return_ true).raise (.memory .tlbPageFault) virtAddr).behind
        fun sys => sys.setEntry none, ?_⟩
      intro registers
      unfold findEntry
      dsimp only
      rw [found]
      rfl

theorem isAccess_translate (virtAddr : CInt) (size : Nat) (writing : Bool) :
    IsAccess handler fun s => s.translate handler virtAddr size writing := by
  unfold translate
  split
  · exact IsAccess.return_ _
  · have found := (@isAccess_findEntry handler virtAddr).behind
      fun sys => sys.setPage virtAddr
    exact found.bind fun tlbMiss =>
      IsAccess.onSystem (fun sys => sys.useEntry tlbMiss writing) Prod.fst fun _ used => used.2

theorem isAccess_translateOrRaise (addr : CInt) (size : Nat) (writing : Bool) :
    IsAccess handler fun s => s.translateOrRaise handler addr size writing := by
  apply (isAccess_translate addr size writing).bind
  intro result
  cases result with
  | ok physicalAddress => exact IsAccess.return_ _
  | error exception =>
      apply IsAccess.raise
      split
      · exact (isAccess_translate addr size true).bind fun _ => IsAccess.return_ _
      · exact IsAccess.return_ _

theorem isAccess_readMem (addr : CInt) (size : Nat) :
    IsAccess handler fun s => s.readMem handler addr size := by
  apply (isAccess_translateOrRaise addr size false).bind
  intro translated
  cases translated with
  | none => exact IsAccess.return_ _
  | some physicalAddress =>
      apply IsAccess.check
      exact IsAccess.onSystem (fun sys => sys.machine.fetch physicalAddress size)
        (fun fetched => some (Machine.loadedValue fetched.1))
        fun sys fetched => { sys with machine := fetched.2 }

theorem isAccess_writeMem (addr : CInt) (size : Nat) (value : CInt) :
    IsAccess handler fun s => s.writeMem handler addr size value := by
  apply (isAccess_translateOrRaise addr size true).bind
  intro translated
  cases translated with
  | none => exact IsAccess.return_ _
  | some physicalAddress =>
      apply IsAccess.check
      exact IsAccess.onSystem (fun sys => sys.machine.store physicalAddress size value)
        (fun _ => true) fun sys machine => { sys with machine := machine }

/-- An access that is given up has raised an exception. -/
theorem translateOrRaise_eq_none {s after : Processor} {addr : CInt} {size : Nat} {writing : Bool}
    (done : s.translateOrRaise handler addr size writing = .ok (none, after)) :
    Trapped handler s after := by
  rcases bind_eq_ok_iff.mp done with ⟨⟨result, translated⟩, translating, done⟩
  cases result with
  | ok physicalAddress => cases done
  | error exception =>
      rcases bind_eq_ok_iff.mp done with ⟨handled, raising, done⟩
      have trapped : Trapped handler translated after := by
        split at done
        · rcases bind_eq_ok_iff.mp done with ⟨⟨again, last⟩, repeating, done⟩
          have same : last = after := congrArg Prod.snd (Except.ok.inj done)
          subst same
          exact (trapped_of_raiseException raising).trans_outcome
            ((isAccess_translate addr size true).outcome handled again last repeating)
        · cases done
          exact trapped_of_raiseException raising
      exact trapped.behind ((isAccess_translate addr size writing).outcome s _ _ translating)

theorem readMem_eq_none {s after : Processor} {addr : CInt} {size : Nat}
    (done : s.readMem handler addr size = .ok (none, after)) : Trapped handler s after := by
  rcases bind_eq_ok_iff.mp done with ⟨⟨translated, middle⟩, translating, done⟩
  cases translated with
  | none =>
      cases done
      exact translateOrRaise_eq_none translating
  | some physicalAddress =>
      rcases bind_eq_ok_iff.mp done with ⟨_, _, done⟩
      rcases bind_eq_ok_iff.mp done with ⟨_, _, done⟩
      cases done

theorem writeMem_eq_false {s after : Processor} {addr : CInt} {size : Nat} {value : CInt}
    (done : s.writeMem handler addr size value = .ok (false, after)) :
    Trapped handler s after := by
  rcases bind_eq_ok_iff.mp done with ⟨⟨translated, middle⟩, translating, done⟩
  cases translated with
  | none =>
      cases done
      exact translateOrRaise_eq_none translating
  | some physicalAddress =>
      rcases bind_eq_ok_iff.mp done with ⟨_, _, done⟩
      rcases bind_eq_ok_iff.mp done with ⟨_, _, done⟩
      cases done

end Processor

namespace UserSystem

variable {sys after : UserSystem}

theorem mainMemory_modifyEntry {change : TranslationEntry → TranslationEntry}
    (done : sys.modifyEntry change = .ok after) :
    after.machine.mainMemory = sys.machine.mainMemory := by
  rcases bind_eq_ok_iff.mp done with ⟨pointer, _, done⟩
  cases pointer with
  | tlb slot =>
      cases done
      rfl
  | page address index =>
      rcases bind_eq_ok_iff.mp done with ⟨table, _, done⟩
      rcases bind_eq_ok_iff.mp done with ⟨entry, _, done⟩
      cases done
      rfl

theorem mainMemory_chooseTLB (machine : Machine) :
    machine.chooseTLB.2.mainMemory = machine.mainMemory := by
  unfold Machine.chooseTLB
  split <;> rfl

theorem mainMemory_updateTLB (done : sys.updateTLB = .ok after) :
    after.machine.mainMemory = sys.machine.mainMemory := by
  have kept := mainMemory_chooseTLB sys.machine
  unfold updateTLB at done
  generalize sys.machine.chooseTLB = chosen at kept done
  rcases chosen with ⟨i, machine⟩
  rcases bind_eq_ok_iff.mp done with ⟨entry, _, done⟩
  dsimp only at done
  split at done
  · cases done
    exact kept
  · cases done

theorem mainMemory_useEntry {tlbMiss writing : Bool} {result : Except ExceptionType Int}
    (done : sys.useEntry tlbMiss writing = .ok (result, after)) :
    after.machine.mainMemory = sys.machine.mainMemory := by
  rcases bind_eq_ok_iff.mp done with ⟨entry, _, done⟩
  split at done
  · cases done
    rfl
  · rcases bind_eq_ok_iff.mp done with ⟨touched, touching, done⟩
    rcases bind_eq_ok_iff.mp done with ⟨updated, updating, done⟩
    cases done
    rw [← mainMemory_modifyEntry touching]
    cases tlbMiss with
    | false =>
        cases updating
        rfl
    | true => exact mainMemory_updateTLB updating

end UserSystem

namespace Processor

variable {handler : TrapHandler}

/-- The memory of the program is as before. -/
def SameMemory (s after : Processor) : Prop :=
  after.system.machine.mainMemory = s.system.machine.mainMemory

theorem sameMemory_raiseException (transparent : handler.ChangesNoUserState)
    {s after : Processor} {which : Trap} {badVAddr : CInt}
    (done : s.raiseException handler which badVAddr = .ok after) : s.SameMemory after :=
  ((raiseException_eq_ok done).2 transparent).2

theorem sameMemory_findEntry (transparent : handler.ChangesNoUserState) {s after : Processor}
    {virtAddr : CInt} {tlbMiss : Bool}
    (done : s.findEntry handler virtAddr = .ok (tlbMiss, after)) :
    s.SameMemory after := by
  unfold findEntry at done
  split at done
  · cases done
    rfl
  · rcases bind_eq_ok_iff.mp done with ⟨handled, raising, done⟩
    cases done
    have kept := sameMemory_raiseException transparent raising
    exact kept

theorem sameMemory_translate (transparent : handler.ChangesNoUserState) {s after : Processor}
    {virtAddr : CInt} {size : Nat} {writing : Bool} {result : Except ExceptionType Int}
    (done : s.translate handler virtAddr size writing = .ok (result, after)) :
    s.SameMemory after := by
  unfold translate at done
  split at done
  · cases done
    rfl
  · rcases bind_eq_ok_iff.mp done with ⟨⟨tlbMiss, found⟩, finding, done⟩
    rcases bind_eq_ok_iff.mp done with ⟨⟨used, sys⟩, touching, done⟩
    cases done
    have kept := sameMemory_findEntry transparent finding
    exact (UserSystem.mainMemory_useEntry (eq_ok_of_within touching)).trans kept

theorem sameMemory_translateOrRaise (transparent : handler.ChangesNoUserState)
    {s after : Processor} {addr : CInt} {size : Nat} {writing : Bool} {result : Option Int}
    (done : s.translateOrRaise handler addr size writing = .ok (result, after)) :
    s.SameMemory after := by
  rcases bind_eq_ok_iff.mp done with ⟨⟨translation, translated⟩, translating, done⟩
  have kept := sameMemory_translate transparent translating
  cases translation with
  | ok physicalAddress =>
      cases done
      exact kept
  | error exception =>
      rcases bind_eq_ok_iff.mp done with ⟨handled, raising, done⟩
      have raised := sameMemory_raiseException transparent raising
      split at done
      · rcases bind_eq_ok_iff.mp done with ⟨⟨again, last⟩, repeating, done⟩
        cases done
        exact (sameMemory_translate transparent repeating).trans (raised.trans kept)
      · cases done
        exact raised.trans kept

theorem sameMemory_readMem (transparent : handler.ChangesNoUserState) {s after : Processor}
    {addr : CInt} {size : Nat} {result : Option CInt}
    (done : s.readMem handler addr size = .ok (result, after)) : s.SameMemory after := by
  rcases bind_eq_ok_iff.mp done with ⟨⟨translated, middle⟩, translating, done⟩
  have kept := sameMemory_translateOrRaise transparent translating
  cases translated with
  | none =>
      cases done
      exact kept
  | some physicalAddress =>
      rcases bind_eq_ok_iff.mp done with ⟨_, _, done⟩
      rcases bind_eq_ok_iff.mp done with ⟨⟨data, machine⟩, fetching, done⟩
      cases done
      rcases Machine.fetch_eq_ok (eq_ok_of_within fetching) with ⟨disk, rfl⟩
      exact kept

theorem sameMemory_writeMem (transparent : handler.ChangesNoUserState) {s after : Processor}
    {addr : CInt} {size : Nat} {value : CInt}
    (done : s.writeMem handler addr size value = .ok (false, after)) : s.SameMemory after := by
  rcases bind_eq_ok_iff.mp done with ⟨⟨translated, middle⟩, translating, done⟩
  have kept := sameMemory_translateOrRaise transparent translating
  cases translated with
  | none =>
      cases done
      exact kept
  | some physicalAddress =>
      rcases bind_eq_ok_iff.mp done with ⟨_, _, done⟩
      rcases bind_eq_ok_iff.mp done with ⟨machine, _, done⟩
      cases done

end Processor

end Nachos
