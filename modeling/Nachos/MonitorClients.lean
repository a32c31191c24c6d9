import Nachos.MesaMonitor

/-!
# Programs that use a monitor

A monitor is a flow chart of its own, in which the threads call its operations in any order.
A program that uses it has variables and points of its own besides; when they are forgotten,
each of its steps is a step of the monitor or none at all.  So what holds in all runs of the
monitor holds wherever it is used.
-/

namespace MesaMonitor

variable {Thread OwnVars Vars OwnPc Pc Sem Lock Cond OwnInput Input Fault : Type}

namespace Stage

/-- Forget where a thread is in the program. -/
def map (point : OwnPc → Pc) : Stage OwnPc → Stage Pc
  | active pc => active (point pc)
  | waiting pc => waiting (point pc)
  | signalled pc => signalled (point pc)

variable {point : OwnPc → Pc}

@[simp]
theorem map_active (pc : OwnPc) : (active pc).map point = active (point pc) :=
  rfl

@[simp]
theorem map_waiting (pc : OwnPc) : (waiting pc).map point = waiting (point pc) :=
  rfl

@[simp]
theorem map_signalled (pc : OwnPc) : (signalled pc).map point = signalled (point pc) :=
  rfl

@[simp]
theorem map_wake (stage : Stage OwnPc) : stage.wake.map point = (stage.map point).wake := by
  cases stage <;> rfl

theorem map_eq_waiting {stage : Stage OwnPc} {pc : Pc} (waits : stage.map point = .waiting pc) :
    ∃ own, stage = .waiting own ∧ point own = pc := by
  cases stage <;> cases waits
  exact ⟨_, rfl, rfl⟩

theorem map_eq_signalled {stage : Stage OwnPc} {pc : Pc}
    (notified : stage.map point = .signalled pc) :
    ∃ own, stage = .signalled own ∧ point own = pc := by
  cases stage <;> cases notified
  exact ⟨_, rfl, rfl⟩

end Stage

/-- Forget the variables of the program and where the threads are in it. -/
def State.map (vars : OwnVars → Vars) (point : OwnPc → Pc)
    (s : State Thread OwnVars OwnPc Sem Lock Cond) : State Thread Vars Pc Sem Lock Cond where
  vars := vars s.vars
  value := s.value
  holder := s.holder
  queue := s.queue
  stage := fun thread => (s.stage thread).map point

/-- What a program does at one of its points is what the monitor does there; straight-line code
may also do nothing that the monitor knows of. -/
def Instr.Refines (holds : OwnVars → Prop) (vars : OwnVars → Vars) (point : OwnPc → Pc)
    (pc : OwnPc) : Instr Thread OwnVars OwnPc Sem Lock Cond OwnInput Fault →
      Instr Thread Vars Pc Sem Lock Cond Input Fault → Prop
  | .run body, instr => ∀ thread input before after next, holds before →
      body thread input before = .ok (after, next) → holds after ∧
        (vars after = vars before ∧ point next = point pc ∨
          ∃ known choice, instr = .run known ∧
            known thread choice (vars before) = .ok (vars after, point next))
  | .p sem next, instr => instr = .p sem (point next)
  | .v sem next, instr => instr = .v sem (point next)
  | .acquire lock next, instr => instr = .acquire lock (point next)
  | .release lock next, instr => instr = .release lock (point next)
  | .wait cond next, instr => instr = .wait cond (point next)
  | .signal cond next, instr => instr = .signal cond (point next)
  | .broadcast cond next, instr => instr = .broadcast cond (point next)

/-- A program uses a monitor: at all its points, as long as its variables are as it keeps
them. -/
structure Uses (program : FlowChart Thread OwnVars OwnPc Sem Lock Cond OwnInput Fault)
    (monitor : FlowChart Thread Vars Pc Sem Lock Cond Input Fault) (holds : OwnVars → Prop)
    (vars : OwnVars → Vars) (point : OwnPc → Pc) : Prop where
  code : ∀ pc, (program.code pc).Refines holds vars point pc (monitor.code (point pc))
  lockOf : program.lockOf = monitor.lockOf
  interrupt : ∀ input before after sems, holds before →
    program.interrupt input before = some (.ok (after, sems)) → holds after ∧
      ∃ choice, monitor.interrupt choice (vars before) = some (.ok (vars after, sems))

/-- The code of a monitor inside of a program: it finds its variables in those of the program,
and returns to it. -/
def Instr.within (vars : OwnVars → Vars) (store : OwnVars → Vars → OwnVars) (back : Pc → OwnPc)
    (choose : Thread → OwnInput → Input) :
    Instr Thread Vars Pc Sem Lock Cond Input Fault →
      Instr Thread OwnVars OwnPc Sem Lock Cond OwnInput Fault
  | .run body => .run fun thread input before => do
      let (after, next) ← body thread (choose thread input) (vars before)
      return (store before after, back next)
  | .p sem next => .p sem (back next)
  | .v sem next => .v sem (back next)
  | .acquire lock next => .acquire lock (back next)
  | .release lock next => .release lock (back next)
  | .wait cond next => .wait cond (back next)
  | .signal cond next => .signal cond (back next)
  | .broadcast cond next => .broadcast cond (back next)

section Use

variable {program : FlowChart Thread OwnVars OwnPc Sem Lock Cond OwnInput Fault}
  {monitor : FlowChart Thread Vars Pc Sem Lock Cond Input Fault} {holds : OwnVars → Prop}
  {vars : OwnVars → Vars} {point : OwnPc → Pc}

/-- The code of the monitor does what it does. -/
theorem Instr.refines_within {store : OwnVars → Vars → OwnVars} {back : Pc → OwnPc}
    (choose : Thread → OwnInput → Input)
    (stored : ∀ before after, vars (store before after) = after)
    (kept : ∀ before after, holds before → holds (store before after))
    (returns : ∀ pc, point (back pc) = pc) (pc : OwnPc)
    (instr : Instr Thread Vars Pc Sem Lock Cond Input Fault) :
    (instr.within vars store back choose).Refines holds vars point pc instr := by
  cases instr with
  | run body =>
      intro thread input before after next held done
      dsimp only at done
      cases ran : body thread (choose thread input) (vars before) with
      | error fault =>
          rw [ran] at done
          cases done
      | ok result =>
          rw [ran] at done
          cases done
          refine ⟨kept _ _ held, Or.inr ⟨body, choose thread input, rfl, ?_⟩⟩
          rw [stored, returns]
          exact ran
  | p | v | acquire | release | wait | signal | broadcast =>
      simp only [Instr.within, Instr.Refines, returns]

/-- What the monitor does at a point of the program. -/
theorem Uses.known (uses : Uses program monitor holds vars point) {pc : OwnPc}
    {instr : Instr Thread OwnVars OwnPc Sem Lock Cond OwnInput Fault}
    (code : program.code pc = instr) :
    instr.Refines holds vars point pc (monitor.code (point pc)) := by
  have refines := uses.code pc
  rwa [code] at refines

variable {critical : Pc → Option Lock}

/-- The labels of the monitor are labels of the program. -/
theorem Uses.labelled (uses : Uses program monitor holds vars point) (always : ∀ own, holds own)
    (labelled : monitor.Labelled critical) : program.Labelled (critical ∘ point) := by
  intro pc
  have label := labelled (point pc)
  cases code : program.code pc with
  | run body =>
      have refines := uses.known code
      rintro thread input before ⟨after, next⟩ done
      obtain ⟨-, ⟨-, same⟩ | ⟨known, choice, isRun, ran⟩⟩ :=
        refines thread input before after next (always before) done
      · exact congrArg critical same
      · rw [isRun] at label
        exact label thread choice (vars before) _ ran
  | p | v | acquire | release | wait | signal | broadcast =>
      rw [show monitor.code (point pc) = _ from uses.known code] at label
      rw [uses.lockOf]
      exact label

/-- Who is inside of a lock of the monitor is inside of it in the program. -/
theorem exclusive_map {s : State Thread OwnVars OwnPc Sem Lock Cond}
    (exclusive : Exclusive (critical ∘ point) s) : Exclusive critical (s.map vars point) := by
  intro lock thread
  have inside_eq : inside critical ((s.stage thread).map point) =
      inside (critical ∘ point) (s.stage thread) := by
    cases s.stage thread <;> rfl
  change s.holder lock = some thread ↔ inside critical ((s.stage thread).map point) = some lock
  rw [inside_eq]
  exact exclusive lock thread

/-- Who waits in the program waits in the monitor. -/
theorem Uses.queued (uses : Uses program monitor holds vars point)
    {s : State Thread OwnVars OwnPc Sem Lock Cond} (queued : Queued program s) :
    Queued monitor (s.map vars point) where
  mem_iff cond thread := by
    change thread ∈ s.queue cond ↔
      ∃ pc next, (s.stage thread).map point = .waiting pc ∧ monitor.code pc = .wait cond next
    rw [queued.mem_iff]
    constructor
    · rintro ⟨pc, next, waits, isWait⟩
      exact ⟨point pc, point next, by rw [waits]; rfl, uses.known isWait⟩
    · rintro ⟨pc, next, waits, isWait⟩
      obtain ⟨own, here, rfl⟩ := Stage.map_eq_waiting waits
      obtain ⟨other, target, ownWait⟩ := queued.atWait thread own (Or.inl here)
      rw [show monitor.code (point own) = _ from uses.known ownWait] at isWait
      cases isWait
      exact ⟨own, target, here, ownWait⟩
  nodup := queued.nodup
  atWait thread pc here := by
    have waits : ∃ own, (s.stage thread = .waiting own ∨ s.stage thread = .signalled own) ∧
        point own = pc := by
      rcases here with here | here
      · obtain ⟨own, here, same⟩ := Stage.map_eq_waiting here
        exact ⟨own, Or.inl here, same⟩
      · obtain ⟨own, here, same⟩ := Stage.map_eq_signalled here
        exact ⟨own, Or.inr here, same⟩
    obtain ⟨own, ownHere, rfl⟩ := waits
    obtain ⟨cond, next, isWait⟩ := queued.atWait thread own ownHere
    exact ⟨cond, point next, uses.known isWait⟩

variable [DecidableEq Thread]

theorem map_update (stage : Thread → Stage OwnPc) (thread : Thread) (target : Stage OwnPc) :
    (fun other => (Function.update stage thread target other).map point) =
      Function.update (fun other => (stage other).map point) thread (target.map point) :=
  Function.comp_update (Stage.map point) stage thread target

theorem map_wakeAll (stage : Thread → Stage OwnPc) (woken : List Thread) :
    (fun thread => (wakeAll woken stage thread).map point) =
      wakeAll woken fun thread => (stage thread).map point := by
  funext thread
  unfold wakeAll
  split <;> simp

variable [DecidableEq Sem] [DecidableEq Lock] [DecidableEq Cond]
  {s next : State Thread OwnVars OwnPc Sem Lock Cond}

/-- A step of the program is a step of the monitor, or none. -/
theorem Uses.step (uses : Uses program monitor holds vars point) (held : holds s.vars)
    (step : Step program s next) :
    holds next.vars ∧ (next.map vars point = s.map vars point ∨
      Step monitor (s.map vars point) (next.map vars point)) := by
  have place : ∀ {thread stage}, s.stage thread = stage →
      (s.map vars point).stage thread = stage.map point := by
    rintro thread stage rfl
    rfl
  cases step with
  | @run thread pc body input after target here code done =>
      obtain ⟨kept, same | ran⟩ := uses.known code thread input s.vars after target held done
      · refine ⟨kept, Or.inl ?_⟩
        have stays : Function.update (fun other => (s.stage other).map point) thread
            (.active (point target)) = fun other => (s.stage other).map point := by
          rw [same.2]
          exact Function.update_eq_self_iff.mpr (place here).symm
        simp only [State.map, map_update, Stage.map_active, stays, same.1]
      · obtain ⟨known, choice, isRun, ran⟩ := ran
        refine ⟨kept, Or.inr ?_⟩
        simp only [State.map, map_update, Stage.map_active]
        exact Step.run (place here) isRun ran
  | @p thread pc sem target here code available =>
      refine ⟨held, Or.inr ?_⟩
      simp only [State.map, map_update, Stage.map_active]
      exact Step.p (place here) (uses.known code) available
  | @v thread pc sem target here code =>
      refine ⟨held, Or.inr ?_⟩
      simp only [State.map, map_update, Stage.map_active]
      exact Step.v (place here) (uses.known code)
  | @acquire thread pc lock target here code free =>
      refine ⟨held, Or.inr ?_⟩
      simp only [State.map, map_update, Stage.map_active]
      exact Step.acquire (place here) (uses.known code) free
  | @release thread pc lock target here code holder =>
      refine ⟨held, Or.inr ?_⟩
      simp only [State.map, map_update, Stage.map_active]
      exact Step.release (place here) (uses.known code) holder
  | @wait thread pc cond target here code holder =>
      rw [uses.lockOf] at holder ⊢
      refine ⟨held, Or.inr ?_⟩
      simp only [State.map, map_update, Stage.map_waiting]
      exact Step.wait (place here) (uses.known code) holder
  | @resume thread pc cond target here code free =>
      rw [uses.lockOf] at free ⊢
      refine ⟨held, Or.inr ?_⟩
      simp only [State.map, map_update, Stage.map_active]
      exact Step.resume (place here) (uses.known code) free
  | @signal thread pc cond target here code holder =>
      rw [uses.lockOf] at holder
      refine ⟨held, Or.inr ?_⟩
      simp only [State.map, map_update, map_wakeAll, Stage.map_active]
      exact Step.signal (place here) (uses.known code) holder
  | @broadcast thread pc cond target here code holder =>
      rw [uses.lockOf] at holder
      refine ⟨held, Or.inr ?_⟩
      simp only [State.map, map_update, map_wakeAll, Stage.map_active]
      exact Step.broadcast (place here) (uses.known code) holder
  | @interrupt input after sems pending =>
      obtain ⟨kept, choice, known⟩ := uses.interrupt input s.vars after sems held pending
      exact ⟨kept, Or.inr (Step.interrupt known)⟩

end Use

end MesaMonitor
