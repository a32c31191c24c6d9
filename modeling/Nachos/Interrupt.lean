import Nachos.CIntegers
import Nachos.LinkedList

/-!
# Interrupts and simulated time

`machine/interrupt.cc`.  The devices schedule their interrupts on a list that is sorted
by the time when they are due.  Time passes in `OneTick`, when interrupts are enabled or
a user instruction is executed, and in `Idle`, when no thread is ready; both run the
handlers of the interrupts that have become due.

What a handler does is a parameter: it may change the rest of the machine, schedule
further interrupts and ask for a context switch.  The interrupts that were scheduled and
those that have fired are recorded beside the object; no code reads these lists.
-/

namespace Nachos

inductive IntStatus where
  | off
  | on
  deriving DecidableEq, Repr

inductive MachineStatus where
  | idle
  | system
  | user
  deriving DecidableEq, Repr

inductive IntType where
  | timer
  | disk
  | consoleWrite
  | consoleRead
  | networkSend
  | networkRecv
  deriving DecidableEq, Repr

/-- `class PendingInterrupt`. -/
structure PendingInterrupt (Handler : Type) where
  handler : Handler
  arg : CInt
  when : Int
  type : IntType
  deriving DecidableEq

/-- The ticks of `class Statistics`. -/
structure Statistics where
  totalTicks : Int
  idleTicks : Int
  systemTicks : Int
  userTicks : Int
  deriving DecidableEq, Repr

def userTick : Int := 1

def systemTick : Int := 10

/-- Why a request does not complete. -/
inductive Abort where
  | assertion
  /-- An `int` would leave its range. -/
  | overflow
  /-- The machine was halted before. -/
  | halted
  /-- A loop has not come to its end within the given number of rounds. -/
  | diverged
  deriving DecidableEq, Repr

/-- What a handler asks of the interrupt system. -/
inductive HandlerCall (Handler : Type) where
  | schedule (handler : Handler) (arg : CInt) (fromNow : Int) (type : IntType)
  | yieldOnReturn

/-- The handlers: their effect on the rest of the machine and their calls, given the
argument and `totalTicks`. -/
abbrev Handlers (Handler World : Type) :=
  Handler → CInt → Int → World → World × List (HandlerCall Handler)

/-- `class Interrupt`, the statistics and the rest of the machine.  `scheduled` holds all
interrupts that were scheduled, and `fired` those that have occurred with the value of
`totalTicks` at that time, the latest at the end. -/
structure Interrupt (Handler World : Type) where
  level : IntStatus
  pending : LinkedList (PendingInterrupt Handler)
  inHandler : Bool
  yieldOnReturn : Bool
  status : MachineStatus
  stats : Statistics
  world : World
  halted : Bool
  scheduled : List (PendingInterrupt Handler)
  fired : List (PendingInterrupt Handler × Int)

namespace Interrupt

variable {Handler World : Type}

/-- `Interrupt::Interrupt`, with the statistics at zero. -/
def new (world : World) : Interrupt Handler World where
  level := .off
  pending := LinkedList.empty
  inHandler := false
  yieldOnReturn := false
  status := .system
  stats := ⟨0, 0, 0, 0⟩
  world := world
  halted := false
  scheduled := []
  fired := []

/-- `Interrupt::Schedule`. -/
def schedule (s : Interrupt Handler World) (handler : Handler) (arg : CInt) (fromNow : Int)
    (type : IntType) : Except Abort (Interrupt Handler World) :=
  let when := s.stats.totalTicks + fromNow
  let toOccur : PendingInterrupt Handler := ⟨handler, arg, when, type⟩
  if 2 ^ 31 ≤ when then .error .overflow
  else if fromNow > 0 then
    .ok { s with
      pending := s.pending.sortedInsert toOccur when
      scheduled := s.scheduled ++ [toOccur] }
  else .error .assertion

/-- `Interrupt::YieldOnReturn`. -/
def requestYield (s : Interrupt Handler World) : Except Abort (Interrupt Handler World) :=
  if s.inHandler then .ok { s with yieldOnReturn := true } else .error .assertion

/-- The calls of a handler, in order. -/
def perform (s : Interrupt Handler World) :
    List (HandlerCall Handler) → Except Abort (Interrupt Handler World)
  | [] => .ok s
  | .schedule handler arg fromNow type :: calls => do
      let s ← s.schedule handler arg fromNow type
      s.perform calls
  | .yieldOnReturn :: calls => do
      let s ← s.requestYield
      s.perform calls

/-- `CheckIfDue` from the call of the handler on. -/
def invoke (handlers : Handlers Handler World) (s : Interrupt Handler World)
    (toOccur : PendingInterrupt Handler) : Except Abort (Interrupt Handler World) := do
  let result := handlers toOccur.handler toOccur.arg s.stats.totalTicks s.world
  let after ← { s with
    inHandler := true
    status := .system
    world := result.1
    fired := s.fired ++ [(toOccur, s.stats.totalTicks)] }.perform result.2
  return { after with status := s.status, inHandler := false }

/-- `CheckIfDue` from the test for the end of all activity on. -/
def fireUnlessDone (handlers : Handlers Handler World) (s : Interrupt Handler World)
    (toOccur : PendingInterrupt Handler) (when : Int) :
    Except Abort (Bool × Interrupt Handler World) :=
  if s.status = .idle ∧ toOccur.type = .timer ∧ s.pending.isEmpty = true then
    .ok (false, { s with pending := s.pending.sortedInsert toOccur when })
  else do
    let s ← s.invoke handlers toOccur
    return (true, s)

/-- The clock of an idle machine is set to the next interrupt. -/
def advanceClock (s : Interrupt Handler World) (when : Int) : Interrupt Handler World :=
  { s with stats := { s.stats with
      idleTicks := s.stats.idleTicks + (when - s.stats.totalTicks)
      totalTicks := when } }

/-- `Interrupt::CheckIfDue`. -/
def checkIfDue (handlers : Handlers Handler World) (s : Interrupt Handler World)
    (advance : Bool) : Except Abort (Bool × Interrupt Handler World) :=
  if s.level = .off then
    match s.pending.sortedRemove with
    | (none, _) => .ok (false, s)
    | (some (toOccur, when), rest) =>
        let removed := { s with pending := rest }
        if advance = true ∧ when > s.stats.totalTicks then
          (removed.advanceClock when).fireUnlessDone handlers toOccur when
        else if when > s.stats.totalTicks then
          .ok (false, { s with pending := rest.sortedInsert toOccur when })
        else removed.fireUnlessDone handlers toOccur when
  else .error .assertion

/-- `while (CheckIfDue(FALSE));`, for at most the given number of rounds. -/
def checkAll (handlers : Handlers Handler World) :
    Nat → Interrupt Handler World → Except Abort (Interrupt Handler World)
  | 0, _ => .error .diverged
  | rounds + 1, s => do
      let (fired, s) ← s.checkIfDue handlers false
      if fired then checkAll handlers rounds s else .ok s

/-- Each round but the last fires an interrupt that is pending when the loop starts. -/
def drain (handlers : Handlers Handler World) (s : Interrupt Handler World) :
    Except Abort (Interrupt Handler World) :=
  checkAll handlers (s.pending.elements.length + 1) s

/-- The ticks that `OneTick` adds. -/
def tick (s : Interrupt Handler World) : Interrupt Handler World :=
  if s.status = .system then
    { s with stats := { s.stats with
        totalTicks := s.stats.totalTicks + systemTick
        systemTicks := s.stats.systemTicks + systemTick } }
  else
    { s with stats := { s.stats with
        totalTicks := s.stats.totalTicks + userTick
        userTicks := s.stats.userTicks + userTick } }

/-- `Interrupt::OneTick` up to its call of `Yield`.  When that returns, much later,
`status` is set back, which is one more request to set it. -/
def oneTick (handlers : Handlers Handler World) (s : Interrupt Handler World) :
    Except Abort (Interrupt Handler World) :=
  if 2 ^ 31 ≤ s.tick.stats.totalTicks then .error .overflow
  else do
    let s ← { s.tick with level := .off }.drain handlers
    if s.yieldOnReturn then
      return { s with level := .on, yieldOnReturn := false, status := .system }
    else return { s with level := .on }

/-- `Interrupt::SetLevel`. -/
def setLevel (handlers : Handlers Handler World) (s : Interrupt Handler World)
    (now : IntStatus) : Except Abort (Interrupt Handler World) :=
  if now = .off ∨ s.inHandler = false then
    if now = .on ∧ s.level = .off then { s with level := now }.oneTick handlers
    else .ok { s with level := now }
  else .error .assertion

/-- `Interrupt::Idle`.  `Halt` never returns. -/
def idle (handlers : Handlers Handler World) (s : Interrupt Handler World) :
    Except Abort (Interrupt Handler World) := do
  let (fired, s) ← { s with status := .idle }.checkIfDue handlers true
  if fired then
    let s ← s.drain handlers
    return { s with yieldOnReturn := false, status := .system }
  else return { s with halted := true }

/-- What the devices, the machine and the threads ask for.  Nobody but `Idle` sets
`IdleMode`. -/
inductive Request (Handler : Type) where
  | schedule (handler : Handler) (arg : CInt) (fromNow : Int) (type : IntType)
  | oneTick
  | setLevel (now : IntStatus)
  | idle
  | setStatus (status : MachineStatus) (busy : status ≠ .idle)

def step (handlers : Handlers Handler World) (s : Interrupt Handler World)
    (request : Request Handler) : Except Abort (Interrupt Handler World) :=
  if s.halted then .error .halted
  else match request with
    | .schedule handler arg fromNow type => s.schedule handler arg fromNow type
    | .oneTick => s.oneTick handlers
    | .setLevel now => s.setLevel handlers now
    | .idle => s.idle handlers
    | .setStatus status _ => .ok { s with status := status }

end Interrupt

end Nachos
