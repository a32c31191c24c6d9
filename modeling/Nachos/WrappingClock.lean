import Nachos.Interrupt

/-!
# Interrupts on a clock that wraps around

`machine/interrupt.cc` again, with `totalTicks` and the times when interrupts are due as the
words that they are: a sum beyond the largest `int` wraps around.  So the loops that run the
handlers need not come to an end, and their rounds are limited here by a number that is
given to them.

`elapsed` counts the ticks without a limit.  It is recorded with each interrupt when that is
scheduled and when it fires; no code reads it.
-/

namespace Nachos

/-- `class PendingInterrupt`, with the delay `fromNow` and the value of `elapsed` when it was
scheduled. -/
structure Booking (Handler : Type) where
  handler : Handler
  arg : CInt
  when : CInt
  type : IntType
  fromNow : CInt
  bookedAt : Int
  deriving DecidableEq

/-- What a handler asks of the interrupt system. -/
inductive DeviceCall (Handler : Type) where
  | schedule (handler : Handler) (arg fromNow : CInt) (type : IntType)
  | yieldOnReturn

/-- The handlers: their effect on the rest of the machine and their calls, given the
argument and `totalTicks`. -/
abbrev DeviceHandlers (Handler World : Type) :=
  Handler → CInt → CInt → World → World × List (DeviceCall Handler)

/-- `class Interrupt`, the statistics and the rest of the machine.  `fired` holds the
interrupts that have occurred with the value of `elapsed` at that time. -/
structure WrappingClock (Handler World : Type) where
  level : IntStatus
  pending : LinkedList (Booking Handler)
  inHandler : Bool
  yieldOnReturn : Bool
  status : MachineStatus
  totalTicks : CInt
  idleTicks : CInt
  systemTicks : CInt
  userTicks : CInt
  world : World
  halted : Bool
  elapsed : Int
  fired : List (Booking Handler × Int)

namespace WrappingClock

variable {Handler World : Type}

/-- `Interrupt::Interrupt`, with the statistics at zero. -/
def new (world : World) : WrappingClock Handler World where
  level := .off
  pending := LinkedList.empty
  inHandler := false
  yieldOnReturn := false
  status := .system
  totalTicks := 0
  idleTicks := 0
  systemTicks := 0
  userTicks := 0
  world := world
  halted := false
  elapsed := 0
  fired := []

/-- `Interrupt::Schedule`. -/
def schedule (s : WrappingClock Handler World) (handler : Handler) (arg fromNow : CInt)
    (type : IntType) : Except Abort (WrappingClock Handler World) :=
  let when := s.totalTicks + fromNow
  let toOccur : Booking Handler := ⟨handler, arg, when, type, fromNow, s.elapsed⟩
  if fromNow.toInt > 0 then
    .ok { s with pending := s.pending.sortedInsert toOccur when.toInt }
  else .error .assertion

/-- `Interrupt::YieldOnReturn`. -/
def requestYield (s : WrappingClock Handler World) :
    Except Abort (WrappingClock Handler World) :=
  if s.inHandler then .ok { s with yieldOnReturn := true } else .error .assertion

/-- The calls of a handler, in order. -/
def perform (s : WrappingClock Handler World) :
    List (DeviceCall Handler) → Except Abort (WrappingClock Handler World)
  | [] => .ok s
  | .schedule handler arg fromNow type :: calls => do
      let s ← s.schedule handler arg fromNow type
      s.perform calls
  | .yieldOnReturn :: calls => do
      let s ← s.requestYield
      s.perform calls

/-- `CheckIfDue` from the call of the handler on. -/
def invoke (handlers : DeviceHandlers Handler World) (s : WrappingClock Handler World)
    (toOccur : Booking Handler) : Except Abort (WrappingClock Handler World) := do
  let result := handlers toOccur.handler toOccur.arg s.totalTicks s.world
  let after ← { s with
    inHandler := true
    status := .system
    world := result.1
    fired := s.fired ++ [(toOccur, s.elapsed)] }.perform result.2
  return { after with status := s.status, inHandler := false }

/-- The clock of an idle machine is set to the next interrupt. -/
def advanceClock (s : WrappingClock Handler World) (when : Int) : WrappingClock Handler World :=
  { s with
    idleTicks := s.idleTicks + (BitVec.ofInt 32 when - s.totalTicks)
    totalTicks := BitVec.ofInt 32 when
    elapsed := s.elapsed + (when - s.totalTicks.toInt) }

/-- An idle machine puts back the timer's interrupt when there is no other one. -/
def unlessDone (s : WrappingClock Handler World) (toOccur : Booking Handler) (when : Int) :
    Option (Booking Handler) × WrappingClock Handler World :=
  if s.status = .idle ∧ toOccur.type = .timer ∧ s.pending.isEmpty = true then
    (none, { s with pending := s.pending.sortedInsert toOccur when })
  else (some toOccur, s)

/-- `CheckIfDue` up to the call of the handler: the interrupt that fires, if any. -/
def takeDue (s : WrappingClock Handler World) (advance : Bool) :
    Option (Booking Handler) × WrappingClock Handler World :=
  match s.pending.sortedRemove with
  | (none, _) => (none, s)
  | (some (toOccur, when), rest) =>
      let removed := { s with pending := rest }
      if advance = true ∧ when > s.totalTicks.toInt then
        (removed.advanceClock when).unlessDone toOccur when
      else if when > s.totalTicks.toInt then
        (none, { s with pending := rest.sortedInsert toOccur when })
      else removed.unlessDone toOccur when

/-- `Interrupt::CheckIfDue`. -/
def checkIfDue (handlers : DeviceHandlers Handler World) (s : WrappingClock Handler World)
    (advance : Bool) : Except Abort (Bool × WrappingClock Handler World) :=
  if s.level = .off then
    match s.takeDue advance with
    | (none, s) => .ok (false, s)
    | (some toOccur, s) => do
        let s ← s.invoke handlers toOccur
        return (true, s)
  else .error .assertion

/-- `while (CheckIfDue(FALSE));`, for at most the given number of rounds. -/
def checkAll (handlers : DeviceHandlers Handler World) :
    Nat → WrappingClock Handler World → Except Abort (WrappingClock Handler World)
  | 0, _ => .error .diverged
  | rounds + 1, s => do
      let (fired, s) ← s.checkIfDue handlers false
      if fired then checkAll handlers rounds s else .ok s

/-- The ticks that `OneTick` adds. -/
def tick (s : WrappingClock Handler World) : WrappingClock Handler World :=
  if s.status = .system then
    { s with
      totalTicks := s.totalTicks + BitVec.ofInt 32 systemTick
      systemTicks := s.systemTicks + BitVec.ofInt 32 systemTick
      elapsed := s.elapsed + systemTick }
  else
    { s with
      totalTicks := s.totalTicks + BitVec.ofInt 32 userTick
      userTicks := s.userTicks + BitVec.ofInt 32 userTick
      elapsed := s.elapsed + userTick }

/-- `Interrupt::OneTick` up to its call of `Yield`. -/
def oneTick (handlers : DeviceHandlers Handler World) (rounds : Nat)
    (s : WrappingClock Handler World) : Except Abort (WrappingClock Handler World) := do
  let s ← checkAll handlers rounds { s.tick with level := .off }
  if s.yieldOnReturn then
    return { s with level := .on, yieldOnReturn := false, status := .system }
  else return { s with level := .on }

/-- `Interrupt::Idle`.  `Halt` never returns. -/
def idle (handlers : DeviceHandlers Handler World) (rounds : Nat)
    (s : WrappingClock Handler World) : Except Abort (WrappingClock Handler World) := do
  let (fired, s) ← { s with status := .idle }.checkIfDue handlers true
  if fired then
    let s ← checkAll handlers rounds s
    return { s with yieldOnReturn := false, status := .system }
  else return { s with halted := true }

/-- What the devices, the machine and the threads do with the clock and with the pending
list, each `CheckIfDue` of a loop by itself. -/
inductive Action (Handler : Type) where
  | schedule (handler : Handler) (arg fromNow : CInt) (type : IntType)
  | tick
  | checkIfDue (advance : Bool)
  /-- Assignments to the other members. -/
  | assign (level : IntStatus) (status : MachineStatus) (yieldOnReturn halted : Bool)

def step (handlers : DeviceHandlers Handler World) (s : WrappingClock Handler World) :
    Action Handler → Except Abort (WrappingClock Handler World)
  | .schedule handler arg fromNow type => s.schedule handler arg fromNow type
  | .tick => .ok s.tick
  | .checkIfDue advance => (s.checkIfDue handlers advance).map Prod.snd
  | .assign level status yieldOnReturn halted => .ok { s with
      level := level
      status := status
      yieldOnReturn := yieldOnReturn
      halted := halted }

end WrappingClock

end Nachos
