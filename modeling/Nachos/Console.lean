import Mathlib.Data.List.Basic

/-!
# The console

A poll reads the next byte that was typed into a buffer of one character, unless there is a
character in it, and calls a handler; `GetChar` empties the buffer.  Another interrupt tells
that a character has left for the display.  `ConsoleTest` echoes what is typed.

The bytes that were typed and those that `GetChar` returned are recorded beside the console;
no code reads them.
-/

namespace Nachos

/-- A `char` of the i386 build, which is signed. -/
abbrev CChar := BitVec 8

/-- `EOF`. -/
def eof : Int := -1

/-- `class Console` with both of its files, its counters in `stats` and the number of its
interrupts that are scheduled.  The keyboard has the bytes that can be read. -/
structure Console where
  incoming : CChar
  putBusy : Bool
  keyboard : List CChar
  display : List CChar
  numConsoleCharsRead : Nat
  numConsoleCharsWritten : Nat
  readsScheduled : Nat
  writesScheduled : Nat
  deriving DecidableEq, Repr

namespace Console

/-- `Console::Console`. -/
def new : Console where
  incoming := BitVec.ofInt 8 eof
  putBusy := false
  keyboard := []
  display := []
  numConsoleCharsRead := 0
  numConsoleCharsWritten := 0
  readsScheduled := 1
  writesScheduled := 0

/-- `CheckCharAvail`, and whether it calls the handler.  The next poll is scheduled in any
case. -/
def checkCharAvail (console : Console) : Console × Bool :=
  let polled := { console with readsScheduled := console.readsScheduled + 1 }
  if console.incoming.toInt ≠ eof then (polled, false)
  else
    match console.keyboard with
    | [] => (polled, false)
    | c :: keyboard => ({ polled with
        keyboard := keyboard
        incoming := c
        numConsoleCharsRead := console.numConsoleCharsRead + 1 }, true)

/-- `GetChar`. -/
def getChar (console : Console) : CChar × Console :=
  (console.incoming, { console with incoming := BitVec.ofInt 8 eof })

/-- `PutChar`, or none when its `ASSERT` fails. -/
def putChar (console : Console) (ch : CChar) : Option Console :=
  if console.putBusy then none
  else some { console with
    display := console.display ++ [ch]
    putBusy := true
    writesScheduled := console.writesScheduled + 1 }

/-- `WriteDone`, which calls the handler. -/
def writeDone (console : Console) : Console :=
  { console with
    putBusy := false
    numConsoleCharsWritten := console.numConsoleCharsWritten + 1 }

end Console

/-- Why an action is not completed: an `ASSERT` fails, or it cannot happen now. -/
inductive ConsoleStop
  | assertion
  | disabled
  deriving DecidableEq, Repr

/-- The console with the handler calls that no `GetChar` has answered, as counted by the
semaphore `readAvail`, and the record. -/
structure ConsoleInput where
  console : Console
  readAvail : Nat
  typed : List CChar
  returned : List CChar
  deriving DecidableEq, Repr

namespace ConsoleInput

inductive Action
  | typeByte (c : CChar)
  | poll
  | getChar
  deriving DecidableEq, Repr

def start : ConsoleInput where
  console := .new
  readAvail := 0
  typed := []
  returned := []

/-- A byte is typed. -/
def typeByte (s : ConsoleInput) (c : CChar) : ConsoleInput :=
  { s with
    console := { s.console with keyboard := s.console.keyboard ++ [c] }
    typed := s.typed ++ [c] }

/-- The interrupt for which `ConsoleReadPoll` was scheduled. -/
def poll (s : ConsoleInput) : ConsoleInput :=
  let fired := { s.console with readsScheduled := s.console.readsScheduled - 1 }
  let checked := fired.checkCharAvail
  { s with
    console := checked.1
    readAvail := if checked.2 then s.readAvail + 1 else s.readAvail }

/-- A call of `GetChar` that answers a call of the handler. -/
def getChar (s : ConsoleInput) : ConsoleInput :=
  { s with
    console := s.console.getChar.2
    readAvail := s.readAvail - 1
    returned := s.returned ++ [s.console.getChar.1] }

def step (s : ConsoleInput) : Action → Except ConsoleStop ConsoleInput
  | .typeByte c => .ok (s.typeByte c)
  | .poll => if s.console.readsScheduled = 0 then .error .disabled else .ok s.poll
  | .getChar => if s.readAvail = 0 then .error .disabled else .ok s.getChar

end ConsoleInput

/-- Where the thread of `ConsoleTest` is. -/
inductive EchoThread
  | awaitChar
  | awaitWrite (ch : CChar)
  | finished
  deriving DecidableEq, Repr

/-- `ConsoleTest` and its console.  `writeDone` is the value of the semaphore. -/
structure ConsoleTest where
  input : ConsoleInput
  writeDone : Nat
  thread : EchoThread
  deriving DecidableEq, Repr

namespace ConsoleTest

inductive Action
  | typeByte (c : CChar)
  | poll
  | writeDone
  | runThread
  deriving DecidableEq, Repr

def start : ConsoleTest where
  input := .start
  writeDone := 0
  thread := .awaitChar

/-- The thread, until it waits for a semaphore again. -/
def runThread (s : ConsoleTest) : Except ConsoleStop ConsoleTest :=
  match s.thread with
  | .awaitChar =>
      if s.input.readAvail = 0 then .error .disabled
      else
        let input := s.input.getChar
        match input.console.putChar s.input.console.getChar.1 with
        | none => .error .assertion
        | some console => .ok { s with
            input := { input with console := console }
            thread := .awaitWrite s.input.console.getChar.1 }
  | .awaitWrite ch =>
      if s.writeDone = 0 then .error .disabled
      else .ok { s with
        writeDone := s.writeDone - 1
        thread := if ch = 113 then .finished else .awaitChar }
  | .finished => .error .disabled

def step (s : ConsoleTest) : Action → Except ConsoleStop ConsoleTest
  | .typeByte c => (s.input.step (.typeByte c)).map fun input => { s with input := input }
  | .poll => (s.input.step .poll).map fun input => { s with input := input }
  | .writeDone =>
      if s.input.console.writesScheduled = 0 then .error .disabled
      else
        let fired := { s.input.console with
          writesScheduled := s.input.console.writesScheduled - 1 }
        .ok { s with
          input := { s.input with console := fired.writeDone }
          writeDone := s.writeDone + 1 }
  | .runThread => s.runThread

end ConsoleTest

end Nachos
