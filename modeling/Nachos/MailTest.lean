import Mathlib.Data.Fintype.Inv
import Mathlib.Logic.Equiv.Basic
import Nachos.PostOfficeProgress

/-!
# The mail test

`MailTest` of `network/nettest.cc`, run by the main thread of each machine of a network: it
sends a message to the machine that it was told, waits for the message of another one,
acknowledges it, and waits for the acknowledgement of its own.  Then it halts the machine,
with its postal worker and its device.  Each machine is told one and by one other, or itself;
the comment in the source has two machines.

The threads run under the post offices of `network/post.cc`; here the main thread decides
which call it makes next.
-/

namespace Nachos

open TransitionRuns LittleEndianWords ListSplice PostOffice

namespace MailTest

/-- The two messages that each machine sends. -/
inductive Message where
  | data
  | ack
  deriving DecidableEq

namespace Message

/-- `Hello there!` and `Got it!`. -/
def characters : Message → List Byte
  | data => [72, 101, 108, 108, 111, 32, 116, 104, 101, 114, 101, 33]
  | ack => [71, 111, 116, 32, 105, 116, 33]

/-- What is sent: the characters and the zero at their end. -/
def text (message : Message) : List Byte :=
  message.characters ++ [0]

/-- The mailbox that the message goes to. -/
def box : Message → CInt
  | data => 0
  | ack => 1

/-- `outMailHdr` of the message; its sender is the mailbox to reply to. -/
def header (message : Message) : MailHeader :=
  ⟨message.box, 1, BitVec.ofNat 32 message.text.length⟩

/-- The messages in the order in which a machine sends them. -/
def before : Message → Message → Bool
  | data, ack => true
  | _, _ => false

/-- The messages fit into a packet, and there are mailboxes for them. -/
theorem fits (message : Message) : message.header.length.toNat ≤ maxMailSize ∧
    (0 ≤ message.box.toInt ∧ message.box.toInt < (10 : CInt).toInt) ∧
    message.header.length.toNat ≤ message.text.length := by
  cases message <;> decide

end Message

/-- How far `MailTest` is: it has not called the post office yet, or has made the call for a
message last, or has halted. -/
inductive Position where
  | start
  | sending (message : Message)
  | receiving (message : Message)
  | halted
  deriving DecidableEq

/-- A line of output: the text, and the sender's machine and mailbox. -/
structure Line where
  text : List Byte
  sender : CInt
  box : CInt
  deriving DecidableEq

/-- The variables of `MailTest`, apart from the fields that it neither sets nor reads, and its
output. -/
structure Main where
  position : Position
  receiver : CInt
  outMailHdr : MailHeader
  inPktHdr : PacketHeader
  inMailHdr : MailHeader
  buffer : List Byte
  output : List Line

namespace Main

/-- The headers hold zeros, and `buffer` what was in memory. -/
def new (memory : Nat → Byte) : Main where
  position := .start
  receiver := 0
  outMailHdr := ⟨0, 0, 0⟩
  inPktHdr := ⟨0, 0, 0⟩
  inMailHdr := ⟨0, 0, 0⟩
  buffer := (List.range maxMailSize).map memory
  output := []

/-- What `Receive` stores. -/
def read (main : Main) (mail : Mail) : Main :=
  { main with
    inPktHdr := mail.pktHdr
    inMailHdr := mail.mailHdr
    buffer := splice main.buffer 0 mail.data }

/-- `printf` of what was received. -/
def print (main : Main) : Except Fault Main :=
  if 0 ∈ main.buffer then
    .ok { main with output := main.output ++
      [⟨main.buffer.takeWhile (· != 0), main.inPktHdr.sender, main.inMailHdr.sender⟩] }
  else .error .outOfBounds

end Main

/-- The addresses of the machines, and the machine that each one is told. -/
structure Wiring (Machine : Type) where
  address : Machine ↪ CInt
  far : Equiv.Perm Machine

/-- The machines. -/
structure State (Machine : Type) where
  system : System Machine Machine
  mains : Machine → Main

variable {Machine : Type}

namespace Wiring

variable (net : Wiring Machine)

/-- The post offices have 10 mailboxes each (`threads/system.cc`). -/
def setup : Setup Machine :=
  ⟨net.address, 10⟩

variable [DecidableEq Machine] [Fintype Machine]

/-- The machine whose socket has the name that is made of the address. -/
def machineAt (address : CInt) : Option Machine :=
  if there : address ∈ Set.range net.address then
    some (net.address.injective.invOfMemRange ⟨address, there⟩)
  else none

/-- The call of `Send`. -/
def send (main : Main) (text : List Byte) : Except Fault (Main × Option (Call Machine)) :=
  match net.machineAt main.receiver with
  | some machine => .ok (main, some (.send ⟨machine, main.outMailHdr, text⟩))
  | none => .error .assertion

/-- `MailTest` from the return of one call of the post office to the next call, if it makes
one. -/
def proceed (machine : Machine) (main : Main) : Except Fault (Main × Option (Call Machine)) :=
  match main.position with
  | .start =>
      net.send { main with
        position := .sending .data
        receiver := net.address (net.far machine)
        outMailHdr := Message.data.header } Message.data.text
  | .sending message =>
      .ok ({ main with position := .receiving message }, some (.receive message.box))
  | .receiving .data => do
      let main ← main.print
      net.send { main with
        position := .sending .ack
        receiver := main.inPktHdr.sender
        outMailHdr := { main.outMailHdr with
          receiver := main.inMailHdr.sender
          length := BitVec.ofNat 32 Message.ack.text.length } } Message.ack.text
  | .receiving .ack => do
      let main ← main.print
      .ok ({ main with position := .halted }, none)
  | .halted => .ok (main, none)

/-- A step of the post offices. -/
def perform (s : State Machine) (action : SynchSystem.Action (Thread Machine Machine)
    (Choice Machine)) : Except Stop (State Machine) := do
  let system ← SynchSystem.step (program net.setup) s.system action
  return { s with system := system }

/-- A step of the main thread of a machine. -/
def stepMain (s : State Machine) (machine : Machine) (choice : Choice Machine) :
    Except Stop (State Machine) :=
  match (s.system.threads (.client machine)).pc.point with
  | .outside =>
      match net.proceed machine (s.mains machine) with
      | .error reason => .error (.fault reason)
      | .ok (main, none) => .ok { s with mains := Function.update s.mains machine main }
      | .ok (main, some call) =>
          net.perform { s with mains := Function.update s.mains machine main }
            (.thread (.client machine) { choice with call := call })
  | .send receiver _ =>
      -- a machine that has halted has removed its socket
      if (s.mains receiver).position = .halted then .error (.fault .assertion)
      else net.perform s (.thread (.client machine) choice)
  | .received mail =>
      net.perform { s with
        mains := Function.update s.mains machine ((s.mains machine).read mail) }
        (.thread (.client machine) choice)
  | _ => net.perform s (.thread (.client machine) choice)

/-- The machine where an action takes place. -/
def machineOf : SynchSystem.Action (Thread Machine Machine) (Choice Machine) → Machine
  | .thread thread _ => PostOffice.machineOf id thread
  | .interrupt choice => choice.device

/-- A step of the machines; those that have halted take none. -/
def step (s : State Machine) (action : SynchSystem.Action (Thread Machine Machine)
    (Choice Machine)) : Except Stop (State Machine) :=
  if (s.mains (machineOf action)).position = .halted then .error .notRunnable
  else
    match action with
    | .thread (.client machine) choice => net.stepMain s machine choice
    | action => net.perform s action

/-- The machines are up, and the main threads are about to call `MailTest`. -/
def boot (memory : Machine → Nat → Byte) : State Machine where
  system := PostOffice.boot net.setup id
  mains := fun machine => .new (memory machine)

end Wiring

section Records

variable [DecidableEq Machine] {setup : Setup Machine} {offices after : Machine → Office}

/-- The records of the messages that were accepted and received are the same. -/
def SameRecords (offices after : Machine → Office) : Prop :=
  ∀ machine, (after machine).accepted = (offices machine).accepted ∧
    ∀ box, ((after machine).boxes box).removed = ((offices machine).boxes box).removed

omit [DecidableEq Machine] in
theorem SameRecords.refl (offices : Machine → Office) : SameRecords offices offices :=
  fun _ => ⟨rfl, fun _ => rfl⟩

theorem sameRecords_update {machine : Machine} {office : Office}
    (accepted : office.accepted = (offices machine).accepted)
    (removed : ∀ box, (office.boxes box).removed = ((offices machine).boxes box).removed) :
    SameRecords offices (Function.update offices machine office) := by
  intro other
  by_cases same : other = machine
  · subst same
    rw [Function.update_self]
    exact ⟨accepted, removed⟩
  · rw [Function.update_of_ne same]
    exact ⟨rfl, fun _ => rfl⟩

omit [DecidableEq Machine] in
theorem accepted_of_deliver {office changed : Office} {mail : Mail}
    (delivered : setup.deliver office = .ok (changed, mail)) :
    changed.accepted = office.accepted := by
  unfold Setup.deliver at delivered
  dsimp only at delivered
  split at delivered
  · obtain ⟨letter, -, delivered⟩ := bind_eq_ok_iff.mp delivered
    cases delivered
    rfl
  · cases delivered

/-- Only the transmission of a packet and the test in `Remove` are recorded. -/
theorem sameRecords_of_run {thread : Thread Machine Machine} {choice : Choice Machine}
    {pc target : Pc Machine}
    {body : Thread Machine Machine → Choice Machine → (Machine → Office) →
      Except Fault ((Machine → Office) × Pc Machine)}
    (isRun : code setup pc = .run body) (done : body thread choice offices = .ok (after, target))
    (noSend : ∀ receiver mail, pc.point ≠ .send receiver mail)
    (noTest : ∀ box, pc.point ≠ .getTest box) : SameRecords offices after := by
  obtain ⟨machine, point⟩ := pc
  cases point with
  | deliver =>
      cases isRun
      obtain ⟨⟨office, mail⟩, delivered, done⟩ := bind_eq_ok_iff.mp done
      cases done
      exact sameRecords_update (accepted_of_deliver delivered)
        fun box => by rw [boxes_of_deliver delivered]
  | put mail =>
      cases isRun
      cases done
      refine sameRecords_update rfl fun box => ?_
      by_cases same : box = mail.mailHdr.receiver
      · subst same
        rw [setBox_boxes]
        rfl
      · rw [setBox_boxes_of_ne _ same]
  | outside =>
      cases isRun
      dsimp only at done
      split at done
      · obtain ⟨mail, -, done⟩ := bind_eq_ok_iff.mp done
        cases done
        exact .refl _
      · split at done <;> cases done
        exact .refl _
  | received mail =>
      cases isRun
      dsimp only at done
      split at done <;> cases done
      exact .refl _
  | send receiver mail => exact absurd rfl (noSend receiver mail)
  | getTest box => exact absurd rfl (noTest box)
  | _ => cases isRun

theorem sameRecords_of_interrupt {choice : Choice Machine} {sems : List (Sem Machine)}
    (pending : interrupt choice offices = some (.ok (after, sems))) :
    SameRecords offices after := by
  obtain ⟨call, memory, machine, event⟩ := choice
  cases event with
  | poll =>
      simp only [interrupt, Option.some.injEq] at pending
      obtain ⟨⟨network, socket, arrived⟩, -, done⟩ := bind_eq_ok_iff.mp pending
      cases done
      exact sameRecords_update rfl fun _ => rfl
  | sendDone =>
      simp only [interrupt, Option.map_eq_some_iff] at pending
      obtain ⟨network, -, done⟩ := pending
      cases done
      exact sameRecords_update rfl fun _ => rfl

/-- The network accepts a message. -/
theorem records_of_transmit {machine receiver : Machine} {mail : Mail} {memory : Nat → Byte}
    (sent : transmit offices machine receiver mail memory = .ok after) (other : Machine) :
    (after other).accepted = (if other = receiver then (offices other).accepted ++ [mail]
      else (offices other).accepted) ∧
    ∀ box, ((after other).boxes box).removed = ((offices other).boxes box).removed := by
  obtain ⟨⟨network, packet⟩, -, sent⟩ := bind_eq_ok_iff.mp sent
  cases sent
  have kept : SameRecords offices (Function.update offices machine { offices machine with
      network := network }) := sameRecords_update rfl fun _ => rfl
  by_cases same : other = receiver
  · subst same
    rw [Function.update_self, if_pos rfl]
    exact ⟨by rw [(kept other).1], (kept other).2⟩
  · rw [Function.update_of_ne same, if_neg same]
    exact kept other

/-- The test in `Remove`: there is no message, or the first one is taken. -/
theorem records_of_getTest {thread : Thread Machine Machine} {choice : Choice Machine}
    {machine : Machine} {box : CInt} {target : Pc Machine}
    (leads : SynchSystem.Leads thread choice offices ⟨machine, .getTest box⟩ after target
      (code setup ⟨machine, .getTest box⟩)) :
    (target = ⟨machine, .getWait box⟩ ∧ SameRecords offices after) ∨
    ∃ mail, target = ⟨machine, .getRelease box mail⟩ ∧
      (∀ other, (after other).accepted = (offices other).accepted) ∧
      ∀ other place, ((after other).boxes place).removed =
        if other = machine ∧ place = box then ((offices other).boxes place).removed ++ [mail]
        else ((offices other).boxes place).removed := by
  dsimp only [SynchSystem.Leads, code] at leads
  rcases ((offices machine).boxes box).take_cases with ⟨-, equal⟩ | ⟨mail, -, equal⟩
  · rw [equal] at leads
    cases leads
    refine Or.inl ⟨rfl, sameRecords_update rfl fun place => ?_⟩
    rw [Office.setBox, Function.update_eq_self]
  · rw [equal] at leads
    cases leads
    refine Or.inr ⟨mail, rfl, fun other => ?_, fun other place => ?_⟩
    · by_cases same : other = machine
      · subst same
        rw [Function.update_self]
        rfl
      · rw [Function.update_of_ne same]
    · by_cases same : other = machine
      · subst same
        rw [Function.update_self]
        by_cases here : place = box
        · subst here
          rw [setBox_boxes, if_pos ⟨rfl, rfl⟩]
        · rw [setBox_boxes_of_ne _ here, if_neg fun both => here both.2]
      · rw [Function.update_of_ne same, if_neg fun both => same both.1]

end Records

section Invariant

variable (net : Wiring Machine)

/-- The machine from which another one gets a message. -/
def Wiring.sender : Message → Equiv.Perm Machine
  | .data => net.far.symm
  | .ack => net.far

/-- The arguments with which a machine sends the message. -/
def Wiring.letter (message : Message) (machine : Machine) : Letter Machine :=
  ⟨(net.sender message).symm machine, message.header, message.text⟩

/-- The message as the machine sends it. -/
def Wiring.mail (message : Message) (machine : Machine) : Mail :=
  net.setup.mailOf machine (net.letter message machine)

/-- The line that a machine prints when it has got a message. -/
def Wiring.line (message : Message) (machine : Machine) : Line :=
  ⟨message.characters, net.address (net.sender message machine), 1⟩

/-- What a machine has printed. -/
def Wiring.printed (machine : Machine) : Position → List Line
  | .start | .sending .data | .receiving .data => []
  | .sending .ack | .receiving .ack => [net.line .data machine]
  | .halted => [net.line .data machine, net.line .ack machine]

/-- Where the main thread is in the post office, for each position in `MailTest`. -/
inductive Place (machine : Machine) : Position → Point Machine → Prop
  | start : Place machine .start .outside
  | sendAcquire (message : Message) : Place machine (.sending message)
      (.sendAcquire ((net.sender message).symm machine) (net.mail message machine))
  | send (message : Message) : Place machine (.sending message)
      (.send ((net.sender message).symm machine) (net.mail message machine))
  | waitSent (message : Message) : Place machine (.sending message) .waitSent
  | sendRelease (message : Message) : Place machine (.sending message) .sendRelease
  | sent (message : Message) : Place machine (.sending message) .outside
  | getAcquire (message : Message) :
      Place machine (.receiving message) (.getAcquire message.box)
  | getTest (message : Message) : Place machine (.receiving message) (.getTest message.box)
  | getWait (message : Message) : Place machine (.receiving message) (.getWait message.box)
  | getRelease (message : Message) : Place machine (.receiving message)
      (.getRelease message.box (net.mail message (net.sender message machine)))
  | received (message : Message) : Place machine (.receiving message)
      (.received (net.mail message (net.sender message machine)))
  | got (message : Message) : Place machine (.receiving message) .outside
  | halted : Place machine .halted .outside

/-- The network has accepted the message. -/
def hasSent (message : Message) : Position → Point Machine → Bool
  | .start, _ => false
  | .sending other, .sendAcquire _ _ | .sending other, .send _ _ => message.before other
  | .sending other, _ | .receiving other, _ => message.before other || message == other
  | .halted, _ => true

/-- The main thread has taken the message out of its mailbox. -/
def hasGot (message : Message) : Position → Point Machine → Bool
  | .start, _ => false
  | .sending other, _ => message.before other
  | .receiving other, .getAcquire _ | .receiving other, .getTest _ |
    .receiving other, .getWait _ => message.before other
  | .receiving other, _ => message.before other || message == other
  | .halted, _ => true

/-- The main thread has stored the message in its variables. -/
structure Main.Holds (main : Main) (mail : Mail) : Prop where
  packet : main.inPktHdr = mail.pktHdr
  letter : main.inMailHdr = mail.mailHdr
  data : ∃ rest, main.buffer = mail.data ++ rest

/-- The variables of a main thread. -/
structure Locals (machine : Machine) (main : Main) (point : Point Machine) : Prop where
  reply : main.position ≠ .start → main.outMailHdr.sender = 1
  holds : ∀ message, main.position = .receiving message → point = .outside →
    main.Holds (net.mail message (net.sender message machine))
  output : main.output = net.printed machine main.position

/-- The point of a main thread. -/
def State.point (s : State Machine) (machine : Machine) : Point Machine :=
  (s.system.threads (.client machine)).pc.point

/-- A run of the post offices reaches the state. -/
def Reached [DecidableEq Machine] (system : System Machine Machine) : Prop :=
  ∃ actions, run (SynchSystem.step (program net.setup)) (PostOffice.boot net.setup id) actions =
    .ok system

/-- The main threads are where they belong; the messages that have been sent have been
accepted, and those that a main thread has got were taken out of its mailboxes. -/
structure Invariant [DecidableEq Machine] (s : State Machine) : Prop where
  reached : Reached net s.system
  place : ∀ machine, Place net machine (s.mains machine).position (s.point machine)
  locals : ∀ machine, Locals net machine (s.mains machine) (s.point machine)
  accepted : ∀ message machine, toBox message.box (s.system.vars machine).accepted =
    if hasSent message (s.mains (net.sender message machine)).position
      (s.point (net.sender message machine))
    then [net.mail message (net.sender message machine)] else []
  removed : ∀ message machine, ((s.system.vars machine).boxes message.box).removed =
    if hasGot message (s.mains machine).position (s.point machine)
    then [net.mail message (net.sender message machine)] else []

variable {net} [DecidableEq Machine] {s next : State Machine} {machine : Machine}

theorem invariant_boot [Fintype Machine] (net : Wiring Machine) (memory : Machine → Nat → Byte) :
    Invariant net (net.boot memory) := by
  refine ⟨⟨[], rfl⟩, fun machine => .start, fun machine => ⟨?_, ?_, rfl⟩, fun message machine => ?_,
    fun message machine => ?_⟩
  · exact fun started => absurd rfl started
  · intro message receiving
    cases receiving
  · rfl
  · rfl

/-- The main threads do not notice the step. -/
theorem Invariant.unnoticed (invariant : Invariant net s)
    (reached : Reached net next.system)
    (records : SameRecords s.system.vars next.system.vars) (mains : next.mains = s.mains)
    (points : ∀ machine, next.point machine = s.point machine) : Invariant net next := by
  refine ⟨reached, fun machine => ?_, fun machine => ?_, fun message machine => ?_,
    fun message machine => ?_⟩
  · rw [mains, points]
    exact invariant.place machine
  · rw [mains, points]
    exact invariant.locals machine
  · rw [(records machine).1, mains, points]
    exact invariant.accepted message machine
  · rw [(records machine).2, mains, points]
    exact invariant.removed message machine

/-- A main thread goes on. -/
theorem Invariant.move (invariant : Invariant net s) (reached : Reached net next.system)
    (others : ∀ other, other ≠ machine → next.mains other = s.mains other ∧
      next.point other = s.point other)
    (place : Place net machine (next.mains machine).position (next.point machine))
    (locals : Locals net machine (next.mains machine) (next.point machine))
    (accepted : ∀ message other, toBox message.box (next.system.vars other).accepted =
      if hasSent message (next.mains (net.sender message other)).position
        (next.point (net.sender message other))
      then [net.mail message (net.sender message other)] else [])
    (removed : ∀ message other, ((next.system.vars other).boxes message.box).removed =
      if hasGot message (next.mains other).position (next.point other)
      then [net.mail message (net.sender message other)] else []) : Invariant net next := by
  refine ⟨reached, fun other => ?_, fun other => ?_, accepted, removed⟩
  · by_cases same : other = machine
    · rwa [same]
    · rw [(others other same).1, (others other same).2]
      exact invariant.place other
  · by_cases same : other = machine
    · rwa [same]
    · rw [(others other same).1, (others other same).2]
      exact invariant.locals other

/-- A main thread goes on; nothing is sent or got. -/
theorem Invariant.keep (invariant : Invariant net s)
    (reached : Reached net next.system)
    (records : SameRecords s.system.vars next.system.vars)
    (others : ∀ other, other ≠ machine → next.mains other = s.mains other ∧
      next.point other = s.point other)
    (place : Place net machine (next.mains machine).position (next.point machine))
    (locals : Locals net machine (next.mains machine) (next.point machine))
    (sent : ∀ message, hasSent message (next.mains machine).position (next.point machine) =
      hasSent message (s.mains machine).position (s.point machine))
    (got : ∀ message, hasGot message (next.mains machine).position (next.point machine) =
      hasGot message (s.mains machine).position (s.point machine)) : Invariant net next := by
  refine invariant.move reached others place locals (fun message other => ?_)
    fun message other => ?_
  · rw [(records other).1, invariant.accepted]
    by_cases same : net.sender message other = machine
    · rw [same, sent]
    · rw [(others _ same).1, (others _ same).2]
  · rw [(records other).2, invariant.removed]
    by_cases same : other = machine
    · rw [same, got]
    · rw [(others other same).1, (others other same).2]

/-- A main thread goes on inside of a call. -/
theorem Invariant.advance (invariant : Invariant net s) (reached : Reached net next.system)
    (records : SameRecords s.system.vars next.system.vars) (mains : next.mains = s.mains)
    (others : ∀ other, other ≠ machine → next.point other = s.point other)
    {position : Position} {point target : Point Machine}
    (before : (s.mains machine).position = position ∧ s.point machine = point)
    (after : next.point machine = target) (place : Place net machine position target)
    (inside : ∀ message, position = .receiving message → target ≠ .outside)
    (sent : ∀ message, hasSent message position target = hasSent message position point)
    (got : ∀ message, hasGot message position target = hasGot message position point) :
    Invariant net next := by
  obtain ⟨rfl, rfl⟩ := before
  subst after
  obtain ⟨reply, -, output⟩ := invariant.locals machine
  rw [← mains] at place sent got inside reply output
  refine invariant.keep reached records
    (fun other different => ⟨by rw [mains], others other different⟩) place
    ⟨reply, fun message receiving outside => absurd outside (inside message receiving), output⟩
    (fun message => ?_) fun message => ?_
  · rw [sent, mains]
  · rw [got, mains]

end Invariant

end MailTest

end Nachos
