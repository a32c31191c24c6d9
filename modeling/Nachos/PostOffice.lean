import Nachos.MonitorRuns
import Nachos.SynchList
import Nachos.Network

/-!
# Post offices

`network/post.cc` on machines that are joined by sockets.  On each machine a postal worker
waits for the packets that its network device has buffered and puts the messages into the
mailboxes, while any number of clients send and receive.  A device polls its socket, and
reports that a packet was sent, whenever an interrupt is taken; a thread gives way at the
operations on semaphores, locks and condition variables.

The threads of all machines make up one system, in which each machine has its own
semaphores, locks and mailboxes.  It is recorded which messages the network has accepted
for a machine, in that order; no code reads the record.
-/

namespace Nachos

open MesaMonitor TransitionRuns LittleEndianWords ListSplice

namespace PostOffice

/-- The network addresses of the machines, and the number of mailboxes of each. -/
structure Setup (Machine : Type) where
  address : Machine ↪ CInt
  numBoxes : CInt

/-- What belongs to a machine: the network device and the packets in its socket, the
buffer of `PostalDelivery`, the mailboxes, and the record. -/
structure Office where
  network : Network
  socket : List (List Byte)
  buffer : List Byte
  boxes : CInt → SynchList Mail
  accepted : List Mail

/-- The arguments of `PostOffice::Send`. -/
structure Letter (Machine : Type) where
  receiver : Machine
  mailHdr : MailHeader
  data : List Byte

inductive Call (Machine : Type) where
  | send (letter : Letter Machine)
  | receive (box : CInt)

inductive Event where
  | poll
  | sendDone

/-- The next call of a client, the contents of newly allocated memory, and the device
whose interrupt is taken. -/
structure Choice (Machine : Type) where
  call : Call Machine
  memory : Nat → Byte
  device : Machine
  event : Event

/-- The points of `PostalDelivery` and `MailBox::Put`, of `Send`, and of `Receive` and
`MailBox::Get`. -/
inductive Point (Machine : Type) where
  | waitMessage
  | deliver
  | putAcquire (mail : Mail)
  | put (mail : Mail)
  | putSignal (box : CInt)
  | putRelease (box : CInt)
  | outside
  | sendAcquire (receiver : Machine) (mail : Mail)
  | send (receiver : Machine) (mail : Mail)
  | waitSent
  | sendRelease
  | getAcquire (box : CInt)
  | getTest (box : CInt)
  | getWait (box : CInt)
  | getRelease (box : CInt) (mail : Mail)
  | received (mail : Mail)

/-- A point of the code that is run on a machine. -/
structure Pc (Machine : Type) where
  machine : Machine
  point : Point Machine

inductive Sem (Machine : Type) where
  | messageAvailable (machine : Machine)
  | messageSent (machine : Machine)
  deriving DecidableEq

inductive Lock (Machine : Type) where
  | sendLock (machine : Machine)
  | list (machine : Machine) (box : CInt)
  deriving DecidableEq

/-- `listEmpty` of a mailbox of a machine. -/
structure Cond (Machine : Type) where
  machine : Machine
  box : CInt
  deriving DecidableEq

inductive Thread (Machine Client : Type) where
  | worker (machine : Machine)
  | client (client : Client)
  deriving DecidableEq

variable {Machine Client : Type}

namespace Setup

variable (setup : Setup Machine)

def IsBox (box : CInt) : Prop :=
  0 ≤ box.toInt ∧ box.toInt < setup.numBoxes.toInt

instance (box : CInt) : Decidable (setup.IsBox box) :=
  inferInstanceAs (Decidable (_ ∧ _))

/-- The message that a letter makes on the given machine. -/
def mailOf (machine : Machine) (letter : Letter Machine) : Mail where
  pktHdr := {
    receiver := setup.address letter.receiver
    sender := setup.address machine
    length := letter.mailHdr.length + BitVec.ofNat 32 headerSize }
  mailHdr := letter.mailHdr
  data := letter.data.take letter.mailHdr.length.toNat

/-- `Send` up to its call of `Acquire`. -/
def post (machine : Machine) (letter : Letter Machine) : Except Fault Mail :=
  if letter.mailHdr.length.toNat ≤ maxMailSize ∧ setup.IsBox letter.mailHdr.receiver then
    -- `bcopy` reads the bytes of the caller
    if letter.mailHdr.length.toNat ≤ letter.data.length then .ok (setup.mailOf machine letter)
    else .error .outOfBounds
  else .error .assertion

/-- `PostalDelivery` from the return of `P` up to the creation of the message. -/
def deliver (office : Office) : Except Fault (Office × Mail) :=
  let (pktHdr, buffer, network) := office.network.receive office.buffer
  let mailHdr := MailHeader.ofBytes buffer
  if setup.IsBox mailHdr.receiver ∧ mailHdr.length.toNat ≤ maxMailSize then do
    let mail ← Mail.new pktHdr mailHdr (buffer.drop headerSize)
    return ({ office with network := network, buffer := buffer }, mail)
  else .error .assertion

end Setup

variable [DecidableEq Machine]

/-- `Network::Send` of a machine to the socket of another one. -/
def transmit (offices : Machine → Office) (machine receiver : Machine) (mail : Mail)
    (memory : Nat → Byte) : Except Fault (Machine → Office) := do
  let (network, packet) ← (offices machine).network.send mail.pktHdr mail.body memory
  let offices := Function.update offices machine { offices machine with network := network }
  return Function.update offices receiver { offices receiver with
    socket := (offices receiver).socket ++ [packet]
    accepted := (offices receiver).accepted ++ [mail] }

/-- A mailbox is replaced. -/
def Office.setBox (office : Office) (box : CInt) (messages : SynchList Mail) : Office :=
  { office with boxes := Function.update office.boxes box messages }

def code (setup : Setup Machine) (pc : Pc Machine) :
    Instr (Thread Machine Client) (Machine → Office) (Pc Machine) (Sem Machine) (Lock Machine)
      (Cond Machine) (Choice Machine) Fault :=
  let machine := pc.machine
  match pc.point with
  | .waitMessage => .p (.messageAvailable machine) ⟨machine, .deliver⟩
  | .deliver => .run fun _ _ offices => do
      let (office, mail) ← setup.deliver (offices machine)
      return (Function.update offices machine office, ⟨machine, .putAcquire mail⟩)
  | .putAcquire mail => .acquire (.list machine mail.mailHdr.receiver) ⟨machine, .put mail⟩
  | .put mail => .run fun _ _ offices =>
      let box := mail.mailHdr.receiver
      .ok (Function.update offices machine
        ((offices machine).setBox box (((offices machine).boxes box).put mail)),
        ⟨machine, .putSignal box⟩)
  | .putSignal box => .signal ⟨machine, box⟩ ⟨machine, .putRelease box⟩
  | .putRelease box => .release (.list machine box) ⟨machine, .waitMessage⟩
  | .outside => .run fun _ choice offices =>
      match choice.call with
      | .send letter => do
          let mail ← setup.post machine letter
          return (offices, ⟨machine, .sendAcquire letter.receiver mail⟩)
      | .receive box =>
          if setup.IsBox box then .ok (offices, ⟨machine, .getAcquire box⟩)
          else .error .assertion
  | .sendAcquire receiver mail => .acquire (.sendLock machine) ⟨machine, .send receiver mail⟩
  | .send receiver mail => .run fun _ choice offices => do
      let offices ← transmit offices machine receiver mail choice.memory
      return (offices, ⟨machine, .waitSent⟩)
  | .waitSent => .p (.messageSent machine) ⟨machine, .sendRelease⟩
  | .sendRelease => .release (.sendLock machine) ⟨machine, .outside⟩
  | .getAcquire box => .acquire (.list machine box) ⟨machine, .getTest box⟩
  | .getTest box => .run fun _ _ offices => do
      let (messages, mail) ← ((offices machine).boxes box).take
      return (Function.update offices machine ((offices machine).setBox box messages),
        ⟨machine, match mail with
          | none => .getWait box
          | some mail => .getRelease box mail⟩)
  | .getWait box => .wait ⟨machine, box⟩ ⟨machine, .getTest box⟩
  | .getRelease box mail => .release (.list machine box) ⟨machine, .received mail⟩
  | .received mail => .run fun _ _ offices =>
      if mail.mailHdr.length.toNat ≤ maxMailSize then .ok (offices, ⟨machine, .outside⟩)
      else .error .assertion

/-- The interrupt handlers: `CheckPktAvail`, which calls `IncomingPacket` when it has
buffered a packet, and `SendDone`, which calls `PacketSent`. -/
def interrupt (choice : Choice Machine) (offices : Machine → Office) :
    Option (Except Fault ((Machine → Office) × List (Sem Machine))) :=
  let machine := choice.device
  let office := offices machine
  match choice.event with
  | .poll => some do
      let (network, socket, arrived) ← office.network.checkPktAvail office.socket
      return (Function.update offices machine { office with
          network := network
          socket := socket },
        if arrived then [.messageAvailable machine] else [])
  | .sendDone => office.network.sendDone.map fun network =>
      .ok (Function.update offices machine { office with network := network },
        [.messageSent machine])

def program (setup : Setup Machine) :
    FlowChart (Thread Machine Client) (Machine → Office) (Pc Machine) (Sem Machine) (Lock Machine)
      (Cond Machine) (Choice Machine) Fault where
  code := code setup
  lockOf := fun cond => .list cond.machine cond.box
  interrupt := interrupt

/-- `PostOffice::PostOffice`; the memory of the buffer holds zeros. -/
def Office.new (addr : CInt) : Office where
  network := .new addr
  socket := []
  buffer := List.replicate maxPacketSize 0
  boxes := fun _ => .new
  accepted := []

/-- The point where a thread starts. -/
def entry (home : Client → Machine) : Thread Machine Client → Pc Machine
  | .worker machine => ⟨machine, .waitMessage⟩
  | .client client => ⟨home client, .outside⟩

/-- The postal workers are about to start, and no client has called. -/
def boot (setup : Setup Machine) (home : Client → Machine) :
    SynchSystem (Thread Machine Client) (Machine → Office) (Pc Machine) (Sem Machine)
      (Lock Machine) (Cond Machine) :=
  .boot (fun machine => .new (setup.address machine)) (fun _ => 0) (entry home)

/-- The points where a lock is held. -/
def critical (pc : Pc Machine) : Option (Lock Machine) :=
  match pc.point with
  | .put mail => some (.list pc.machine mail.mailHdr.receiver)
  | .putSignal box | .putRelease box | .getTest box | .getWait box | .getRelease box _ =>
      some (.list pc.machine box)
  | .send _ _ | .waitSent | .sendRelease => some (.sendLock pc.machine)
  | _ => none

theorem labelled (setup : Setup Machine) :
    (program setup : FlowChart (Thread Machine Client) _ _ _ _ _ _ _).Labelled critical := by
  rintro ⟨machine, point⟩
  cases point with
  | waitMessage | waitSent => rfl
  | deliver =>
      intro thread choice offices result done
      obtain ⟨middle, -, done⟩ := bind_eq_ok_iff.mp done
      cases done
      rfl
  | put mail =>
      intro thread choice offices result done
      cases done
      rfl
  | outside =>
      intro thread choice offices result done
      dsimp only at done
      split at done
      · obtain ⟨middle, -, done⟩ := bind_eq_ok_iff.mp done
        cases done
        rfl
      · split at done <;> cases done
        rfl
  | send receiver mail =>
      intro thread choice offices result done
      obtain ⟨middle, -, done⟩ := bind_eq_ok_iff.mp done
      cases done
      rfl
  | getTest box =>
      intro thread choice offices result done
      obtain ⟨⟨messages, mail⟩, -, done⟩ := bind_eq_ok_iff.mp done
      cases done
      cases mail <;> rfl
  | received mail =>
      intro thread choice offices result done
      dsimp only at done
      split at done <;> cases done
      rfl
  | putAcquire | putSignal | putRelease | sendAcquire | sendRelease | getAcquire | getWait |
    getRelease => exact ⟨rfl, rfl⟩

section Path

/-- The message is addressed to a mailbox of the machine. -/
structure Addressed (setup : Setup Machine) (machine : Machine) (mail : Mail) : Prop where
  receiver : mail.pktHdr.receiver = setup.address machine
  box : setup.IsBox mail.mailHdr.receiver

/-- The messages for a mailbox. -/
def toBox (box : CInt) (mails : List Mail) : List Mail :=
  mails.filter fun mail => mail.mailHdr.receiver = box

/-- The message that the device has buffered. -/
def buffered (network : Network) : List Mail :=
  if network.inHdr.length = 0 then [] else [.ofBody network.inHdr network.inbox]

/-- The path of the messages to a machine: from its socket they get into the device and
into the hands of the postal worker, who puts them into the mailboxes.  The semaphore has
a unit, unless the worker has already taken it, exactly when a message is buffered. -/
structure Path (setup : Setup Machine) (machine : Machine) (office : Office) (units : Int)
    (inHand : List Mail) : Prop where
  ident : office.network.ident = setup.address machine
  free : office.network.sendBusy = false
  socket : ∀ packet ∈ office.socket, ∃ mail : Mail, mail.OnWire packet ∧
    Addressed setup machine mail
  inbox : office.network.inHdr.length ≠ 0 → ∃ mail : Mail,
    mail.InBuffer office.network.inbox ∧ office.network.inHdr = mail.pktHdr ∧
      Addressed setup machine mail
  units : units = if office.network.inHdr.length = 0 then 0 else 1
  unread : office.network.unread = decide (office.network.inHdr.length ≠ 0)
  overwritten : office.network.overwritten = 0
  order : ∀ box, toBox box office.accepted = (office.boxes box).appended ++
    toBox box (inHand ++ buffered office.network ++ office.socket.map .ofWire)
  fifo : ∀ box, (office.boxes box).appended =
    (office.boxes box).removed ++ (office.boxes box).list.items
  short : ∀ box, ∀ mail ∈ (office.boxes box).list.items,
    mail.mailHdr.length.toNat ≤ maxMailSize

variable {setup : Setup Machine} {machine : Machine} {office : Office} {units : Int}
  {inHand : List Mail} {mail : Mail}

omit [DecidableEq Machine] in
theorem path_new (setup : Setup Machine) (machine : Machine) :
    Path setup machine (.new (setup.address machine)) 0 [] := by
  constructor <;> simp [Office.new, Network.new, SynchList.new, toBox, buffered]

omit [DecidableEq Machine] in
/-- The scheduled interrupts have nothing to do with the messages to the machine. -/
theorem Path.scheduled (path : Path setup machine office units inHand) {busy : Bool}
    (free : busy = false) (count : Nat) :
    Path setup machine { office with
      network := { office.network with sendBusy := busy, scheduled := count } }
      units inHand :=
  ⟨path.ident, free, path.socket, path.inbox, path.units, path.unread, path.overwritten,
    path.order, path.fifo, path.short⟩

omit [DecidableEq Machine] in
/-- The network accepts a message for the machine. -/
theorem Path.accept (path : Path setup machine office units inHand) {packet : List Byte}
    (onWire : mail.OnWire packet) (addressed : Addressed setup machine mail) :
    Path setup machine { office with
      socket := office.socket ++ [packet]
      accepted := office.accepted ++ [mail] } units inHand := by
  refine ⟨path.ident, path.free, fun other member => ?_, path.inbox, path.units, path.unread,
    path.overwritten, fun box => ?_, path.fifo, path.short⟩
  · rcases List.mem_append.mp member with member | member
    · exact path.socket other member
    · rw [List.mem_singleton] at member
      subst member
      exact ⟨mail, onWire, addressed⟩
  · have order := path.order box
    simp only [toBox, List.filter_append] at order ⊢
    rw [order]
    simp [onWire.ofWire_eq]

omit [DecidableEq Machine] in
/-- The device buffers the next packet of the socket, if there is one and the last one was
copied. -/
theorem Path.poll (path : Path setup machine office units inHand) :
    ∃ network socket arrived,
      office.network.checkPktAvail office.socket = .ok (network, socket, arrived) ∧
      Path setup machine { office with network := network, socket := socket }
        (units + if arrived then 1 else 0) inHand := by
  by_cases empty : office.network.inHdr.length = 0
  · cases packets : office.socket with
    | nil =>
        refine ⟨office.network, [], false, by simp [Network.checkPktAvail, empty], ?_⟩
        rw [← packets]
        simpa using path
    | cons packet rest =>
        obtain ⟨mail, onWire, addressed⟩ := path.socket packet (by simp [packets])
        obtain ⟨inbox, inside, done⟩ := Network.checkPktAvail_cons empty onWire
          (addressed.receiver.trans path.ident.symm) rest
        have nonzero := inside.sized.length_ne_zero
        have unread := path.unread
        have zero := path.units
        simp only [empty, if_true] at zero
        refine ⟨_, _, _, done, path.ident, path.free, fun other member => ?_,
          fun _ => ⟨mail, inside, rfl, addressed⟩, ?_, ?_, ?_, fun box => ?_, path.fifo,
          path.short⟩
        · exact path.socket other (by simp [packets, member])
        · rw [zero, if_neg nonzero]
          rfl
        · exact (decide_eq_true nonzero).symm
        · simp [unread, empty, path.overwritten]
        · have order := path.order box
          simp only [buffered, empty, packets, if_true, List.map_cons, onWire.ofWire_eq]
            at order
          rw [buffered, if_neg nonzero, inside.ofBody_eq]
          simpa using order
  · refine ⟨office.network, office.socket, false, ?_, by simpa using path⟩
    exact if_pos empty

omit [DecidableEq Machine] in
/-- The postal worker copies the packet that the device has buffered. -/
theorem Path.deliver (path : Path setup machine office units []) (available : 0 < units) :
    ∃ after mail, setup.deliver office = .ok (after, mail) ∧
      mail.mailHdr.length.toNat ≤ maxMailSize ∧ Path setup machine after (units - 1) [mail] := by
  have counted := path.units
  have nonzero : office.network.inHdr.length ≠ 0 := by
    intro zero
    rw [if_pos zero] at counted
    omega
  rw [if_neg nonzero] at counted
  obtain ⟨mail, inside, header, addressed⟩ := path.inbox nonzero
  have copied := inside.sized.inBuffer_splice office.buffer
  have whole := copied.ofBody_eq
  have short : mail.mailHdr.length.toNat ≤ maxMailSize := by
    rw [inside.sized.letter]
    exact inside.sized.short
  have mailHdr : MailHeader.ofBytes (splice office.buffer 0 mail.body) = mail.mailHdr :=
    congrArg Mail.mailHdr whole
  have created : Mail.new mail.pktHdr mail.mailHdr
      ((splice office.buffer 0 mail.body).drop headerSize) = .ok mail := by
    rw [Mail.new, if_pos short, ← mailHdr]
    exact congrArg Except.ok whole
  let network : Network := { office.network with
    inHdr := { mail.pktHdr with length := 0 }
    unread := false }
  refine ⟨{ office with network := network, buffer := splice office.buffer 0 mail.body }, mail,
    ?_, short, ?_⟩
  · unfold Setup.deliver
    rw [Network.receive_eq inside header]
    dsimp only
    rw [mailHdr, if_pos ⟨addressed.box, short⟩, created]
    rfl
  · have copied : network.inHdr.length = 0 := rfl
    refine ⟨path.ident, path.free, path.socket, fun full => absurd copied full, ?_, rfl,
      path.overwritten, fun box => ?_, path.fifo, path.short⟩
    · rw [counted, if_pos copied]
      rfl
    · have order := path.order box
      rw [buffered, if_neg nonzero, header, inside.ofBody_eq] at order
      rw [buffered, if_pos copied]
      simpa using order

omit [DecidableEq Machine] in
/-- The mailboxes that are not touched. -/
theorem setBox_boxes_of_ne (office : Office) {box other : CInt} (different : other ≠ box)
    (messages : SynchList Mail) :
    (office.setBox box messages).boxes other = office.boxes other :=
  Function.update_of_ne different _ _

omit [DecidableEq Machine] in
theorem setBox_boxes (office : Office) (box : CInt) (messages : SynchList Mail) :
    (office.setBox box messages).boxes box = messages :=
  Function.update_self _ _ _

omit [DecidableEq Machine] in
/-- The postal worker puts a message into its mailbox. -/
theorem Path.put (path : Path setup machine office units [mail])
    (short : mail.mailHdr.length.toNat ≤ maxMailSize) :
    Path setup machine (office.setBox mail.mailHdr.receiver
      ((office.boxes mail.mailHdr.receiver).put mail)) units [] := by
  refine ⟨path.ident, path.free, path.socket, path.inbox, path.units, path.unread,
    path.overwritten, fun box => ?_, fun box => ?_, fun box other member => ?_⟩
  · have order := path.order box
    by_cases same : box = mail.mailHdr.receiver
    · subst same
      rw [setBox_boxes]
      simpa [toBox, SynchList.put, Office.setBox] using order
    · rw [setBox_boxes_of_ne office same]
      simpa [toBox, Ne.symm same, Office.setBox] using order
  · by_cases same : box = mail.mailHdr.receiver
    · subst same
      rw [setBox_boxes]
      simp [SynchList.put, path.fifo]
    · rw [setBox_boxes_of_ne office same]
      exact path.fifo box
  · by_cases same : box = mail.mailHdr.receiver
    · subst same
      rw [setBox_boxes] at member
      simp only [SynchList.put, LinkedList.items_append, List.mem_append, List.mem_singleton]
        at member
      rcases member with member | rfl
      · exact path.short _ other member
      · exact short
    · rw [setBox_boxes_of_ne office same] at member
      exact path.short box other member

omit [DecidableEq Machine] in
/-- A client takes the first message out of a mailbox. -/
theorem Path.take (path : Path setup machine office units inHand) {box : CInt}
    (first : (office.boxes box).list.items = mail :: (office.boxes box).list.remove.2.items) :
    Path setup machine (office.setBox box { office.boxes box with
      list := (office.boxes box).list.remove.2
      removed := (office.boxes box).removed ++ [mail] }) units inHand := by
  refine ⟨path.ident, path.free, path.socket, path.inbox, path.units, path.unread,
    path.overwritten, fun other => ?_, fun other => ?_, fun other letter member => ?_⟩
  · by_cases same : other = box
    · subst same
      rw [setBox_boxes]
      exact path.order other
    · rw [setBox_boxes_of_ne office same]
      exact path.order other
  · by_cases same : other = box
    · subst same
      rw [setBox_boxes]
      simp [path.fifo, first]
    · rw [setBox_boxes_of_ne office same]
      exact path.fifo other
  · by_cases same : other = box
    · subst same
      rw [setBox_boxes] at member
      exact path.short other letter (by rw [first]; exact List.mem_cons_of_mem _ member)
    · rw [setBox_boxes_of_ne office same] at member
      exact path.short other letter member

end Path

section Places

/-- The message can be sent from one machine to the other. -/
structure Ready (setup : Setup Machine) (machine receiver : Machine) (mail : Mail) : Prop where
  sized : mail.Sized
  sender : mail.pktHdr.sender = setup.address machine
  addressed : Addressed setup receiver mail

/-- A postal worker stays in `PostalDelivery` of its machine and a client in `Send` and
`Receive`; the messages that they hold have passed the checks. -/
def Fits (setup : Setup Machine) (home : Client → Machine) :
    Thread Machine Client → Pc Machine → Prop
  | .worker machine, pc => pc.machine = machine ∧
      match pc.point with
      | .waitMessage | .deliver | .putSignal _ | .putRelease _ => True
      | .putAcquire mail | .put mail => mail.mailHdr.length.toNat ≤ maxMailSize
      | _ => False
  | .client client, pc => pc.machine = home client ∧
      match pc.point with
      | .waitMessage | .deliver | .putAcquire _ | .put _ | .putSignal _ | .putRelease _ => False
      | .sendAcquire receiver mail | .send receiver mail => Ready setup pc.machine receiver mail
      | .getRelease _ mail | .received mail => mail.mailHdr.length.toNat ≤ maxMailSize
      | _ => True

/-- The messages in the mailboxes are short enough. -/
def Short (offices : Machine → Office) : Prop :=
  ∀ machine box, ∀ mail ∈ ((offices machine).boxes box).list.items,
    mail.mailHdr.length.toNat ≤ maxMailSize

variable {setup : Setup Machine} {home : Client → Machine} {machine : Machine}

omit [DecidableEq Machine] in
/-- A letter that passes the checks can be sent. -/
theorem ready_of_post {letter : Letter Machine} {mail : Mail}
    (posted : setup.post machine letter = .ok mail) :
    Ready setup machine letter.receiver mail := by
  unfold Setup.post at posted
  split at posted
  · next legal =>
    split at posted
    · next enough =>
      cases posted
      obtain ⟨short, box⟩ := legal
      have length : (letter.data.take letter.mailHdr.length.toNat).length =
          letter.mailHdr.length.toNat := List.length_take_of_le enough
      have small : maxMailSize + headerSize < 2 ^ 32 := by decide
      refine ⟨⟨?_, length.symm, ?_⟩, rfl, rfl, box⟩
      · change (letter.mailHdr.length + BitVec.ofNat 32 headerSize).toNat = _
        rw [BitVec.toNat_add, BitVec.toNat_ofNat]
        change _ = headerSize + (letter.data.take letter.mailHdr.length.toNat).length
        rw [length, Nat.add_mod_mod, Nat.mod_eq_of_lt (by omega), Nat.add_comm]
      · exact le_of_eq_of_le length short
    · cases posted
  · cases posted

omit [DecidableEq Machine] in
theorem short_of_deliver {office after : Office} {mail : Mail}
    (delivered : setup.deliver office = .ok (after, mail)) :
    mail.mailHdr.length.toNat ≤ maxMailSize := by
  unfold Setup.deliver at delivered
  dsimp only at delivered
  split at delivered
  · obtain ⟨letter, created, delivered⟩ := bind_eq_ok_iff.mp delivered
    cases delivered
    unfold Mail.new at created
    split at created
    · next short =>
      cases created
      exact short
    · cases created
  · cases delivered

theorem keeps (thread : Thread Machine Client) (pc : Pc Machine)
    (here : Fits setup home thread pc) :
    ((program setup).code pc).Keeps Short (Fits setup home) thread := by
  obtain ⟨machine, point⟩ := pc
  cases thread with
  | worker worker =>
      obtain ⟨own, holds⟩ := here
      cases point with
      | waitMessage | putSignal | putRelease => exact ⟨own, trivial⟩
      | putAcquire mail => exact ⟨own, holds⟩
      | put mail =>
          intro choice offices result short done
          cases done
          exact ⟨own, trivial⟩
      | deliver =>
          intro choice offices result short done
          obtain ⟨⟨after, mail⟩, delivered, done⟩ := bind_eq_ok_iff.mp done
          cases done
          exact ⟨own, short_of_deliver delivered⟩
      | _ => exact holds.elim
  | client client =>
      obtain ⟨own, holds⟩ := here
      cases point with
      | waitMessage | deliver | putAcquire | put | putSignal | putRelease => exact holds.elim
      | sendAcquire receiver mail => exact ⟨own, holds⟩
      | getRelease box mail => exact ⟨own, holds⟩
      | waitSent | sendRelease | getAcquire | getWait => exact ⟨own, trivial⟩
      | outside =>
          intro choice offices result short done
          dsimp only at done
          split at done
          · obtain ⟨mail, posted, done⟩ := bind_eq_ok_iff.mp done
            cases done
            exact ⟨own, ready_of_post posted⟩
          · split at done <;> cases done
            exact ⟨own, trivial⟩
      | send receiver mail =>
          intro choice offices result short done
          obtain ⟨after, -, done⟩ := bind_eq_ok_iff.mp done
          cases done
          exact ⟨own, trivial⟩
      | getTest box =>
          intro choice offices result short done
          dsimp only at done
          rcases ((offices machine).boxes box).take_cases with ⟨-, equal⟩ | ⟨mail, first, equal⟩
          · rw [equal] at done
            cases done
            exact ⟨own, trivial⟩
          · rw [equal] at done
            cases done
            exact ⟨own, short machine box mail (by simp [first])⟩
      | received mail =>
          intro choice offices result short done
          dsimp only at done
          rw [if_pos holds] at done
          cases done
          exact ⟨own, trivial⟩

end Places

section Invariant

/-- The message that a postal worker has in its hands. -/
def inHand : Stage (Pc Machine) → List Mail
  | .active ⟨_, .putAcquire mail⟩ | .active ⟨_, .put mail⟩ => [mail]
  | _ => []

/-- The unit of the semaphore that a postal worker has taken for the buffered packet. -/
def taken : Stage (Pc Machine) → Int
  | .active ⟨_, .deliver⟩ => 1
  | _ => 0

/-- The threads are where they belong, and the messages to each machine are on their
path. -/
structure Invariant (setup : Setup Machine) (home : Client → Machine)
    (offices : Machine → Office) (value : Sem Machine → Int)
    (stage : Thread Machine Client → Stage (Pc Machine)) : Prop where
  places : ∀ thread, Fits setup home thread (stage thread).pc
  nonneg : ∀ machine, 0 ≤ value (.messageAvailable machine)
  path : ∀ machine, Path setup machine (offices machine)
    (value (.messageAvailable machine) + taken (stage (.worker machine)))
    (inHand (stage (.worker machine)))

variable {setup : Setup Machine} {home : Client → Machine} {offices : Machine → Office}
  {value : Sem Machine → Int} {stage : Thread Machine Client → Stage (Pc Machine)}
  {machine : Machine}

omit [DecidableEq Machine] in
@[simp]
theorem inHand_wake (stage : Stage (Pc Machine)) : inHand stage.wake = inHand stage := by
  cases stage <;> rfl

omit [DecidableEq Machine] in
@[simp]
theorem taken_wake (stage : Stage (Pc Machine)) : taken stage.wake = taken stage := by
  cases stage <;> rfl

omit [DecidableEq Machine] in
theorem invariant_start :
    Invariant setup home (fun machine => .new (setup.address machine)) (fun _ => 0)
      fun thread => .active (entry home thread) := by
  refine ⟨fun thread => ?_, fun _ => le_rfl, path_new setup⟩
  cases thread <;> exact ⟨rfl, trivial⟩

variable [DecidableEq Client]

/-- The messages are looked at by nobody else. -/
theorem Invariant.goto (invariant : Invariant setup home offices value stage)
    {thread : Thread Machine Client} {source target : Stage (Pc Machine)}
    (here : stage thread = source) (hand : inHand target = inHand source)
    (unit : taken target = taken source)
    (places : ∀ other, Fits setup home other (Function.update stage thread target other).pc) :
    Invariant setup home offices value (Function.update stage thread target) := by
  refine ⟨places, invariant.nonneg, fun machine => ?_⟩
  have path := invariant.path machine
  by_cases same : .worker machine = thread
  · rw [same, Function.update_self, hand, unit]
    rwa [same, here] at path
  · rwa [Function.update_of_ne same]

/-- A client goes on and the messages keep on their path. -/
theorem Invariant.client (invariant : Invariant setup home offices value stage) {client : Client}
    {target : Stage (Pc Machine)} {after : Machine → Office}
    (places : ∀ other,
      Fits setup home other (Function.update stage (.client client) target other).pc)
    (path : ∀ machine, Path setup machine (after machine)
      (value (.messageAvailable machine) + taken (stage (.worker machine)))
      (inHand (stage (.worker machine)))) :
    Invariant setup home after value (Function.update stage (.client client) target) := by
  refine ⟨places, invariant.nonneg, fun machine => ?_⟩
  rw [Function.update_of_ne (by simp)]
  exact path machine

/-- A postal worker goes on. -/
theorem Invariant.worker (invariant : Invariant setup home offices value stage)
    {target : Stage (Pc Machine)} {office : Office} {units : Int}
    (places : ∀ other,
      Fits setup home other (Function.update stage (.worker machine) target other).pc)
    (nonneg : 0 ≤ units)
    (path : Path setup machine office (units + taken target) (inHand target)) :
    Invariant setup home (Function.update offices machine office)
      (Function.update value (.messageAvailable machine) units)
      (Function.update stage (.worker machine) target) := by
  refine ⟨places, fun other => ?_, fun other => ?_⟩
  · by_cases same : other = machine
    · subst same
      rwa [Function.update_self]
    · rw [Function.update_of_ne (by simpa using same)]
      exact invariant.nonneg other
  · by_cases same : other = machine
    · subst same
      rwa [Function.update_self, Function.update_self, Function.update_self]
    · rw [Function.update_of_ne same, Function.update_of_ne (by simpa using same),
        Function.update_of_ne (by simpa using same)]
      exact invariant.path other

omit [DecidableEq Client] in
/-- A message that can be sent is accepted by the network. -/
theorem Invariant.transmit (invariant : Invariant setup home offices value stage)
    {receiver : Machine} {mail : Mail} (ready : Ready setup machine receiver mail)
    (memory : Nat → Byte) :
    ∃ after, transmit offices machine receiver mail memory = .ok after ∧
      ∀ other, Path setup other (after other)
        (value (.messageAvailable other) + taken (stage (.worker other)))
        (inHand (stage (.worker other))) := by
  have own := invariant.path machine
  obtain ⟨packet, onWire, sent⟩ := Network.send_eq ready.sized own.free
    (ready.sender.trans own.ident.symm) memory
  have scheduled := own.scheduled own.free ((offices machine).network.scheduled + 1)
  refine ⟨_, by rw [PostOffice.transmit, sent]; rfl, fun other => ?_⟩
  have path : ∀ other, Path setup other
      (Function.update offices machine { offices machine with
        network := { (offices machine).network with
          scheduled := (offices machine).network.scheduled + 1 } } other)
      (value (.messageAvailable other) + taken (stage (.worker other)))
      (inHand (stage (.worker other))) := by
    intro other
    by_cases same : other = machine
    · subst same
      rwa [Function.update_self]
    · rw [Function.update_of_ne same]
      exact invariant.path other
  by_cases same : other = receiver
  · subst same
    rw [Function.update_self]
    exact (path other).accept onWire ready.addressed
  · rw [Function.update_of_ne same]
    exact path other

omit [DecidableEq Machine] [DecidableEq Client] in
/-- A postal worker that was woken finds a packet. -/
theorem Invariant.deliver (invariant : Invariant setup home offices value stage)
    (here : stage (.worker machine) = .active ⟨machine, .deliver⟩) :
    ∃ office mail, setup.deliver (offices machine) = .ok (office, mail) ∧
      Path setup machine office (value (.messageAvailable machine)) [mail] := by
  have path := invariant.path machine
  have nonneg := invariant.nonneg machine
  rw [here] at path
  obtain ⟨office, mail, delivered, -, after⟩ :=
    path.deliver (show 0 < value (.messageAvailable machine) + 1 by omega)
  refine ⟨office, mail, delivered, ?_⟩
  rwa [show value (.messageAvailable machine) + taken (.active (Pc.mk machine .deliver)) - 1 =
    value (.messageAvailable machine) by simp [taken]] at after

/-- Straight-line code of a postal worker. -/
theorem Invariant.run_worker (invariant : Invariant setup home offices value stage)
    {worker : Machine} {pc target : Pc Machine} {choice : Choice Machine}
    {after : Machine → Office}
    {body : Thread Machine Client → Choice Machine → (Machine → Office) →
      Except Fault ((Machine → Office) × Pc Machine)}
    (here : stage (.worker worker) = .active pc) (isRun : code setup pc = .run body)
    (done : body (.worker worker) choice offices = .ok (after, target))
    (places : ∀ other, Fits setup home other
      (Function.update stage (.worker worker) (.active target) other).pc) :
    Invariant setup home after value (Function.update stage (.worker worker) (.active target)) := by
  have fits : Fits setup home (.worker worker) pc := by
    simpa [here] using invariant.places (.worker worker)
  obtain ⟨machine, point⟩ := pc
  obtain ⟨own, holds⟩ := fits
  cases own
  have nonneg := invariant.nonneg machine
  rw [← Function.update_eq_self (Sem.messageAvailable machine) value]
  cases point with
  | deliver =>
      cases isRun
      obtain ⟨office, mail, delivered, path⟩ := invariant.deliver here
      dsimp only at done
      rw [delivered] at done
      cases done
      exact invariant.worker places nonneg (by simpa [taken, inHand] using path)
  | put mail =>
      cases isRun
      cases done
      have path := invariant.path machine
      rw [here] at path
      exact invariant.worker places nonneg (path.put holds)
  | waitMessage | putAcquire | putSignal | putRelease => cases isRun
  | _ => exact holds.elim

/-- Straight-line code of a client. -/
theorem Invariant.run_client (invariant : Invariant setup home offices value stage)
    {client : Client} {pc target : Pc Machine} {choice : Choice Machine}
    {after : Machine → Office}
    {body : Thread Machine Client → Choice Machine → (Machine → Office) →
      Except Fault ((Machine → Office) × Pc Machine)}
    (here : stage (.client client) = .active pc) (isRun : code setup pc = .run body)
    (done : body (.client client) choice offices = .ok (after, target))
    (places : ∀ other, Fits setup home other
      (Function.update stage (.client client) (.active target) other).pc) :
    Invariant setup home after value
      (Function.update stage (.client client) (.active target)) := by
  have fits : Fits setup home (.client client) pc := by
    simpa [here] using invariant.places (.client client)
  obtain ⟨machine, point⟩ := pc
  obtain ⟨own, holds⟩ := fits
  cases point with
  | outside =>
      cases isRun
      dsimp only at done
      split at done
      · obtain ⟨mail, -, done⟩ := bind_eq_ok_iff.mp done
        cases done
        exact invariant.client places invariant.path
      · split at done <;> cases done
        exact invariant.client places invariant.path
  | send receiver mail =>
      cases isRun
      obtain ⟨sent, transmitted, path⟩ := invariant.transmit holds choice.memory
      dsimp only at done
      rw [transmitted] at done
      cases done
      exact invariant.client places path
  | getTest box =>
      cases isRun
      dsimp only at done
      apply invariant.client places
      intro other
      by_cases same : other = machine
      · subst same
        rcases ((offices other).boxes box).take_cases with ⟨-, equal⟩ | ⟨mail, first, equal⟩
        · rw [equal] at done
          cases done
          rw [Function.update_self]
          have kept : (offices other).setBox box ((offices other).boxes box) = offices other := by
            rw [Office.setBox, Function.update_eq_self]
          rw [kept]
          exact invariant.path other
        · rw [equal] at done
          cases done
          rw [Function.update_self]
          exact (invariant.path other).take first
      · obtain ⟨⟨messages, mail⟩, -, done⟩ := bind_eq_ok_iff.mp done
        cases done
        rw [Function.update_of_ne same]
        exact invariant.path other
  | received mail =>
      cases isRun
      dsimp only at done
      rw [if_pos holds] at done
      cases done
      exact invariant.client places invariant.path
  | waitSent | sendAcquire | sendRelease | getAcquire | getWait | getRelease => cases isRun
  | _ => exact holds.elim

/-- A thread gets a unit of a semaphore. -/
theorem Invariant.p (invariant : Invariant setup home offices value stage)
    {thread : Thread Machine Client} {pc target : Pc Machine} {sem : Sem Machine}
    (here : stage thread = .active pc)
    (isP : (code setup pc : Instr (Thread Machine Client) _ _ _ _ _ _ _) = .p sem target)
    (available : value sem ≠ 0)
    (places : ∀ other,
      Fits setup home other (Function.update stage thread (.active target) other).pc) :
    Invariant setup home offices (Function.update value sem (value sem - 1))
      (Function.update stage thread (.active target)) := by
  have fits : Fits setup home thread pc := by simpa [here] using invariant.places thread
  obtain ⟨machine, point⟩ := pc
  cases thread with
  | worker worker =>
      obtain ⟨own, holds⟩ := fits
      cases own
      cases point with
      | waitMessage =>
          cases isP
          have nonneg := invariant.nonneg machine
          have path := invariant.path machine
          rw [here] at path
          rw [← Function.update_eq_self machine offices]
          have positive : 0 ≤ value (.messageAvailable machine) - 1 := by
            change value (.messageAvailable machine) ≠ 0 at available
            omega
          exact invariant.worker places positive (by simpa [taken, inHand] using path)
      | deliver | putAcquire | put | putSignal | putRelease => cases isP
      | _ => exact holds.elim
  | client client =>
      obtain ⟨own, holds⟩ := fits
      cases point with
      | waitSent =>
          cases isP
          refine ⟨places, fun other => ?_, fun other => ?_⟩
          · rw [Function.update_of_ne (by simp)]
            exact invariant.nonneg other
          · rw [Function.update_of_ne (by simp), Function.update_of_ne (by simp)]
            exact invariant.path other
      | waitMessage => exact holds.elim
      | _ => cases isP

omit [DecidableEq Client] in
/-- An interrupt is handled, and does not fail. -/
theorem Invariant.interrupt (invariant : Invariant setup home offices value stage)
    {choice : Choice Machine} {result : Except Fault ((Machine → Office) × List (Sem Machine))}
    (pending : interrupt choice offices = some result) :
    ∃ after sems, result = .ok (after, sems) ∧
      Invariant setup home after (giveUnits value sems) stage := by
  obtain ⟨call, memory, machine, event⟩ := choice
  cases event with
  | poll =>
      obtain ⟨network, socket, arrived, done, path⟩ := (invariant.path machine).poll
      simp only [PostOffice.interrupt, done, Option.some.injEq] at pending
      subst pending
      refine ⟨_, _, rfl, invariant.places, fun other => ?_, fun other => ?_⟩
      · have nonneg := invariant.nonneg other
        unfold giveUnits
        omega
      · by_cases same : other = machine
        · subst same
          rw [Function.update_self]
          cases arrived <;> simpa [giveUnits, add_right_comm] using path
        · rw [Function.update_of_ne same]
          cases arrived <;> simpa [giveUnits, Ne.symm same] using invariant.path other
  | sendDone =>
      simp only [PostOffice.interrupt, Network.sendDone, Option.map_eq_some_iff] at pending
      obtain ⟨network, completed, rfl⟩ := pending
      split at completed <;> cases completed
      refine ⟨_, _, rfl, invariant.places, fun other => ?_, fun other => ?_⟩
      · simpa [giveUnits] using invariant.nonneg other
      · have path := invariant.path other
        by_cases same : other = machine
        · subst same
          rw [Function.update_self]
          have scheduled := path.scheduled rfl ((offices other).network.scheduled - 1)
          simpa [giveUnits] using scheduled
        · rw [Function.update_of_ne same]
          simpa [giveUnits] using path

end Invariant

section Runs

variable {setup : Setup Machine} {home : Client → Machine} [DecidableEq Client]
  {s next : State (Thread Machine Client) (Machine → Office) (Pc Machine) (Sem Machine)
    (Lock Machine) (Cond Machine)}

theorem invariant_step (invariant : Invariant setup home s.vars s.value s.stage)
    (step : Step (program setup) s next) :
    Invariant setup home next.vars next.value next.stage := by
  have places := step.keepsPlaces keeps (fun machine => (invariant.path machine).short)
    invariant.places
  cases step with
  | @run thread pc body choice after target here isRun done =>
      cases thread with
      | worker machine => exact invariant.run_worker here isRun done places
      | client client => exact invariant.run_client here isRun done places
  | p here isP available => exact invariant.p here isP available places
  | @v thread pc sem target here isV =>
      obtain ⟨machine, point⟩ := pc
      cases point <;> cases isV
  | @acquire thread pc lock target here isAcquire free =>
      obtain ⟨machine, point⟩ := pc
      refine invariant.goto here ?_ ?_ places <;> cases point <;> cases isAcquire <;> rfl
  | @release thread pc lock target here isRelease held =>
      obtain ⟨machine, point⟩ := pc
      refine invariant.goto here ?_ ?_ places <;> cases point <;> cases isRelease <;> rfl
  | @wait thread pc cond target here isWait held =>
      obtain ⟨machine, point⟩ := pc
      refine invariant.goto here ?_ ?_ places <;> cases point <;> cases isWait <;> rfl
  | @resume thread pc cond target here isWait free =>
      obtain ⟨machine, point⟩ := pc
      refine invariant.goto here ?_ ?_ places <;> cases point <;> cases isWait <;> rfl
  | @signal thread pc cond target here isSignal held =>
      obtain ⟨machine, point⟩ := pc
      have woken : Invariant setup home s.vars s.value
          (wakeAll ((s.queue cond).take 1) s.stage) := by
        refine ⟨fits_wakeAll invariant.places _, invariant.nonneg, fun machine => ?_⟩
        unfold wakeAll
        split
        · rw [taken_wake, inHand_wake]
          exact invariant.path machine
        · exact invariant.path machine
      refine woken.goto rfl ?_ ?_ places <;> unfold wakeAll <;> split <;> rw [here] <;>
        cases point <;> cases isSignal <;> rfl
  | @broadcast thread pc cond target here isBroadcast held =>
      obtain ⟨machine, point⟩ := pc
      cases point <;> cases isBroadcast
  | interrupt pending =>
      obtain ⟨after, sems, equal, handled⟩ := invariant.interrupt pending
      cases equal
      exact handled

theorem alongRun_invariant
    (actions : List (SynchSystem.Action (Thread Machine Client) (Choice Machine))) :
    AlongRun (SynchSystem.step (program setup)) (fun s =>
      SynchSystem.Sound (program setup) s ∧ Exclusive critical s.monitor ∧
        Invariant setup home s.vars s.monitor.value s.monitor.stage)
      (boot setup home) actions :=
  SynchSystem.alongRun_of_monitor (labelled setup) (fun thread => by cases thread <;> rfl)
    invariant_start (fun _ _ _ _ invariant step => invariant_step invariant step) actions

/-- The arguments of the call pass the checks, and there are as many bytes as the header
says. -/
def Setup.Legal (setup : Setup Machine) : Call Machine → Prop
  | .send letter => letter.mailHdr.length.toNat ≤ maxMailSize ∧
      setup.IsBox letter.mailHdr.receiver ∧
      letter.mailHdr.length.toNat ≤ letter.data.length
  | .receive box => setup.IsBox box

omit [DecidableEq Client] in
/-- The only code that can fail is that of the checks of a client's arguments. -/
theorem Invariant.failed {offices : Machine → Office} {value : Sem Machine → Int}
    {stage : Thread Machine Client → Stage (Pc Machine)}
    (invariant : Invariant setup home offices value stage) {thread : Thread Machine Client}
    {pc : Pc Machine} {choice : Choice Machine} {reason : Fault}
    {body : Thread Machine Client → Choice Machine → (Machine → Office) →
      Except Fault ((Machine → Office) × Pc Machine)}
    (here : stage thread = .active pc) (isRun : code setup pc = .run body)
    (failed : body thread choice offices = .error reason) :
    pc.point = .outside ∧ ¬ setup.Legal choice.call := by
  have fits : Fits setup home thread pc := by simpa [here] using invariant.places thread
  obtain ⟨machine, point⟩ := pc
  cases point with
  | outside =>
      refine ⟨rfl, fun legal => ?_⟩
      cases isRun
      dsimp only at failed
      cases call : choice.call with
      | send letter =>
          rw [call] at failed legal
          obtain ⟨short, box, enough⟩ := legal
          have posted : setup.post machine letter = .ok (setup.mailOf machine letter) := by
            rw [Setup.post, if_pos ⟨short, box⟩, if_pos enough]
          simp only [posted, ok_bind] at failed
          cases failed
      | receive box =>
          rw [call] at failed legal
          dsimp only at failed
          rw [if_pos (show setup.IsBox box from legal)] at failed
          cases failed
  | deliver =>
      cases isRun
      cases thread with
      | worker worker =>
          obtain ⟨own, -⟩ := fits
          cases own
          obtain ⟨office, mail, delivered, -⟩ := invariant.deliver here
          dsimp only at failed
          rw [delivered] at failed
          cases failed
      | client client => exact fits.2.elim
  | put mail =>
      cases isRun
      cases failed
  | send receiver mail =>
      cases isRun
      cases thread with
      | worker worker => exact fits.2.elim
      | client client =>
          obtain ⟨sent, transmitted, -⟩ := invariant.transmit fits.2 choice.memory
          dsimp only at failed
          rw [transmitted] at failed
          cases failed
  | getTest box =>
      cases isRun
      dsimp only at failed
      rcases ((offices machine).boxes box).take_cases with ⟨-, equal⟩ | ⟨mail, -, equal⟩
      · rw [equal] at failed
        cases failed
      · rw [equal] at failed
        cases failed
  | received mail =>
      cases isRun
      have short : mail.mailHdr.length.toNat ≤ maxMailSize := by
        cases thread with
        | worker worker => exact fits.2.elim
        | client client => exact fits.2
      dsimp only at failed
      rw [if_pos short] at failed
      cases failed
  | _ => cases isRun

/-- In every state that a run reaches, the messages that were taken out of a mailbox are a
prefix of those that the network accepted for it, with the headers and the bytes with
which they were sent; no packet was overwritten before it was copied; and the next step
fails no check but those of a client's own arguments. -/
theorem delivery (setup : Setup Machine) (home : Client → Machine)
    (actions : List (SynchSystem.Action (Thread Machine Client) (Choice Machine))) :
    AlongRun (SynchSystem.step (program setup)) (fun s =>
      (∀ machine box, ((s.vars machine).boxes box).removed <+:
        toBox box (s.vars machine).accepted) ∧
      (∀ machine, (s.vars machine).network.overwritten = 0) ∧
      ∀ action reason, SynchSystem.step (program setup) s action = .error (.fault reason) →
        ∃ client choice, action = .thread (.client client) choice ∧
          (s.threads (.client client)).pc.point = .outside ∧ ¬ setup.Legal choice.call)
      (boot setup home) actions := by
  apply (alongRun_invariant actions).mono
  rintro s ⟨sound, exclusive, invariant⟩
  refine ⟨fun machine box => ?_, fun machine => (invariant.path machine).overwritten,
    fun action reason failed => ?_⟩
  · have path := invariant.path machine
    rw [path.order box, path.fifo box, List.append_assoc]
    exact List.prefix_append _ _
  · rcases sound.step_fault exclusive (labelled setup) failed with
      ⟨thread, choice, body, rfl, isRun, phase, failed⟩ | ⟨choice, pending⟩
    · have here : s.monitor.stage thread = .active (s.threads thread).pc :=
        SynchSystem.stageOf_of_call phase
      obtain ⟨point, illegal⟩ := invariant.failed here isRun failed
      cases thread with
      | worker machine =>
          have fits := invariant.places (.worker machine)
          rw [here] at fits
          unfold Fits at fits
          simp [point] at fits
      | client client => exact ⟨client, choice, rfl, point, illegal⟩
    · obtain ⟨after, sems, equal, -⟩ := invariant.interrupt pending
      cases equal

end Runs

end PostOffice

end Nachos
