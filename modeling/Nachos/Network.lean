import Nachos.Disk
import Nachos.CIntegers
import Nachos.ListSplice

/-!
# The network device and the format of a message

A message travels in a packet of 64 bytes: a packet header of three words, a mail header
of three words and the payload (`machine/network.h`, `network/post.h`).  The device of
`machine/network.cc` puts a packet into the socket of the destination, and buffers one
incoming packet until the postal worker has copied it.

The network loses no packet: `chanceToWork` is 1.  Beside the device it is recorded
whether the buffered packet is still to be copied, and how often such a packet was
overwritten; no code reads that.
-/

namespace Nachos

open LittleEndianWords ListSplice

/-- `class PacketHeader`, with its fields `to`, `from` and `length`. -/
structure PacketHeader where
  receiver : CInt
  sender : CInt
  length : CInt
  deriving DecidableEq

/-- `class MailHeader`, with its fields `to`, `from` and `length`. -/
structure MailHeader where
  receiver : CInt
  sender : CInt
  length : CInt
  deriving DecidableEq

def maxWireSize : Nat := 64

/-- `sizeof(PacketHeader)` and `sizeof(MailHeader)`. -/
def headerSize : Nat := 12

def maxPacketSize : Nat := maxWireSize - headerSize

def maxMailSize : Nat := maxPacketSize - headerSize

/-- `class Mail`: the headers and as many bytes as the mail header says. -/
structure Mail where
  pktHdr : PacketHeader
  mailHdr : MailHeader
  data : List Byte
  deriving DecidableEq

/-- The three words of a header in memory. -/
theorem wordAt_header (first second third : CInt) (rest : List Byte) :
    wordAt (encodeWords [first, second, third] ++ rest) 0 = first ∧
      wordAt (encodeWords [first, second, third] ++ rest) 4 = second ∧
      wordAt (encodeWords [first, second, third] ++ rest) 8 = third :=
  ⟨wordAt_encodeWords (show [first, second, third][0]? = some first from rfl) rest,
    wordAt_encodeWords (show [first, second, third][1]? = some second from rfl) rest,
    wordAt_encodeWords (show [first, second, third][2]? = some third from rfl) rest⟩

namespace PacketHeader

def toBytes (hdr : PacketHeader) : List Byte :=
  encodeWords [hdr.receiver, hdr.sender, hdr.length]

/-- `*(PacketHeader *)buffer`. -/
def ofBytes (buffer : List Byte) : PacketHeader :=
  ⟨wordAt buffer 0, wordAt buffer 4, wordAt buffer 8⟩

@[simp]
theorem length_toBytes (hdr : PacketHeader) : hdr.toBytes.length = headerSize := by
  simp [toBytes, headerSize]

theorem ofBytes_toBytes_append (hdr : PacketHeader) (rest : List Byte) :
    ofBytes (hdr.toBytes ++ rest) = hdr := by
  have words := wordAt_header hdr.receiver hdr.sender hdr.length rest
  rw [ofBytes, toBytes, words.1, words.2.1, words.2.2]

end PacketHeader

namespace MailHeader

def toBytes (hdr : MailHeader) : List Byte :=
  encodeWords [hdr.receiver, hdr.sender, hdr.length]

/-- `*(MailHeader *)buffer`. -/
def ofBytes (buffer : List Byte) : MailHeader :=
  ⟨wordAt buffer 0, wordAt buffer 4, wordAt buffer 8⟩

@[simp]
theorem length_toBytes (hdr : MailHeader) : hdr.toBytes.length = headerSize := by
  simp [toBytes, headerSize]

theorem ofBytes_toBytes_append (hdr : MailHeader) (rest : List Byte) :
    ofBytes (hdr.toBytes ++ rest) = hdr := by
  have words := wordAt_header hdr.receiver hdr.sender hdr.length rest
  rw [ofBytes, toBytes, words.1, words.2.1, words.2.2]

end MailHeader

namespace Mail

/-- `Mail::Mail`. -/
def new (pktH : PacketHeader) (mailH : MailHeader) (msgData : List Byte) : Except Fault Mail :=
  if mailH.length.toNat ≤ maxMailSize then
    .ok ⟨pktH, mailH, msgData.take mailH.length.toNat⟩
  else .error .assertion

/-- The lengths in the headers are those of the payload, which is short enough. -/
structure Sized (mail : Mail) : Prop where
  packet : mail.pktHdr.length.toNat = headerSize + mail.data.length
  letter : mail.mailHdr.length.toNat = mail.data.length
  short : mail.data.length ≤ maxMailSize

/-- The bytes of a packet behind its header. -/
def body (mail : Mail) : List Byte :=
  mail.mailHdr.toBytes ++ mail.data

/-- The message in a packet with the given header and body. -/
def ofBody (pktHdr : PacketHeader) (buffer : List Byte) : Mail where
  pktHdr := pktHdr
  mailHdr := .ofBytes buffer
  data := (buffer.drop headerSize).take (MailHeader.ofBytes buffer).length.toNat

/-- The message in a packet. -/
def ofWire (buffer : List Byte) : Mail :=
  ofBody (.ofBytes buffer) (buffer.drop headerSize)

/-- The buffer starts with the body of the message. -/
structure InBuffer (mail : Mail) (buffer : List Byte) : Prop where
  sized : mail.Sized
  starts : ∃ rest, buffer = mail.body ++ rest

/-- The message makes up a packet. -/
structure OnWire (mail : Mail) (buffer : List Byte) : Prop where
  sized : mail.Sized
  whole : buffer.length = maxWireSize
  starts : ∃ rest, buffer = mail.pktHdr.toBytes ++ (mail.body ++ rest)

variable {mail : Mail} {buffer : List Byte}

theorem Sized.length_body (sized : mail.Sized) :
    mail.body.length = mail.pktHdr.length.toNat := by
  rw [body, List.length_append, MailHeader.length_toBytes, sized.packet]

theorem Sized.length_pos (sized : mail.Sized) : 0 < mail.pktHdr.length.toNat := by
  rw [sized.packet, headerSize]
  omega

theorem Sized.length_ne_zero (sized : mail.Sized) : mail.pktHdr.length ≠ 0 := by
  intro zero
  have positive := sized.length_pos
  rw [zero] at positive
  cases positive

theorem Sized.length_le (sized : mail.Sized) :
    mail.pktHdr.length.toNat ≤ maxPacketSize := by
  have short := sized.short
  rw [sized.packet]
  unfold maxMailSize at short
  have room : headerSize ≤ maxPacketSize := by decide
  omega

/-- What is behind the message in the buffer does not matter. -/
theorem Sized.ofBody_append (sized : mail.Sized) (rest : List Byte) :
    ofBody mail.pktHdr (mail.body ++ rest) = mail := by
  have header : MailHeader.ofBytes (mail.body ++ rest) = mail.mailHdr := by
    rw [body, List.append_assoc]
    exact MailHeader.ofBytes_toBytes_append mail.mailHdr _
  have payload : (mail.body ++ rest).drop headerSize = mail.data ++ rest := by
    rw [body, List.append_assoc, ← mail.mailHdr.length_toBytes, List.drop_left]
  rw [ofBody, header, payload, sized.letter, List.take_left]

theorem InBuffer.ofBody_eq (inside : mail.InBuffer buffer) :
    ofBody mail.pktHdr buffer = mail := by
  obtain ⟨rest, rfl⟩ := inside.starts
  exact inside.sized.ofBody_append rest

theorem OnWire.ofBytes_eq (onWire : mail.OnWire buffer) :
    PacketHeader.ofBytes buffer = mail.pktHdr := by
  obtain ⟨rest, rfl⟩ := onWire.starts
  exact PacketHeader.ofBytes_toBytes_append mail.pktHdr _

theorem OnWire.drop_eq (onWire : mail.OnWire buffer) :
    ∃ rest, buffer.drop headerSize = mail.body ++ rest := by
  obtain ⟨rest, rfl⟩ := onWire.starts
  refine ⟨rest, ?_⟩
  rw [← mail.pktHdr.length_toBytes, List.drop_left]

theorem OnWire.ofWire_eq (onWire : mail.OnWire buffer) : ofWire buffer = mail := by
  obtain ⟨rest, dropped⟩ := onWire.drop_eq
  rw [ofWire, onWire.ofBytes_eq, dropped, onWire.sized.ofBody_append]

/-- The bytes that the packet header counts are the body of the message. -/
theorem InBuffer.take_eq (inside : mail.InBuffer buffer) :
    buffer.take mail.pktHdr.length.toNat = mail.body := by
  obtain ⟨rest, rfl⟩ := inside.starts
  rw [← inside.sized.length_body, List.take_left]

/-- Copying the body of a message into a buffer. -/
theorem Sized.inBuffer_splice (sized : mail.Sized) (buffer : List Byte) :
    mail.InBuffer (splice buffer 0 mail.body) :=
  ⟨sized, ⟨_, splice_zero buffer mail.body⟩⟩

end Mail

/-- `class Network`: its address, the packet that it has buffered, the `SendDone`s that
are scheduled, and the record. -/
structure Network where
  ident : CInt
  sendBusy : Bool
  inHdr : PacketHeader
  inbox : List Byte
  scheduled : Nat
  unread : Bool
  overwritten : Nat

namespace Network

/-- `Network::Network`; the memory of `inHdr` and `inbox` holds zeros. -/
def new (addr : CInt) : Network where
  ident := addr
  sendBusy := false
  inHdr := ⟨0, 0, 0⟩
  inbox := List.replicate maxPacketSize 0
  scheduled := 0
  unread := false
  overwritten := 0

/-- `Network::CheckPktAvail` with the packets in its socket; the result says whether
`readHandler` is called. -/
def checkPktAvail (net : Network) (sock : List (List Byte)) :
    Except Fault (Network × List (List Byte) × Bool) :=
  if net.inHdr.length ≠ 0 then .ok (net, sock, false)
  else
    match sock with
    | [] => .ok (net, [], false)
    | buffer :: rest =>
        let inHdr := PacketHeader.ofBytes buffer
        -- `ReadFromSocket` asserts that it got a whole packet
        if buffer.length = maxWireSize ∧ inHdr.receiver = net.ident ∧
            inHdr.length.toNat ≤ maxPacketSize then
          .ok ({ net with
            inHdr := inHdr
            inbox := splice net.inbox 0 ((buffer.drop headerSize).take inHdr.length.toNat)
            unread := true
            overwritten := net.overwritten + net.unread.toNat }, rest, true)
        else .error .assertion

/-- `Network::SendDone`, if it is scheduled. -/
def sendDone (net : Network) : Option Network :=
  if net.scheduled = 0 then none
  else some { net with sendBusy := false, scheduled := net.scheduled - 1 }

/-- `Network::Send`, and the packet that is put into the socket of the destination.  The
rest of the new buffer holds what was in memory. -/
def send (net : Network) (hdr : PacketHeader) (data : List Byte) (memory : Nat → Byte) :
    Except Fault (Network × List Byte) :=
  if net.sendBusy = false ∧ 0 < hdr.length.toNat ∧ hdr.length.toNat ≤ maxPacketSize ∧
      hdr.sender = net.ident then
    .ok ({ net with scheduled := net.scheduled + 1 },
      splice (splice ((List.range maxWireSize).map memory) 0 hdr.toBytes) headerSize
        (data.take hdr.length.toNat))
  else .error .assertion

/-- `Network::Receive` into a buffer. -/
def receive (net : Network) (data : List Byte) : PacketHeader × List Byte × Network :=
  (net.inHdr,
    if net.inHdr.length ≠ 0 then splice data 0 (net.inbox.take net.inHdr.length.toNat)
    else data,
    { net with inHdr := { net.inHdr with length := 0 }, unread := false })

variable {net : Network} {mail : Mail}

/-- The packet of a message gets into the socket whole. -/
theorem send_eq (sized : mail.Sized) (free : net.sendBusy = false)
    (sender : mail.pktHdr.sender = net.ident) (memory : Nat → Byte) :
    ∃ buffer, mail.OnWire buffer ∧
      net.send mail.pktHdr mail.body memory =
        .ok ({ net with scheduled := net.scheduled + 1 }, buffer) := by
  have checks : net.sendBusy = false ∧ 0 < mail.pktHdr.length.toNat ∧
      mail.pktHdr.length.toNat ≤ maxPacketSize ∧ mail.pktHdr.sender = net.ident :=
    ⟨free, sized.length_pos, sized.length_le, sender⟩
  have all : mail.body.take mail.pktHdr.length.toNat = mail.body := by
    rw [← sized.length_body, List.take_length]
  have size : mail.body.length ≤ maxPacketSize := by
    rw [sized.length_body]
    exact sized.length_le
  have wire : headerSize + maxPacketSize = maxWireSize := by decide
  let front := splice ((List.range maxWireSize).map memory) 0 mail.pktHdr.toBytes
  have length : front.length = maxWireSize := by
    rw [length_splice] <;> simp
    omega
  have start : front.take headerSize = mail.pktHdr.toBytes := by
    rw [show front = mail.pktHdr.toBytes ++ _ from splice_zero _ _,
      ← mail.pktHdr.length_toBytes, List.take_left]
  refine ⟨splice front headerSize mail.body, ⟨sized, ?_, ?_⟩, ?_⟩
  · rw [length_splice, length]
    omega
  · exact ⟨front.drop (headerSize + mail.body.length), by
      rw [splice, start, List.append_assoc]⟩
  · rw [send, if_pos checks, all]

/-- The next packet in the socket is buffered. -/
theorem checkPktAvail_cons {buffer : List Byte} (empty : net.inHdr.length = 0)
    (onWire : mail.OnWire buffer) (receiver : mail.pktHdr.receiver = net.ident)
    (rest : List (List Byte)) :
    ∃ inbox, mail.InBuffer inbox ∧
      net.checkPktAvail (buffer :: rest) = .ok ({ net with
        inHdr := mail.pktHdr
        inbox := inbox
        unread := true
        overwritten := net.overwritten + net.unread.toNat }, rest, true) := by
  obtain ⟨padding, dropped⟩ := onWire.drop_eq
  have copied : (mail.body ++ padding).take mail.pktHdr.length.toNat = mail.body := by
    rw [← onWire.sized.length_body, List.take_left]
  refine ⟨splice net.inbox 0 mail.body, onWire.sized.inBuffer_splice net.inbox, ?_⟩
  simp [checkPktAvail, empty, onWire.ofBytes_eq, onWire.whole, receiver,
    onWire.sized.length_le, dropped, copied]

/-- The buffered packet is copied. -/
theorem receive_eq (inside : mail.InBuffer net.inbox) (header : net.inHdr = mail.pktHdr)
    (data : List Byte) :
    net.receive data = (mail.pktHdr, splice data 0 mail.body,
      { net with inHdr := { mail.pktHdr with length := 0 }, unread := false }) := by
  have nonzero := inside.sized.length_ne_zero
  rw [receive, header, if_pos nonzero, inside.take_eq]

end Network

end Nachos
