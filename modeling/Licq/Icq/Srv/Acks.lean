import Licq.Icq.Packets
import Licq.Icq.Srv.Packet
import Licq.Text.Bytes
import Licq.Text.Search
import Licq.Text.Translator

/-!
# Icq/Srv/Acks — replies to messages that came through the server

A message that is relayed by the server has a cookie and a sequence number, and its sender looks for
both in the reply.  Messages, URLs, contact lists and requests of the automatic response are
answered at once; a file or a chat is answered later, from the event that keeps the cookie and the
sequence, by way of a signal.

A packet carries the cookie and the sequence that its constructor was given (`ack_answers_iff`,
`advanced_answers_iff`), but a reply about a file is given the id of the signal's event, which is
zero, and a reply that is sent directly has no cookie.  The **main result** `carries_iff` says which
replies have both.
-/

open Wire
open Text (asciiBytes)

namespace Licq.Acks

open List Buffer.Field

/-! ## Requests -/

/-- A message through the server, as it was parsed. -/
structure Relayed where
  nMsgID : UInt32 × UInt32
  /-- The id of the sender, which was read with a length of one byte. -/
  accountId : List UInt8
  length_accountId : accountId.length < 2 ^ 8
  nSequence : UInt16
  nMsgType : UInt16
  nMask : UInt16
  bIsAck : Bool
  message : List UInt8
  /-- The name in a message of the type ICBM. -/
  plugin : List UInt8
  /-- What is read behind the message, for a chat or a file. -/
  clients : List UInt8
  filename : List UInt8
  nFileSize : UInt32

/-- The types of messages that are answered: `ICQ_CMDxSUB_MSG` and those like it. -/
def subMsg : UInt16 := 0x0001
def subChat : UInt16 := 0x0002
def subFile : UInt16 := 0x0003
def subUrl : UInt16 := 0x0004
def subContactList : UInt16 := 0x0013
def subIcbm : UInt16 := 0x001A

/-- `ICQ_CMDxTCP_READxAWAYxMSG`, `ICQ_CMDxTCP_READxOCCUPIEDxMSG`, `ICQ_CMDxTCP_READxNAxMSG`,
`ICQ_CMDxTCP_READxDNDxMSG` and `ICQ_CMDxTCP_READxFFCxMSG` -/
def readMsgs : List UInt16 := [0x03E8, 0x03E9, 0x03EA, 0x03EB, 0x03EC]

/-- The type of a message, from the name of the plugin for the type ICBM; zero for a name that is
not known. -/
def Relayed.nCommand (r : Relayed) : UInt16 :=
  if r.nMsgType = subIcbm then
    if (Text.find (asciiBytes "File".toList) r.plugin).isSome then subFile
    else if (Text.find (asciiBytes "URL".toList) r.plugin).isSome then subUrl
    else if (Text.find (asciiBytes "Chat".toList) r.plugin).isSome then subChat
    else if (Text.find (asciiBytes "Contacts".toList) r.plugin).isSome then subContactList
    else 0
  else r.nMsgType

/-! ## Packets -/

/-- What the constructors read of the owner and of the contact. -/
structure Sender where
  nSubSequence : UInt16
  connectionVersion : UInt16
  /-- The status to the contact, as a number of ICQ. -/
  icqStatus : UInt16
  intIp : UInt32
  port : UInt16
  /-- The automatic response, in the encoding of the owner. -/
  autoResponse : List UInt8
  /-- The conversion to the encoding of the contact. -/
  fromUtf8 : List UInt8 → List UInt8

/-- The message of `CPU_AckThroughServer`; the server does not take a longer one. -/
def Sender.myMessage (d : Sender) : List UInt8 :=
  if 8099 ≤ d.autoResponse.length then d.autoResponse.take 8098 else d.autoResponse

/-- `m_nStatus` of `CPU_AckThroughServer`, where a number of ICQ is tested with bits of
`Licq::User`. -/
def Sender.nStatus (d : Sender) (bAccept : Bool) : UInt16 :=
  if bAccept = false then 0x0001
  else if d.icqStatus &&& 0x0800 ≠ 0 then 0x000F
  else if d.icqStatus &&& 0x0400 ≠ 0 then 0x000B
  else if d.icqStatus &&& 0x0200 ≠ 0 then 0x000E
  else if d.icqStatus &&& 0x0100 ≠ 0 then 0x0004
  else 0x0000

/-- The fields of `CPU_AckThroughServer` up to the sequence. -/
def ackHead (accountId : List UInt8) (nMsgID : UInt32 × UInt32) : List Buffer.Field :=
  [.uint32BE nMsgID.1, .uint32BE nMsgID.2, .uint16BE 2, .uint8 (UInt8.ofNat accountId.length),
    .raw accountId, .uint16BE 0x03, .uint16LE 0x1b, .uint16LE 8, .raw pluginNormal, .uint32LE 3,
    .uint8 0]

/-- The sequence, a length and the sequence again. -/
def sequenceFields (nSequence : UInt16) : List Buffer.Field :=
  [.uint16LE nSequence, .uint16LE 0x0E, .uint16LE nSequence]

/-- A packet that has fields up to the sequence, the sequence twice, and others behind. -/
def sequenced (nFamily nSubType nSubSequence : UInt16) (nSize : ℕ) (head : List Buffer.Field)
    (nSequence : UInt16) (tail : List Buffer.Field) : SrvPacket :=
  cpuCommonFamily nFamily nSubType nSubSequence nSize
    (.ofFields (head ++ sequenceFields nSequence ++ tail))

/-- The fields of `CPU_AckThroughServer` behind the sequence. -/
def ackTail (d : Sender) (nMsgType : UInt16) (bAccept : Bool) (nLevel : UInt16) :
    List Buffer.Field :=
  [.uint32BE 0, .uint32BE 0, .uint32BE 0, .uint16LE nMsgType, .uint16LE (d.nStatus bAccept),
    .uint16LE nLevel, .shortNullStringLE (cStr d.myMessage)]

/-- `CPU_AckThroughServer` with `PLUGIN_NORMAL`, and what a constructor derived from it adds. -/
def cpuAckThroughServer (d : Sender) (accountId : List UInt8) (nMsgID : UInt32 × UInt32)
    (nSequence nMsgType : UInt16) (bAccept : Bool) (nLevel : UInt16) (nSize : ℕ)
    (fields : List Buffer.Field) : SrvPacket :=
  sequenced 0x0004 0x000b d.nSubSequence
    (66 + accountId.length + (d.myMessage.length + 1) + nSize) (ackHead accountId nMsgID) nSequence
    (ackTail d nMsgType bAccept nLevel ++ fields)

def cpuAckGeneral (d : Sender) (accountId : List UInt8) (nMsgID : UInt32 × UInt32)
    (nSequence nMsgType : UInt16) (bAccept : Bool) (nLevel : UInt16) : SrvPacket :=
  cpuAckThroughServer d accountId nMsgID nSequence nMsgType bAccept nLevel 8
    [.uint32BE 0, .uint32BE 0xFFFFFF00]

def cpuAckFileRefuse (d : Sender) (accountId : List UInt8) (nMsgID : UInt32 × UInt32)
    (nSequence : UInt16) (message : List UInt8) : SrvPacket :=
  cpuAckThroughServer d accountId nMsgID nSequence subFile false 0 (message.length + 18)
    [.shortNullStringLE message, .uint32LE 0, .shortNullStringLE [], .uint32LE 0, .uint32LE 0]

def cpuAckChatRefuse (d : Sender) (accountId : List UInt8) (nMsgID : UInt32 × UInt32)
    (nSequence : UInt16) (message : List UInt8) : SrvPacket :=
  cpuAckThroughServer d accountId nMsgID nSequence subChat false 0 (message.length + 14)
    [.shortNullStringLE message, .shortNullStringLE [], .uint32LE 0, .uint32LE 0]

/-- The fields of `CPU_Type2Message` for an acknowledgement and of `CPU_AdvancedMessage`, up to the
sequence; the two lengths are taken from `m_nSize`. -/
def advancedHead (d : Sender) (accountId : List UInt8) (nMsgID : UInt32 × UInt32)
    (bDirectInfo : Bool) (m_nSize : UInt16) : List Buffer.Field :=
  [.uint32BE nMsgID.1, .uint32BE nMsgID.2, .uint16BE 2, .uint8 (UInt8.ofNat accountId.length),
    .raw accountId, .uint16BE 0x0005, .uint16BE (m_nSize - 25 - UInt16.ofNat accountId.length),
    .uint16BE 0, .uint32BE nMsgID.1, .uint32BE nMsgID.2, .raw icqCapabilitySrvRelay,
    .uint32BE 0x000A0002, .uint16BE 2, .uint32BE 0x000F0000] ++
  (if bDirectInfo then
    [.uint32BE 0x00030004, .uint32LE d.intIp, .uint32BE 0x00050002, .uint16LE d.port]
  else []) ++
  [.uint16BE 0x2711, .uint16BE (m_nSize - 29 - UInt16.ofNat accountId.length - 36 -
      (if bDirectInfo then 14 else 0)),
    .uint16LE 0x001B, .uint16LE d.connectionVersion, .raw pluginNormal, .uint32LE 3, .uint8 0x04]

/-- The fields of `CPU_AdvancedMessage` behind the sequence. -/
def advancedTail (nMsgType nMsgFlags : UInt16) : List Buffer.Field :=
  [.uint32BE 0, .uint32BE 0, .uint32BE 0, .uint16LE nMsgType, .uint16LE 0, .uint16LE nMsgFlags,
    .uint16LE 1, .uint8 0]

/-- `CPU_AdvancedMessage` for an acknowledgement, and what a constructor derived from it adds. -/
def cpuAdvancedMessage (d : Sender) (accountId : List UInt8) (nMsgType nMsgFlags nSequence : UInt16)
    (nMsgID : UInt32 × UInt32) (nSize : ℕ) (fields : List Buffer.Field) : SrvPacket :=
  let bDirectInfo : Bool := nMsgType = subIcbm
  let n := 55 + accountId.length + (if bDirectInfo then 14 else 0) + 54 + nSize
  sequenced 0x0004 0x0006 d.nSubSequence n
    (advancedHead d accountId nMsgID bDirectInfo (UInt16.ofNat (10 + n))) nSequence
    (advancedTail nMsgType nMsgFlags ++ fields)

def cpuAckFileAccept (d : Sender) (accountId : List UInt8) (nMsgID : UInt32 × UInt32)
    (nSequence nPort : UInt16) (desc file : List UInt8) (nFileSize : UInt32) : SrvPacket :=
  cpuAdvancedMessage d accountId subIcbm 0 nSequence nMsgID (66 + file.length + desc.length)
    [.uint16LE 0x29, .uint32BE 0xF02D12D9, .uint32BE 0x3091D311, .uint32BE 0x8DD70010,
      .uint32BE 0x4B06462E, .uint16BE 0, .uint32LE 4, .raw (asciiBytes "File".toList),
      .uint32BE 0x00000100, .uint32BE 0x00010000, .uint32BE 0, .uint16BE 0, .uint8 0,
      .long (19 + desc.length + file.length), .long desc.length, .raw desc, .uint16BE nPort,
      .uint16BE 0, .shortNullStringLE file, .uint32LE nFileSize, .long nPort.toNat]

def cpuAckChatAccept (d : Sender) (accountId : List UInt8) (clients : List UInt8)
    (nMsgID : UInt32 × UInt32) (nSequence nPort : UInt16) : SrvPacket :=
  cpuAdvancedMessage d accountId subChat 0 nSequence nMsgID (11 + clients.length)
    [.shortNullStringLE clients, .uint16BE nPort, .uint16BE 0, .long nPort.toNat]

/-! ## Events and signals -/

/-- `Licq::EventFile` or `Licq::EventChat` for a request. -/
structure RequestEvent where
  sequence : UInt16
  messageId : UInt32 × UInt32
  flags : UInt32
  /-- The description of the file, or the reason for the chat. -/
  text : List UInt8
  filename : List UInt8
  fileSize : UInt32
  clients : List UInt8

def flagDirect : UInt32 := 0x00010000
def flagMultiRec : UInt32 := 0x00020000
def flagUrgent : UInt32 := 0x00040000

def RequestEvent.isDirect (e : RequestEvent) : Bool := e.flags &&& flagDirect ≠ 0

/-- The event for a file or a chat; both constructors set the flag for a direct event. -/
def Relayed.event (d : Sender) (r : Relayed) : RequestEvent where
  sequence := r.nSequence
  messageId := r.nMsgID
  flags := (if r.nMask &&& 0x8000 ≠ 0 then flagMultiRec else 0) |||
    (if r.nMask &&& 0x0040 ≠ 0 then flagUrgent else 0) ||| flagDirect
  text := if r.nCommand = subFile then d.fromUtf8 r.message else r.message
  filename := r.filename
  fileSize := r.nFileSize
  clients := r.clients

/-- The decision of the user, and how the front end asks for it to be sent. -/
structure Decision where
  accept : Bool
  reason : List UInt8
  localPort : UInt16
  direct : Bool

/-- `ProtoSendEventReplySignal`, with the id of its base, which is not given. -/
structure SendEventReplySignal where
  message : List UInt8
  accept : Bool
  port : UInt16
  eventId : ℕ
  sequence : UInt16
  flag1 : UInt32
  flag2 : UInt32
  direct : Bool
  filename : List UInt8
  filesize : UInt32

/-- `ProtocolManager::fileTransferAccept` -/
def fileTransferAccept (port sequence : UInt16) (flag1 flag2 : UInt32)
    (message filename : List UInt8) (filesize : UInt32) (viaServer : Bool) :
    SendEventReplySignal :=
  ⟨message, true, port, 0, sequence, flag1, flag2, !viaServer, filename, filesize⟩

/-- `ProtocolManager::fileTransferRefuse` -/
def fileTransferRefuse (message : List UInt8) (sequence : UInt16) (flag1 flag2 : UInt32)
    (viaServer : Bool) : SendEventReplySignal :=
  ⟨message, false, 0, 0, sequence, flag1, flag2, !viaServer, [], 0⟩

/-- A reply: a packet of one of the two kinds through the server, or one over a direct connection,
of which only the sequence is said. -/
inductive Reply
  | ackThroughServer (p : SrvPacket)
  | advancedMessage (bDirectInfo : Bool) (p : SrvPacket)
  | client (nSequence : UInt16)

/-- `icqFileTransferAccept` and `icqFileTransferRefuse` -/
def icqFileTransferReply (d : Sender) (accountId : List UInt8) (ps : SendEventReplySignal) :
    Reply :=
  let text := d.fromUtf8 (returnToDos ps.message)
  if ps.direct then .client (UInt16.ofNat ps.eventId)
  else if ps.accept then
    .advancedMessage true (cpuAckFileAccept d accountId (ps.flag1, ps.flag2)
      (UInt16.ofNat ps.eventId) ps.port text ps.filename ps.filesize)
  else
    .ackThroughServer (cpuAckFileRefuse d accountId (ps.flag1, ps.flag2) (UInt16.ofNat ps.eventId)
      text)

/-- `icqChatRequestAccept` and `icqChatRequestRefuse`, with the fields of their signals. -/
def icqChatRequestReply (d : Sender) (accountId : List UInt8) (a : Decision) (clients : List UInt8)
    (nSequence : UInt16) (nMsgID : UInt32 × UInt32) : Reply :=
  if a.direct then .client nSequence
  else if a.accept then
    .advancedMessage false (cpuAckChatAccept d accountId clients nMsgID nSequence a.localPort)
  else
    .ackThroughServer (cpuAckChatRefuse d accountId nMsgID nSequence
      (d.fromUtf8 (returnToDos a.reason)))

/-- The signal for a file. -/
def Decision.signal (a : Decision) (e : RequestEvent) : SendEventReplySignal :=
  if a.accept then
    fileTransferAccept a.localPort e.sequence e.messageId.1 e.messageId.2 e.text e.filename
      e.fileSize (!a.direct)
  else fileTransferRefuse a.reason e.sequence e.messageId.1 e.messageId.2 (!a.direct)

/-- `ProcessMessage` and what follows from its event: the reply, where one is built. -/
def reply (d : Sender) (r : Relayed) (a : Decision) : Option Reply :=
  let ack := some (.ackThroughServer (cpuAckGeneral d r.accountId r.nMsgID r.nSequence r.nCommand
    true r.nMask))
  let e := r.event d
  if r.nCommand ∈ [subMsg, subUrl, subContactList] then ack
  else if r.bIsAck then none
  else if r.nCommand ∈ readMsgs then ack
  else if r.nCommand = subChat then
    some (icqChatRequestReply d r.accountId a e.clients e.sequence e.messageId)
  else if r.nCommand = subFile then some (icqFileTransferReply d r.accountId (a.signal e))
  else none

/-! ## What the requester looks for -/

/-- These bytes are at a place. -/
def At (k : ℕ) (bytes s : List UInt8) : Prop := bytes <+: s.drop k

instance (k : ℕ) (bytes s : List UInt8) : Decidable (At k bytes s) :=
  inferInstanceAs (Decidable (_ <+: _))

def cookie (nMsgID : UInt32 × UInt32) : List UInt8 :=
  bytesBE 4 nMsgID.1.toNat ++ bytesBE 4 nMsgID.2.toNat

/-- Where the sequence stands first, in a packet with an account id of length `n`. -/
def Reply.sequenceAt (n : ℕ) : Reply → ℕ
  | .ackThroughServer _ => 56 + n
  | .advancedMessage bDirectInfo _ => 98 + n + if bDirectInfo then 14 else 0
  | .client _ => 0

/-- The cookie and the sequence number of the request are in the places for them: the cookie at
the head of the packet, and once more in the relayed block of an advanced message, the sequence
twice. -/
structure Answers (r : Relayed) (k : ℕ) (s : List UInt8) : Prop where
  cookie : At 16 (cookie r.nMsgID) s
  sequence : At k (bytesLE 2 r.nSequence.toNat) s
  sequence' : At (k + 4) (bytesLE 2 r.nSequence.toNat) s

/-- The requester finds what it looks for, whatever sequence the transport has. -/
def Reply.Carries (r : Relayed) (x : Reply) : Prop :=
  match x with
  | .ackThroughServer p => ∀ nSequence, ∃ b, p.buffer nSequence = some b ∧
      Answers r (x.sequenceAt r.accountId.length) b.data
  | .advancedMessage _ p => ∀ nSequence, ∃ b, p.buffer nSequence = some b ∧
      Answers r (x.sequenceAt r.accountId.length) b.data ∧
        At (33 + r.accountId.length) (cookie r.nMsgID) b.data
  | .client _ => False

/-! ## Places -/

theorem at_append {k : ℕ} {pre bytes rest : List UInt8} (h : pre.length = k) :
    At k bytes (pre ++ (bytes ++ rest)) := by
  rw [At, ← h, drop_left]
  exact prefix_append _ _

theorem At.length_le {k : ℕ} {bytes s : List UInt8} (h : At k bytes s) (hne : bytes ≠ []) :
    k + bytes.length ≤ s.length := by
  have hle := List.IsPrefix.length_le h
  rw [length_drop] at hle
  have := length_pos_iff.mpr hne
  omega

theorem At.eq {k : ℕ} {bytes bytes' s : List UInt8} (h : At k bytes s) (h' : At k bytes' s)
    (hlength : bytes.length = bytes'.length) : bytes = bytes' :=
  (prefix_of_prefix_length_le h h' hlength.le).eq_of_length hlength

theorem bytesLE_inj {v w : UInt16} (h : bytesLE 2 v.toNat = bytesLE 2 w.toNat) : v = w := by
  have hvalue := congrArg valueLE h
  rw [valueLE_bytesLE, valueLE_bytesLE] at hvalue
  have hv := v.toNat_lt
  have hw := w.toNat_lt
  exact UInt16.toNat_inj.mp (by omega)

theorem bytesLE_ne_nil (n : ℕ) : bytesLE 2 n ≠ [] :=
  ne_nil_of_length_eq_add_one (length_bytesLE 2 n)

section Places

variable {nFamily nSubType nSubSequence nSequence : UInt16} {nSize : ℕ}
  {head tail : List Buffer.Field}

/-- Where the size covers the second sequence, the packet has all fields up to it. -/
theorem data_sequenced {p : SrvPacket}
    (hp : p = sequenced nFamily nSubType nSubSequence nSize head nSequence tail)
    (htail : ∀ f ∈ tail, SrvPacket.Lenient f)
    (hfits : 16 + (head.flatMap Buffer.Field.bytes).length ≤ p.nSize.toNat) (transport : UInt16) :
    ∃ b pre rest, p.buffer transport = some b ∧ pre.length = 16 ∧
      b.data = pre ++ (head.flatMap Buffer.Field.bytes ++ (bytesLE 2 nSequence.toNat ++
        (bytesLE 2 0x0E ++ (bytesLE 2 nSequence.toNat ++ rest)))) := by
  have hfields : p.layout.fields =
      (snacHeader nFamily nSubType nSubSequence ++ head ++ sequenceFields nSequence) ++ tail := by
    rw [hp, sequenced, cpuCommonFamily]
    simp only [Layout.fields_append, Layout.ofFields, append_assoc]
  have hsequence : (sequenceFields nSequence).flatMap bytes =
      bytesLE 2 nSequence.toNat ++ (bytesLE 2 0x0E ++ bytesLE 2 nSequence.toNat) := by
    simp only [sequenceFields, flatMap_cons, flatMap_nil, bytes,
      append_nil]
    rfl
  have hsize : ((snacHeader nFamily nSubType nSubSequence ++ head ++
      sequenceFields nSequence).flatMap bytes).length ≤ p.nSize.toNat := by
    simp only [flatMap_append, length_append, length_snacHeader, hsequence,
      length_bytesLE]
    omega
  obtain ⟨b, hb, rest, hdata⟩ := SrvPacket.buffer_of_prefix_fits transport hfields hsize htail
  refine ⟨b, (p.header transport ++ snacHeader nFamily nSubType nSubSequence).flatMap
    bytes, rest, hb, ?_, ?_⟩
  · rw [flatMap_append, length_append, SrvPacket.length_header, length_snacHeader]
  · rw [← hdata]
    simp only [flatMap_append, hsequence, append_assoc]

variable {r : Relayed} {head' : List Buffer.Field}

/-- **Which packets have the cookie and the sequence of a request**: those that were given its
sequence, and have room up to where it stands the second time. -/
theorem sequenced_answers_iff {p : SrvPacket}
    (hp : p = sequenced nFamily nSubType nSubSequence nSize head nSequence tail)
    (hhead : head = .uint32BE r.nMsgID.1 :: .uint32BE r.nMsgID.2 :: head')
    (htail : ∀ f ∈ tail, SrvPacket.Lenient f) {k : ℕ}
    (hk : k = 16 + (head.flatMap Buffer.Field.bytes).length) :
    (∀ transport, ∃ b, p.buffer transport = some b ∧ Answers r k b.data) ↔
      nSequence = r.nSequence ∧ k ≤ p.nSize.toNat := by
  subst hk
  constructor
  · intro h
    obtain ⟨b, hb, -, hsequence, hsequence'⟩ := h 0
    have hlength := hsequence'.length_le (bytesLE_ne_nil _)
    have hroom := SrvPacket.length_data_le hb
    rw [length_bytesLE] at hlength
    have hfits : 16 + (head.flatMap bytes).length ≤ p.nSize.toNat := by omega
    refine ⟨?_, hfits⟩
    obtain ⟨b', pre, rest, hb', hpre, hdata⟩ := data_sequenced hp htail hfits 0
    cases hb.symm.trans hb'
    have hat : At (16 + (head.flatMap bytes).length) (bytesLE 2 nSequence.toNat)
        b.data := by
      rw [hdata, ← append_assoc]
      exact at_append (by rw [length_append, hpre])
    exact bytesLE_inj (hat.eq hsequence (by rw [length_bytesLE, length_bytesLE]))
  · rintro ⟨rfl, hfits⟩ transport
    obtain ⟨b, pre, rest, hb, hpre, hdata⟩ := data_sequenced hp htail hfits transport
    have hcookie : head.flatMap bytes =
        cookie r.nMsgID ++ head'.flatMap bytes := by
      rw [hhead, flatMap_cons, flatMap_cons, cookie, append_assoc]
      rfl
    refine ⟨b, hb, ?_, ?_, ?_⟩
    · rw [hdata, hcookie, append_assoc]
      exact at_append hpre
    · rw [hdata, ← append_assoc]
      exact at_append (by rw [length_append, hpre])
    · rw [hdata, ← append_assoc, ← append_assoc, ← append_assoc]
      refine at_append ?_
      simp only [length_append, hpre, length_bytesLE]

end Places

/-! ## The two kinds of packets -/

section Packets

variable {d : Sender} {r : Relayed} {nSequence nMsgType : UInt16} {nSize : ℕ}
  {fields : List Buffer.Field}

theorem length_ackHead (accountId : List UInt8) (nMsgID : UInt32 × UInt32) :
    ((ackHead accountId nMsgID).flatMap Buffer.Field.bytes).length = 40 + accountId.length := by
  simp only [ackHead, flatMap_cons, flatMap_nil, length_append, bytes,
    length_bytesBE, length_bytesLE, length_cons, length_nil, pluginNormal,
    length_replicate]
  omega

/-- The fields of an advanced message up to the second cookie. -/
def advancedStart (accountId : List UInt8) (nMsgID : UInt32 × UInt32) (m_nSize : UInt16) :
    List Buffer.Field :=
  [.uint32BE nMsgID.1, .uint32BE nMsgID.2, .uint16BE 2, .uint8 (UInt8.ofNat accountId.length),
    .raw accountId, .uint16BE 0x0005, .uint16BE (m_nSize - 25 - UInt16.ofNat accountId.length),
    .uint16BE 0]

theorem length_advancedStart (accountId : List UInt8) (nMsgID : UInt32 × UInt32)
    (m_nSize : UInt16) :
    ((advancedStart accountId nMsgID m_nSize).flatMap Buffer.Field.bytes).length =
      17 + accountId.length := by
  simp only [advancedStart, flatMap_cons, flatMap_nil, length_append,
    bytes, length_bytesBE, length_cons, length_nil]
  omega

theorem exists_advancedHead (accountId : List UInt8) (nMsgID : UInt32 × UInt32) (bDirectInfo : Bool)
    (m_nSize : UInt16) : ∃ tail : List Buffer.Field,
    (advancedHead d accountId nMsgID bDirectInfo m_nSize).flatMap Buffer.Field.bytes =
      (advancedStart accountId nMsgID m_nSize).flatMap Buffer.Field.bytes ++
        (cookie nMsgID ++ tail.flatMap Buffer.Field.bytes) := by
  have hfields : ∃ tail, advancedHead d accountId nMsgID bDirectInfo m_nSize =
      advancedStart accountId nMsgID m_nSize ++
        .uint32BE nMsgID.1 :: .uint32BE nMsgID.2 :: tail := ⟨_, rfl⟩
  obtain ⟨tail, hfields⟩ := hfields
  refine ⟨tail, ?_⟩
  rw [hfields, flatMap_append, flatMap_cons, flatMap_cons, cookie, append_assoc]
  rfl

theorem length_advancedHead (accountId : List UInt8) (nMsgID : UInt32 × UInt32) (bDirectInfo : Bool)
    (m_nSize : UInt16) :
    ((advancedHead d accountId nMsgID bDirectInfo m_nSize).flatMap Buffer.Field.bytes).length =
      82 + accountId.length + if bDirectInfo then 14 else 0 := by
  have hcap : icqCapabilitySrvRelay.length = 16 := rfl
  cases bDirectInfo
  all_goals
    simp only [advancedHead, flatMap_append, flatMap_cons, flatMap_nil,
      length_append, bytes, length_bytesBE, length_bytesLE, length_cons,
      length_nil, pluginNormal, length_replicate, hcap, if_true, if_false,
      Bool.false_eq_true]
    omega

theorem lenient_ackTail {bAccept : Bool} {nLevel : UInt16} :
    ∀ f ∈ ackTail d nMsgType bAccept nLevel, SrvPacket.Lenient f := by
  simp only [ackTail, forall_mem_cons, SrvPacket.Lenient, not_mem_nil, false_implies,
    implies_true, and_self]

theorem lenient_advancedTail {nMsgFlags : UInt16} :
    ∀ f ∈ advancedTail nMsgType nMsgFlags, SrvPacket.Lenient f := by
  simp only [advancedTail, forall_mem_cons, SrvPacket.Lenient, not_mem_nil, false_implies,
    implies_true, and_self]

/-- The packets of the first kind that answer a request. -/
theorem ack_answers_iff {bAccept : Bool} {nLevel : UInt16}
    (hfields : ∀ f ∈ fields, SrvPacket.Lenient f) :
    (Reply.ackThroughServer (cpuAckThroughServer d r.accountId r.nMsgID nSequence nMsgType bAccept
        nLevel nSize fields)).Carries r ↔
      nSequence = r.nSequence ∧
        56 + r.accountId.length ≤
          (76 + r.accountId.length + (d.myMessage.length + 1) + nSize) % 2 ^ 16 := by
  have hsize : (cpuAckThroughServer d r.accountId r.nMsgID nSequence nMsgType bAccept nLevel nSize
      fields).nSize.toNat =
        (76 + r.accountId.length + (d.myMessage.length + 1) + nSize) % 2 ^ 16 := by
    rw [cpuAckThroughServer, sequenced, cpuCommonFamily, UInt16.toNat_ofNat']
    congr 1
    omega
  have hplace : 56 + r.accountId.length =
      16 + ((ackHead r.accountId r.nMsgID).flatMap bytes).length := by
    rw [length_ackHead, ← Nat.add_assoc]
  rw [← hsize]
  exact sequenced_answers_iff rfl rfl (forall_mem_append.mpr ⟨lenient_ackTail, hfields⟩) hplace

/-- The packets of the second kind that answer a request. -/
theorem advanced_answers_iff {nMsgFlags : UInt16} {bDirectInfo : Bool}
    (hfields : ∀ f ∈ fields, SrvPacket.Lenient f)
    (hinfo : bDirectInfo = decide (nMsgType = subIcbm)) :
    (Reply.advancedMessage bDirectInfo (cpuAdvancedMessage d r.accountId nMsgType nMsgFlags
        nSequence r.nMsgID nSize fields)).Carries r ↔
      nSequence = r.nSequence ∧
        98 + r.accountId.length + (if bDirectInfo then 14 else 0) ≤
          (119 + r.accountId.length + (if bDirectInfo then 14 else 0) + nSize) % 2 ^ 16 := by
  have hsize : (cpuAdvancedMessage d r.accountId nMsgType nMsgFlags nSequence r.nMsgID nSize
      fields).nSize.toNat =
        (119 + r.accountId.length + (if bDirectInfo then 14 else 0) + nSize) % 2 ^ 16 := by
    rw [cpuAdvancedMessage, sequenced, cpuCommonFamily, UInt16.toNat_ofNat', ← hinfo]
    congr 1
    omega
  have htail : ∀ f ∈ advancedTail nMsgType nMsgFlags ++ fields, SrvPacket.Lenient f :=
    forall_mem_append.mpr ⟨lenient_advancedTail, hfields⟩
  have hplace (m_nSize : UInt16) :
      98 + r.accountId.length + (if bDirectInfo then 14 else 0) =
        16 + ((advancedHead d r.accountId r.nMsgID bDirectInfo m_nSize).flatMap
          bytes).length := by
    rw [length_advancedHead]
    omega
  rw [← hsize]
  subst hinfo
  constructor
  · intro h
    refine (sequenced_answers_iff rfl rfl htail (hplace _)).mp fun transport => ?_
    obtain ⟨b, hb, hanswers, -⟩ := h transport
    exact ⟨b, hb, hanswers⟩
  · intro h transport
    obtain ⟨b, hb, hanswers⟩ := (sequenced_answers_iff rfl rfl htail (hplace _)).mpr h transport
    obtain ⟨b', pre, rest, hb', hpre, hdata⟩ :=
      data_sequenced rfl htail ((hplace _).symm.trans_le h.2) transport
    cases hb.symm.trans hb'
    refine ⟨b, hb, hanswers, ?_⟩
    obtain ⟨tail, htail⟩ := exists_advancedHead (d := d) r.accountId r.nMsgID
      (decide (nMsgType = subIcbm)) (UInt16.ofNat (10 + (55 + r.accountId.length +
        (if decide (nMsgType = subIcbm) = true then 14 else 0) + 54 + nSize)))
    simp only [hdata, htail, append_assoc]
    rw [← append_assoc pre]
    refine at_append ?_
    rw [length_append, hpre, length_advancedStart]
    omega

end Packets

/-! ## Replies -/

section Replies

variable (d : Sender) (r : Relayed) (a : Decision)

/-- An automatic acknowledgement always has room for its head. -/
theorem ackGeneral_carries : (Reply.ackThroughServer (cpuAckGeneral d r.accountId r.nMsgID
    r.nSequence r.nCommand true r.nMask)).Carries r := by
  have hmessage : d.myMessage.length ≤ 8098 := by
    rw [Sender.myMessage]
    split_ifs with hlong
    · exact length_take_le _ _
    · omega
  have hid := r.length_accountId
  have hlenient : ∀ f ∈ [uint32BE 0, .uint32BE 0xFFFFFF00],
      SrvPacket.Lenient f := by
    decide
  refine (ack_answers_iff hlenient).mpr ⟨rfl, ?_⟩
  rw [Nat.mod_eq_of_lt (by omega)]
  omega

section

variable {d r} {nSequence nPort : UInt16} {message desc file clients : List UInt8}
  {nFileSize : UInt32}

theorem fileRefuse_carries_iff :
    (Reply.ackThroughServer (cpuAckFileRefuse d r.accountId r.nMsgID nSequence message)).Carries r ↔
      nSequence = r.nSequence ∧ 56 + r.accountId.length ≤
        (76 + r.accountId.length + (d.myMessage.length + 1) + (message.length + 18)) % 2 ^ 16 := by
  refine ack_answers_iff ?_
  simp only [forall_mem_cons, SrvPacket.Lenient, not_mem_nil, false_implies, implies_true,
    and_self]

theorem chatRefuse_carries_iff :
    (Reply.ackThroughServer (cpuAckChatRefuse d r.accountId r.nMsgID nSequence message)).Carries r ↔
      nSequence = r.nSequence ∧ 56 + r.accountId.length ≤
        (76 + r.accountId.length + (d.myMessage.length + 1) + (message.length + 14)) % 2 ^ 16 := by
  refine ack_answers_iff ?_
  simp only [forall_mem_cons, SrvPacket.Lenient, not_mem_nil, false_implies, implies_true,
    and_self]

theorem fileAccept_carries_iff :
    (Reply.advancedMessage true (cpuAckFileAccept d r.accountId r.nMsgID nSequence nPort desc file
        nFileSize)).Carries r ↔
      nSequence = r.nSequence ∧ 112 + r.accountId.length ≤
        (133 + r.accountId.length + (66 + file.length + desc.length)) % 2 ^ 16 := by
  rw [cpuAckFileAccept,
    advanced_answers_iff ?_ (show true = decide (subIcbm = subIcbm) from rfl), if_pos rfl]
  · rw [Nat.add_right_comm 98, Nat.add_right_comm 119]
  · simp only [forall_mem_cons, SrvPacket.Lenient, long, not_mem_nil,
      false_implies, implies_true, and_self]

theorem chatAccept_carries_iff :
    (Reply.advancedMessage false (cpuAckChatAccept d r.accountId clients r.nMsgID nSequence
        nPort)).Carries r ↔
      nSequence = r.nSequence ∧ 98 + r.accountId.length ≤
        (119 + r.accountId.length + (11 + clients.length)) % 2 ^ 16 := by
  rw [cpuAckChatAccept,
    advanced_answers_iff ?_ (show false = decide (subChat = subIcbm) from rfl)]
  · rfl
  · simp only [forall_mem_cons, SrvPacket.Lenient, long, not_mem_nil,
      false_implies, implies_true, and_self]

end

/-- The size of the reply to a file or a chat covers its fields up to the sequence, though it was
added up in sixteen bits. -/
def Room : Prop :=
  if a.accept then
    if r.nCommand = subFile then
      112 + r.accountId.length ≤
        (133 + r.accountId.length + (66 + r.filename.length +
          (d.fromUtf8 (returnToDos (d.fromUtf8 r.message))).length)) % 2 ^ 16
    else
      98 + r.accountId.length ≤ (119 + r.accountId.length + (11 + r.clients.length)) % 2 ^ 16
  else
    56 + r.accountId.length ≤
      (76 + r.accountId.length + (d.myMessage.length + 1) +
        ((d.fromUtf8 (returnToDos a.reason)).length +
          (if r.nCommand = subFile then 18 else 14))) % 2 ^ 16

instance : Decidable (Room d r a) := by unfold Room; infer_instance

theorem chatReply_carries_iff (h : r.nCommand = subChat) :
    (icqChatRequestReply d r.accountId a r.clients r.nSequence r.nMsgID).Carries r ↔
      a.direct = false ∧ Room d r a := by
  have hchat : r.nCommand ≠ subFile := by
    rw [h]
    decide
  rw [icqChatRequestReply, Room]
  cases hdirect : a.direct with
  | true => exact iff_of_false id fun h => Bool.noConfusion h.1
  | false =>
    rw [if_neg Bool.false_ne_true, and_iff_right rfl]
    cases haccept : a.accept with
    | true =>
      rw [if_pos rfl, if_pos rfl, if_neg hchat, chatAccept_carries_iff, and_iff_right rfl]
    | false =>
      rw [if_neg Bool.false_ne_true, if_neg Bool.false_ne_true, if_neg hchat,
        chatRefuse_carries_iff, and_iff_right rfl]

/-- The id of the event is not the sequence of the request, but zero. -/
theorem fileReply_carries_iff (h : r.nCommand = subFile) :
    (icqFileTransferReply d r.accountId (a.signal (r.event d))).Carries r ↔
      a.direct = false ∧ r.nSequence = 0 ∧ Room d r a := by
  rw [icqFileTransferReply, Room, Decision.signal]
  cases haccept : a.accept with
  | true =>
    rw [if_pos rfl, if_pos rfl, if_pos h]
    simp only [fileTransferAccept, Relayed.event, if_pos h, Bool.not_not]
    cases hdirect : a.direct with
    | true => exact iff_of_false id fun h => Bool.noConfusion h.1
    | false =>
      rw [if_neg Bool.false_ne_true, if_true, fileAccept_carries_iff, and_iff_right rfl]
      exact and_congr_left fun _ => eq_comm
  | false =>
    rw [if_neg Bool.false_ne_true, if_neg Bool.false_ne_true, if_pos h]
    simp only [fileTransferRefuse, Relayed.event, Bool.not_not]
    cases hdirect : a.direct with
    | true => exact iff_of_false id fun h => Bool.noConfusion h.1
    | false =>
      rw [if_neg Bool.false_ne_true, if_neg Bool.false_ne_true, fileRefuse_carries_iff,
        and_iff_right rfl]
      exact and_congr_left fun _ => eq_comm

/-- **The replies that have the cookie and the sequence of their request**: those that are sent at
once; and those to a chat or a file that are sent through the server, have room, and for a file
answer a request with the sequence zero. -/
theorem carries_iff :
    (∀ x ∈ reply d r a, x.Carries r) ↔
      (r.bIsAck = false → r.nCommand = subChat → a.direct = false ∧ Room d r a) ∧
        (r.bIsAck = false → r.nCommand = subFile →
          a.direct = false ∧ r.nSequence = 0 ∧ Room d r a) := by
  have hdistinct : subChat ∉ [subMsg, subUrl, subContactList] ∧ subChat ∉ readMsgs ∧
      subFile ∉ [subMsg, subUrl, subContactList] ∧ subFile ∉ readMsgs ∧ subFile ≠ subChat := by
    decide
  obtain ⟨hchat, hchat', hfile, hfile', hne⟩ := hdistinct
  have hack (hmem : subChat ≠ r.nCommand ∧ subFile ≠ r.nCommand) :
      (∀ x ∈ some (Reply.ackThroughServer (cpuAckGeneral d r.accountId r.nMsgID r.nSequence
        r.nCommand true r.nMask)), x.Carries r) ↔
      (r.bIsAck = false → r.nCommand = subChat → a.direct = false ∧ Room d r a) ∧
        (r.bIsAck = false → r.nCommand = subFile →
          a.direct = false ∧ r.nSequence = 0 ∧ Room d r a) := by
    refine iff_of_true ?_ ⟨fun _ h => absurd h.symm hmem.1, fun _ h => absurd h.symm hmem.2⟩
    rintro x ⟨⟩
    exact ackGeneral_carries d r
  rw [reply]
  split_ifs with hauto hisAck hread hcommand hcommand'
  · exact hack ⟨fun h => hchat (h ▸ hauto), fun h => hfile (h ▸ hauto)⟩
  · exact iff_of_true (fun x hx => by cases hx)
      ⟨fun h => absurd (h.symm.trans hisAck) Bool.false_ne_true,
        fun h => absurd (h.symm.trans hisAck) Bool.false_ne_true⟩
  · exact hack ⟨fun h => hchat' (h ▸ hread), fun h => hfile' (h ▸ hread)⟩
  · simp only [Option.mem_some_iff, forall_eq']
    refine (chatReply_carries_iff d r a hcommand).trans ⟨fun h => ⟨fun _ _ => h, fun _ heq => ?_⟩,
      fun h => h.1 (Bool.eq_false_iff.mpr hisAck) hcommand⟩
    exact absurd (heq.symm.trans hcommand) hne
  · simp only [Option.mem_some_iff, forall_eq']
    exact (fileReply_carries_iff d r a hcommand').trans
      ⟨fun h => ⟨fun _ heq => absurd heq hcommand, fun _ _ => h⟩,
        fun h => h.2 (Bool.eq_false_iff.mpr hisAck) hcommand'⟩
  · exact iff_of_true (fun x hx => by cases hx)
      ⟨fun _ h => absurd h hcommand, fun _ h => absurd h hcommand'⟩

end Replies

/-- A request for a file with the sequence five. -/
def fileRequest : Relayed where
  nMsgID := (1, 2)
  accountId := asciiBytes "123456".toList
  length_accountId := by decide
  nSequence := 5
  nMsgType := subFile
  nMask := 0
  bIsAck := false
  message := []
  plugin := []
  clients := []
  filename := asciiBytes "a.txt".toList
  nFileSize := 7

/-- It is refused through the server with the sequence zero. -/
theorem not_carries_fileRefuse :
    ¬ ∀ x ∈ reply ⟨0, 8, 0, 0, 0, [], id⟩ fileRequest ⟨false, [], 0, false⟩,
      x.Carries fileRequest := by
  intro h
  have hreply := h _ rfl
  have hzero := (fileReply_carries_iff _ _ _ rfl).mp hreply
  exact absurd hzero.2.1 (by decide)

end Licq.Acks
