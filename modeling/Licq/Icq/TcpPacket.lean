import Licq.Buffer.Basic
import Licq.ContactList.UserId
import Licq.Icq.ClientCrypt
import Licq.Text.Bytes

/-!
# Icq/TcpPacket — the header of a direct connection packet

`IcqProtocol::ProcessTcpPacket` of `icq-tcp.cpp` up to where it looks for the user.  The header is
parsed by the version of the connection; versions 4 to 8 decrypt the packet first.  Where that is
refused the function returns, but in versions 7 and 8 it only leaves the `switch`: the checks that
follow read a command that was never set.

The **main result** `returnsFalse_iff` says when a packet that `Decrypt_Client` rejects is
dropped.
-/

namespace Licq

open Text

/-- `isValid` -/
def UserId.isValid (userId : UserId) : Bool := userId.protocolId ≠ 0

/-- The id that the default constructor builds. -/
def UserId.invalid : UserId := .owner 0 []

namespace TcpPacket

/-- What `ProcessTcpPacket` reads of the socket. -/
structure Peer where
  userId : UserId
  version : ℕ
  /-- The packet came on `ChannelNormal`. -/
  normalChannel : Bool
  /-- The receive buffer: one whole packet. -/
  recvBuffer : List UInt8

/-- `nInVersion`, an `unsigned short`. -/
def Peer.inVersion (sock : Peer) : ℕ := sock.version % 2 ^ 16

/-- The local variables that the header is read into; none in one that has not been set. -/
structure Header where
  userId : UserId := .invalid
  command : Option UInt16 := none
  newCommand : Option UInt16 := none
  messageLen : Option UInt16 := none
  theSequence : Option UInt16 := none
  ackFlags : Option UInt16 := none
  msgFlags : Option UInt16 := none
  /-- What is left of the packet. -/
  packet : Buffer

/-- `ICQ_TCPxMSG_LIST`, `ICQ_TCPxMSG_LIST2`, `ICQ_TCPxMSG_URGENT` and `ICQ_TCPxMSG_URGENT2` -/
def msgList : UInt16 := 0x0020
def msgList2 : UInt16 := 0x0004
def msgUrgent : UInt16 := 0x0040
def msgUrgent2 : UInt16 := 0x0002

/-! ## The versions -/

/-- The id of the sender, from the number in the packet. -/
def senderId (myOwnerId : UserId) (nUin : UInt32) : UserId := .user myOwnerId (decimal nUin.toNat)

/-- What versions 1 to 5 read behind the version. -/
def oldCommands (myOwnerId : UserId) (packet : Buffer) : Header :=
  let (command, packet) := packet.unpackUInt16LE
  -- 00 00 to fill in the MSB of the command
  let (_, packet) := packet.unpackUInt16LE
  let (nUin, packet) := packet.unpackUInt32LE
  let (newCommand, packet) := packet.unpackUInt16LE
  let (messageLen, packet) := packet.unpackUInt16LE
  { userId := senderId myOwnerId nUin, command, newCommand, messageLen, packet }

/-- Versions 1, 2 and 3. -/
def header1 (myOwnerId : UserId) (packet : Buffer) : Header :=
  let (_, packet) := packet.unpackUInt16LE
  let (_, packet) := packet.unpackUInt32LE
  let (_, packet) := packet.unpackUInt16LE
  oldCommands myOwnerId packet

/-- Versions 4 and 5, which have a checksum. -/
def header4 (myOwnerId : UserId) (packet : Buffer) : Header :=
  let (_, packet) := packet.unpackUInt16LE
  let (_, packet) := packet.unpackUInt32LE
  let (_, packet) := packet.unpackUInt16LE
  let (_, packet) := packet.unpackUInt32LE
  oldCommands myOwnerId packet

/-- Version 6. -/
def header6 (userId : UserId) (packet : Buffer) : Header :=
  let (_, packet) := packet.unpackUInt16LE
  let (_, packet) := packet.unpackUInt32LE
  let (command, packet) := packet.unpackUInt16LE
  let (_, packet) := packet.unpackUInt16LE
  let (theSequence, packet) := packet.unpackUInt16LE
  let (_, packet) := packet.unpackUInt32LE
  let (_, packet) := packet.unpackUInt32LE
  let (_, packet) := packet.unpackUInt32LE
  let (newCommand, packet) := packet.unpackUInt16LE
  let (ackFlags, packet) := packet.unpackUInt16LE
  let (msgFlags, packet) := packet.unpackUInt16LE
  let (messageLen, packet) := packet.unpackUInt16LE
  { userId, command, newCommand, messageLen, theSequence, ackFlags, msgFlags, packet }

/-- Stupid AOL. -/
def aolFlags (msgFlags : UInt16) : UInt16 :=
  let msgFlags := if msgFlags &&& msgUrgent2 ≠ 0 then msgFlags ||| msgUrgent else msgFlags
  if msgFlags &&& msgList2 ≠ 0 then msgFlags ||| msgList else msgFlags

/-- Versions 7 and 8; none where the length of the header leads out of the packet. -/
def header7 (sock : Peer) (packet : Buffer) : Option Header := do
  let (_, packet) := packet.unpackUInt16LE
  let (_, packet) := packet.unpackUInt8
  let (_, packet) := packet.unpackUInt32LE
  let (command, packet) := packet.unpackUInt16LE
  let (headerLen, packet) := packet.unpackUInt16LE
  let (theSequence, packet) := packet.unpackUInt16LE
  let packet ← packet.incDataPosRead (headerLen.toNat - 2)
  let (newCommand, packet) := packet.unpackUInt16LE
  if sock.normalChannel then
    let (ackFlags, packet) := packet.unpackUInt16LE
    let (msgFlags, packet) := packet.unpackUInt16LE
    let (messageLen, packet) := packet.unpackUInt16LE
    some { userId := sock.userId, command, newCommand, messageLen, theSequence, ackFlags
           msgFlags := aolFlags msgFlags, packet }
  else some { userId := sock.userId, command, newCommand, theSequence, packet }

/-! ## The function -/

/-- How the parsing of the header ends. -/
inductive Parsed
  /-- `return false` -/
  | refused
  /-- The `switch` is left with these locals. -/
  | header (h : Header)

/-- The `switch` over the version; none where the code reads past the end of the packet. -/
def parseHeader (myOwnerId : UserId) (sock : Peer) : Option Parsed :=
  match sock.inVersion with
  | 1 | 2 | 3 => some (.header (header1 myOwnerId (.ofData sock.recvBuffer)))
  | 4 | 5 => do
    let (ok, packet) ← decryptClient sock.recvBuffer 4
    if ok then some (.header (header4 myOwnerId (.ofData packet))) else some .refused
  | 6 => do
    let (ok, packet) ← decryptClient sock.recvBuffer 6
    if ok then some (.header (header6 sock.userId (.ofData packet))) else some .refused
  | 7 | 8 => do
    let (ok, packet) ← decryptClient sock.recvBuffer sock.inVersion
    -- a packet that is rejected goes on as one whose locals are not set
    if ok then (header7 sock (.ofData packet)).map .header
    else some (.header { userId := sock.userId, packet := .ofData packet })
  | _ => some (.header { packet := .ofData sock.recvBuffer })

/-- `ProcessTcpPacket` over the rest of it, which handles a packet that passed: what it returns and
the state it leaves; none where its way depends on a local that was not set. -/
def processTcpPacket {σ : Type} (myOwnerId : UserId) (rest : Peer → Header → σ → Bool × σ)
    (sock : Peer) (s : σ) : Option (Bool × σ) := do
  match ← parseHeader myOwnerId sock with
  | .refused => some (false, s)
  | .header h =>
    -- Some simple validation of the packet
    if !h.userId.isValid then some (false, s) else
      let command ← h.command
      if command = 0 then some (false, s)
      else if h.userId.accountId = h.userId.ownerAccountId then some (false, s)
      else if h.userId ≠ sock.userId then some (false, s)
      else some (rest sock h s)

/-! ## Rejected packets -/

section Rejected

variable {σ : Type} {myOwnerId : UserId} {rest : Peer → Header → σ → Bool × σ} {sock : Peer}
  {dec : List UInt8}

/-- Versions 4 and 5 are encrypted alike. -/
theorem decryptClient_five (pkt : List UInt8) : decryptClient pkt 5 = decryptClient pkt 4 := rfl

/-- Nothing is rejected below version 4. -/
theorem four_le_of_rejected (h : decryptClient sock.recvBuffer sock.inVersion = some (false, dec)) :
    4 ≤ sock.inVersion := by
  by_contra hlt
  rw [decryptClient, if_pos (by omega)] at h
  cases h

/-- **How the parsing of a rejected packet ends.** -/
theorem parseHeader_of_rejected
    (h : decryptClient sock.recvBuffer sock.inVersion = some (false, dec)) :
    parseHeader myOwnerId sock = some (
      if sock.inVersion ≤ 6 then .refused
      else if sock.inVersion ≤ 8 then .header { userId := sock.userId, packet := .ofData dec }
      else .header { packet := .ofData sock.recvBuffer }) := by
  have hge := four_le_of_rejected h
  rw [parseHeader]
  rcases (by omega : sock.inVersion = 4 ∨ sock.inVersion = 5 ∨ sock.inVersion = 6 ∨
    sock.inVersion = 7 ∨ sock.inVersion = 8 ∨ 8 < sock.inVersion) with hv | hv | hv | hv | hv | hv
  · rw [hv] at h ⊢
    simp [h]
  · rw [hv, decryptClient_five] at h
    simp [hv, h]
  · rw [hv] at h ⊢
    simp [h]
  · rw [hv] at h ⊢
    simp [h]
  · rw [hv] at h ⊢
    simp [h]
  · rw [if_neg (by omega), if_neg (by omega)]
    split <;> first | omega | rfl

/-- The packet is dropped: the function returns false and leaves the state as it was. -/
def Dropped (myOwnerId : UserId) (rest : Peer → Header → σ → Bool × σ) (sock : Peer) (s : σ) : Prop :=
  processTcpPacket myOwnerId rest sock s = some (false, s)

theorem isValid_invalid : UserId.invalid.isValid = false := rfl

/-- **A rejected packet is dropped** unless it came on a connection of version 7 or 8 whose user is
known. -/
theorem returnsFalse_iff (myOwnerId : UserId) (rest : Peer → Header → σ → Bool × σ) (sock : Peer)
    (s : σ) {dec : List UInt8}
    (h : decryptClient sock.recvBuffer sock.inVersion = some (false, dec)) :
    Dropped myOwnerId rest sock s ↔
      ¬(sock.inVersion = 7 ∨ sock.inVersion = 8) ∨ sock.userId.isValid = false := by
  have hge := four_le_of_rejected h
  rw [Dropped, processTcpPacket, parseHeader_of_rejected h]
  split_ifs with hold hnew
  · exact iff_of_true rfl (.inl (by omega))
  · have hversion : sock.inVersion = 7 ∨ sock.inVersion = 8 := by omega
    cases hvalid : sock.userId.isValid with
    | false =>
      refine iff_of_true ?_ (.inr rfl)
      simp [hvalid]
    | true =>
      refine iff_of_false ?_ (by simp [hversion])
      simp [hvalid]
  · refine iff_of_true ?_ (.inl (by omega))
    simp [isValid_invalid]

/-- A packet of zero bytes, which is no encrypted one. -/
def zeroPacket (version : ℕ) : Peer where
  userId := .user (.owner icqPpid ['1', '2', '3']) ['4', '5', '6']
  version := version
  normalChannel := true
  recvBuffer := List.replicate 20 0

theorem returnsFalse_iff_zeroPacket :
    Dropped (.owner icqPpid ['1', '2', '3']) (fun _ _ s => (true, s + 1)) (zeroPacket 6) 0 ↔
      ¬((zeroPacket 6).inVersion = 7 ∨ (zeroPacket 6).inVersion = 8) ∨
        (zeroPacket 6).userId.isValid = false :=
  @returnsFalse_iff ℕ _ _ (zeroPacket 6) 0
    [0, 0, 0, 0, 0, 0, 177, 11, 34, 69, 0, 0, 0, 0, 0, 0, 0, 0, 0, 0] (by decide +kernel)

/-- The command of a rejected packet of version 7 is looked at although it was never read. -/
theorem not_drops_zeroPacket :
    ¬ ∀ (rest : Peer → Header → ℕ → Bool × ℕ) (sock : Peer) (s : ℕ) (dec : List UInt8),
      decryptClient sock.recvBuffer sock.inVersion = some (false, dec) →
        Dropped (.owner icqPpid ['1', '2', '3']) rest sock s := by
  intro h
  have hrejected : decryptClient (zeroPacket 7).recvBuffer (zeroPacket 7).inVersion
      = some (false, [0, 0, 0, 0, 0, 0, 0, 73, 153, 188, 221, 0, 0, 0, 0, 0, 0, 0, 0, 0]) := by
    decide +kernel
  have hdropped := h (fun _ _ s => (true, s + 1)) (zeroPacket 7) 0 _ hrejected
  rw [Dropped, processTcpPacket, parseHeader_of_rejected hrejected] at hdropped
  exact absurd hdropped (by decide +kernel)

end Rejected

end TcpPacket

end Licq
