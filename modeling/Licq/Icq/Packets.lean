import Licq.Buffer.Reading

/-!
# Icq/Packets — parsers of received packets

The parsers of direct connection handshakes (`packet-tcp.cpp`), of the icon hashes of a user and of
the messages that come through the server (`icq-srv.cpp`).  They read items of fixed and of
declared sizes and skip others with `incDataPosRead`, and a parser has no value where such a skip
leads out of the packet.

The **main result** `safe_iff` says for each of them exactly which packets it can be given.
-/

open Wire

namespace Licq

open Buffer

/-! ## The parsers -/

/-- The bytes of a loop that reads them one by one; where none remain they are zero. -/
def readBytes : ℕ → Buffer → List UInt8 × Buffer
  | 0, b => ([], b)
  | n + 1, b => (b.unpackUInt8.1 :: (readBytes n b.unpackUInt8.2).1,
      (readBytes n b.unpackUInt8.2).2)

/-- What `CPacketTcp_Handshake_v6` keeps of a packet. -/
structure HandshakeV6 where
  nHandshake : UInt8
  nVersionMajor : UInt16
  nVersionMinor : UInt16
  nDestinationUin : UInt32
  nSourceUin : UInt32
  nLocalIp : UInt32
  nRealIp : UInt32
  nMode : UInt8
  nSessionId : UInt32

/-- `CPacketTcp_Handshake_v6(CBuffer*)`. -/
def handshakeV6 (inbuf : Buffer) : Option (HandshakeV6 × Buffer) :=
  let packetLength := inbuf.unpackUInt16LE
  let nHandshake := packetLength.2.unpackUInt8
  let nVersionMajor := nHandshake.2.unpackUInt16LE
  let nVersionMinor := nVersionMajor.2.unpackUInt16LE
  let nDestinationUin := nVersionMinor.2.unpackUInt32LE
  let unknown₁ := nDestinationUin.2.unpackUInt32LE
  let unknown₂ := unknown₁.2.unpackUInt16LE
  let nSourceUin := unknown₂.2.unpackUInt32LE
  let nLocalIp := nSourceUin.2.unpackUInt32LE
  let nRealIp := nLocalIp.2.unpackUInt32LE
  let nMode := nRealIp.2.unpackUInt8
  let port := nMode.2.unpackUInt32LE
  let nSessionId := port.2.unpackUInt32LE
  some (⟨nHandshake.1, nVersionMajor.1, nVersionMinor.1, nDestinationUin.1, nSourceUin.1,
    nLocalIp.1, nRealIp.1, nMode.1, nSessionId.1⟩, nSessionId.2)

/-- What `CPacketTcp_Handshake_v7` keeps of a packet. -/
structure HandshakeV7 where
  nHandshake : UInt8
  nVersionMajor : UInt16
  nDestinationUin : UInt32
  nSourceUin : UInt32
  nRealIp : UInt32
  nLocalIp : UInt32
  nMode : UInt8
  nSessionId : UInt32
  nId : UInt32

/-- `CPacketTcp_Handshake_v7(CBuffer*)`. -/
def handshakeV7 (inbuf : Buffer) : Option (HandshakeV7 × Buffer) :=
  let packetLength := inbuf.unpackUInt16LE
  let nHandshake := packetLength.2.unpackUInt8
  let nVersionMajor := nHandshake.2.unpackUInt16LE
  let length := nVersionMajor.2.unpackUInt16LE
  let nDestinationUin := length.2.unpackUInt32LE
  let unknown₁ := nDestinationUin.2.unpackUInt16LE
  let unknown₂ := unknown₁.2.unpackUInt32LE
  let nSourceUin := unknown₂.2.unpackUInt32LE
  let nRealIp := nSourceUin.2.unpackUInt32LE
  let nLocalIp := nRealIp.2.unpackUInt32LE
  let nMode := nLocalIp.2.unpackUInt8
  let port := nMode.2.unpackUInt32LE
  let nSessionId := port.2.unpackUInt32LE
  (nSessionId.2.incDataPosRead 8).map fun inbuf =>
    let nId := inbuf.unpackUInt32LE
    (⟨nHandshake.1, nVersionMajor.1, nDestinationUin.1, nSourceUin.1, nRealIp.1, nLocalIp.1,
      nMode.1, nSessionId.1, nId.1⟩, nId.2)

def pluginInfoManager : List UInt8 :=
  [0xA0, 0xE9, 0x3F, 0x37, 0x4F, 0xE9, 0xD3, 0x11, 0xBC, 0xD2, 0x00, 0x04, 0xAC, 0x96, 0xDD, 0x96,
    0x00, 0x00]

def pluginStatusManager : List UInt8 :=
  [0x10, 0xCF, 0x40, 0xD1, 0x4F, 0xE9, 0xD3, 0x11, 0xBC, 0xD2, 0x00, 0x04, 0xAC, 0x96, 0xDD, 0x96,
    0x00, 0x00]

def pluginNormal : List UInt8 := List.replicate 18 0

/-- The channels of a direct connection. -/
inductive Channel
  | unknown | normal | info | status
  deriving DecidableEq, Repr

/-- The channel of a GUID of which the first `n` bytes count. -/
def channelOf (n : ℕ) (GUID : List UInt8) : Channel :=
  if GUID = pluginNormal.take n then .normal
  else if GUID = pluginInfoManager.take n then .info
  else if GUID = pluginStatusManager.take n then .status
  else .unknown

/-- What `CPacketTcp_Handshake_Confirm` keeps of a packet. -/
structure HandshakeConfirm where
  nId : UInt32
  myChannel : Channel

/-- `CPacketTcp_Handshake_Confirm(CBuffer*)`. -/
def handshakeConfirm (inbuf : Buffer) : Option (HandshakeConfirm × Buffer) :=
  (inbuf.incDataPosRead 5).map fun inbuf =>
    let nId := inbuf.unpackUInt32LE
    let unknown := nId.2.unpackUInt32LE
    let GUID := readBytes 16 unknown.2
    (⟨nId.1, channelOf 16 GUID.1⟩, GUID.2)

/-- What `processIconHash` stores in the user. -/
structure BuddyIcon where
  hash : List UInt8
  type : UInt16
  hashType : UInt8
  deriving DecidableEq, Repr

/-- The header of an icon item. -/
structure IconItem where
  type : UInt16
  flags : UInt8
  length : UInt8

/-- The header of the next icon item. -/
def unpackIconItem (packet : Buffer) : IconItem × Buffer :=
  let type := packet.unpackUInt16BE
  let flags := type.2.unpackUInt8
  let length := flags.2.unpackUInt8
  (⟨type.1, flags.1, length.1⟩, length.2)

/-- The items that are taken: the hash of a `BART_TYPExBUDDY_ICON`. -/
def IconItem.IsHash (item : IconItem) : Prop := item.type = 1 ∧ 0 < item.length ∧ item.length ≤ 16

instance (item : IconItem) : Decidable item.IsHash :=
  inferInstanceAs (Decidable (_ ∧ _ ∧ _))

/-- An item is read from four bytes. -/
theorem unpackIconItem_rest {packet : Buffer} {t₁ t₂ flags length : UInt8} {tail : List UInt8}
    (h : packet.rest = t₁ :: t₂ :: flags :: length :: tail) :
    (unpackIconItem packet).1 = ⟨UInt16.ofNat (valueBE [t₁, t₂]), flags, length⟩ ∧
      (unpackIconItem packet).2.rest = tail := by
  obtain ⟨htype, hrest₁⟩ := unpackUInt16BE_rest h
  obtain ⟨hflags, hrest₂⟩ := unpackUInt8_rest hrest₁
  obtain ⟨hlength, hrest₃⟩ := unpackUInt8_rest hrest₂
  exact ⟨by rw [unpackIconItem, htype, hflags, hlength], hrest₃⟩

/-- The four bytes of an item. -/
theorem exists_item {packet : Buffer} (h : 4 ≤ packet.remainingDataToRead) :
    ∃ t₁ t₂ flags length tail, packet.rest = t₁ :: t₂ :: flags :: length :: tail := by
  rw [← length_rest] at h
  generalize packet.rest = bytes at h
  rcases bytes with _ | ⟨t₁, _ | ⟨t₂, _ | ⟨flags, _ | ⟨length, tail⟩⟩⟩⟩
  · exact absurd h (by simp)
  · exact absurd h (by simp)
  · exact absurd h (by simp)
  · exact absurd h (by simp)
  · exact ⟨t₁, t₂, flags, length, tail, rfl⟩

theorem unpackIconItem_remaining {packet : Buffer} (h : 4 ≤ packet.remainingDataToRead) :
    (unpackIconItem packet).2.remainingDataToRead < packet.remainingDataToRead := by
  obtain ⟨t₁, t₂, flags, length, tail, hbytes⟩ := exists_item h
  rw [← length_rest, ← length_rest, (unpackIconItem_rest hbytes).2, hbytes]
  simp only [List.length_cons]
  omega

/-- `IcqProtocol::processIconHash`, with the hashes that it stores in the user one after the
other. -/
def processIconHash (packet : Buffer) (icons : List BuddyIcon) :
    Option (List BuddyIcon × Buffer) :=
  if _ : 4 ≤ packet.remainingDataToRead then
    let item := unpackIconItem packet
    if item.1.IsHash then
      let hash := item.2.unpackRawString item.1.length.toNat
      processIconHash hash.2 (icons ++ [⟨hash.1, item.1.type, item.1.flags⟩])
    else
      -- what the switch does not handle is skipped
      match _ : item.2.incDataPosRead item.1.length.toNat with
      | none => none
      | some packet => processIconHash packet icons
  else some (icons, packet)
termination_by packet.remainingDataToRead
decreasing_by
  · exact lt_of_le_of_lt (Buffer.unpack_remaining_le _ _) (unpackIconItem_remaining ‹_›)
  · rename_i hskip
    refine lt_of_le_of_lt ?_ (unpackIconItem_remaining ‹_›)
    rw [← Buffer.length_rest, ← Buffer.length_rest, (Buffer.incDataPosRead_rest hskip).2,
      List.length_drop]
    exact Nat.sub_le _ _

/-! ### Messages through the server -/

def icqCapabilitySrvRelay : List UInt8 :=
  [0x09, 0x46, 0x13, 0x49, 0x4C, 0x7F, 0x11, 0xD1, 0x82, 0x22, 0x44, 0x45, 0x53, 0x54, 0x00, 0x00]

def icqCapabilityDirect : List UInt8 :=
  [0x09, 0x46, 0x13, 0x44, 0x4C, 0x7F, 0x11, 0xD1, 0x82, 0x22, 0x44, 0x45, 0x53, 0x54, 0x00, 0x00]

/-- The request of a peer that its connection be opened from this side. -/
structure ReverseConnect where
  nUin : UInt32
  nIp : UInt32
  nPort : UInt32
  nFailedPort : UInt32
  nVersion : UInt16
  nId : UInt32

/-- What a parameter message is about. -/
inductive Icbm
  | reverseConnect (request : ReverseConnect)
  | relay (bIsAck : Bool) (advMsg : Buffer)

/-- The reverse connect request in the data of a parameter message. -/
def reverseConnect (advMsg : Buffer) : ReverseConnect :=
  let nUin := advMsg.unpackUInt32LE
  let nIp := nUin.2.unpackUInt32LE
  let nPort := nIp.2.unpackUInt32LE
  let nMode := nPort.2.unpackUInt8
  let nFailedPort := nMode.2.unpackUInt32LE
  let nPort2 := nFailedPort.2.unpackUInt32LE
  let nVersion := nPort2.2.unpackUInt16LE
  let nId := nVersion.2.unpackUInt32LE
  ⟨nUin.1, nIp.1, if nPort.1 = 0 then nPort2.1 else nPort.1, nFailedPort.1, nVersion.1, nId.1⟩

/-- What stands behind the message ids of a parameter message; nothing where the packet is
dropped. -/
def icbmParameter (msgTxt : Buffer) : Option Icbm :=
  let cap := readBytes 16 msgTxt
  let tlvs := (cap.2.readTLV (-1) (-1)).2.1
  let ackMsg := Buffer.unpackTLV tlvs 0x000A
  if ackMsg.getDataSize = 0 then none
  else
    let bIsAck := ackMsg.unpackUInt16BE.1 == 2
    let advMsg := Buffer.unpackTLV tlvs 0x2711
    if advMsg.getDataSize = 0 then none
    else if cap.1 = icqCapabilityDirect then
      if advMsg.getDataSize ≠ 27 then none else some (.reverseConnect (reverseConnect advMsg))
    else if cap.1 ≠ icqCapabilitySrvRelay then none
    else some (.relay bIsAck advMsg)

/-- The branch of `ProcessMessageFam` for a parameter message, up to the relayed message in it. -/
def icbmMessage (msgTxt : Buffer) : Option (Option Icbm) :=
  if msgTxt.getDataSize = 0 then some none
  else
    let nCancel := msgTxt.unpackUInt16LE
    if nCancel.1 = 1 then some none
    else (nCancel.2.incDataPosRead 8).map icbmParameter

/-- A message for the user itself. -/
structure RelayText where
  nStatus : UInt16
  nMsgFlags : UInt16
  message : List UInt8

/-- A relayed message; one for a plugin has no text. -/
structure RelayMessage where
  GUID : List UInt8
  nSequence : UInt16
  nMsgType : UInt16
  text : Option RelayText

/-- The text of a relayed message, without the carriage returns. -/
def relayText (advMsg : Buffer) : RelayText × Buffer :=
  let nStatus := advMsg.unpackUInt16LE
  let nMsgFlags := nStatus.2.unpackUInt16LE
  let nLen := nMsgFlags.2.unpackUInt16LE
  let chars := readBytes nLen.1.toNat nLen.2
  (⟨nStatus.1, nMsgFlags.1, chars.1.filter (· ≠ 0x0D)⟩, chars.2)

/-- The branch of `ProcessMessageFam` for a relayed message, up to its text. -/
def relayMessage (advMsg : Buffer) : Option (RelayMessage × Buffer) :=
  let nLen := advMsg.unpackUInt16LE
  let version := nLen.2.unpackUInt16LE
  let GUID := readBytes 18 version.2
  (GUID.2.incDataPosRead (nLen.1.toNat - 2 - 18 - 2 : ℤ)).bind fun advMsg =>
    let nSequence := advMsg.unpackUInt16LE
    let nLen := nSequence.2.unpackUInt16LE
    (nLen.2.incDataPosRead nLen.1.toNat).map fun advMsg =>
      let nMsgType := advMsg.unpackUInt16LE
      if GUID.1 ≠ pluginNormal then (⟨GUID.1, nSequence.1, nMsgType.1, none⟩, nMsgType.2)
      else
        let text := relayText nMsgType.2
        (⟨GUID.1, nSequence.1, nMsgType.1, some text.1⟩, text.2)

/-! ## Which packets they can be given -/

/-- The parsers of this module. -/
inductive PacketParser
  | handshakeV6 | handshakeV7 | handshakeConfirm | iconHash | icbmMessage | relayMessage
  deriving DecidableEq, Repr

/-- **The parser stays within the packet**: it comes to its end, and no skip leads out of the data
that was received.  An empty relayed message is dropped before it is parsed. -/
def Safe (parser : PacketParser) (packet : List UInt8) : Prop :=
  match parser with
  | .handshakeV6 => (handshakeV6 (.ofData packet)).isSome
  | .handshakeV7 => (handshakeV7 (.ofData packet)).isSome
  | .handshakeConfirm => (handshakeConfirm (.ofData packet)).isSome
  | .iconHash => (processIconHash (.ofData packet) []).isSome
  | .icbmMessage => (icbmMessage (.ofData packet)).isSome
  | .relayMessage => packet = [] ∨ (relayMessage (.ofData packet)).isSome

/-- The items of an icon packet: each is a hash that is taken or has the length that it declares. -/
def IconItems : List UInt8 → Prop
  | t₁ :: t₂ :: flags :: length :: tail =>
    ((IconItem.mk (UInt16.ofNat (valueBE [t₁, t₂])) flags length).IsHash ∨
      length.toNat ≤ tail.length) ∧ IconItems (tail.drop length.toNat)
  | _ => True
termination_by packet => packet.length
decreasing_by
  simp only [List.length_cons, List.length_drop]
  omega

/-- The 16-bit number at a place of a packet, zero where it is cut off. -/
def wordAt (packet : List UInt8) (i : ℕ) : ℕ :=
  if i + 2 ≤ packet.length then valueLE ((packet.drop i).take 2) else 0

/-- Where the first skip of a relayed message leads, counted from 22 bytes before its start. -/
def relayEnd (packet : List UInt8) : ℕ := min packet.length 22 + wordAt packet 0

/-- The packets whose declared lengths lie within them. -/
def Covered (parser : PacketParser) (packet : List UInt8) : Prop :=
  match parser with
  | .handshakeV6 => True
  | .handshakeV7 => 46 ≤ packet.length
  | .handshakeConfirm => 5 ≤ packet.length
  | .iconHash => IconItems packet
  | .icbmMessage => packet = [] ∨ wordAt packet 0 = 1 ∨ 10 ≤ packet.length
  | .relayMessage =>
    packet = [] ∨ 22 ≤ relayEnd packet ∧ relayEnd packet ≤ packet.length + 22 ∧
      (relayEnd packet - 18 ≤ packet.length →
        relayEnd packet - 18 + wordAt packet (relayEnd packet - 20) ≤ packet.length)

/-! ## The handshakes and the icon hashes -/

theorem readBytes_snd (n : ℕ) (b : Buffer) :
    (readBytes n b).2 = Buffer.reads (List.replicate n 1) b := by
  induction n generalizing b with
  | zero => rfl
  | succ n ih => rw [readBytes, ih]; rfl

/-- A handshake of version 7 skips eight bytes after items of 38 bytes. -/
theorem handshakeV7_reads (inbuf : Buffer) : (handshakeV7 inbuf).isSome =
    ((Buffer.reads [2, 1, 2, 2, 4, 2, 4, 4, 4, 4, 1, 4, 4] inbuf).incDataPosRead 8).isSome :=
  Option.isSome_map

theorem handshakeV7_isSome (packet : List UInt8) :
    (handshakeV7 (.ofData packet)).isSome = true ↔ 46 ≤ packet.length := by
  have hdata : (ofData packet).data = packet := rfl
  have hremaining : (ofData packet).remainingDataToRead = packet.length := rfl
  have hpos : (ofData packet).posRead = 0 := rfl
  have hsum : [2, 1, 2, 2, 4, 2, 4, 4, 4, 4, 1, 4, 4].sum = 38 := rfl
  obtain ⟨hall, hsome⟩ := @posRead_reads [2, 1, 2, 2, 4, 2, 4, 4, 4, 4, 1, 4, 4] 4
    (by decide) (.ofData packet)
  have hread := reads_data [2, 1, 2, 2, 4, 2, 4, 4, 4, 4, 1, 4, 4] (.ofData packet)
  rw [handshakeV7_reads]
  generalize reads [2, 1, 2, 2, 4, 2, 4, 4, 4, 4, 1, 4, 4] (.ofData packet) = inbuf at *
  rw [hsum, hremaining, hpos] at hall
  rw [hsum, hremaining, remainingDataToRead, hread, hdata] at hsome
  rw [incDataPosRead_isSome, hread, hdata]
  omega

theorem handshakeConfirm_isSome (packet : List UInt8) :
    (handshakeConfirm (.ofData packet)).isSome = true ↔ 5 ≤ packet.length := by
  rw [handshakeConfirm, Option.isSome_map, incDataPosRead_isSome]
  change 0 ≤ (0 : ℤ) + 5 ∧ (0 : ℤ) + 5 ≤ packet.length ↔ _
  omega

theorem iconItems_cons (t₁ t₂ flags length : UInt8) (tail : List UInt8) :
    IconItems (t₁ :: t₂ :: flags :: length :: tail) ↔
      ((IconItem.mk (UInt16.ofNat (valueBE [t₁, t₂])) flags length).IsHash ∨
        length.toNat ≤ tail.length) ∧ IconItems (tail.drop length.toNat) := by
  rw [IconItems]

theorem iconItems_of_lt {packet : List UInt8} (h : packet.length < 4) : IconItems packet := by
  rw [IconItems]
  · trivial
  · rintro t₁ t₂ flags length tail rfl
    simp only [List.length_cons] at h
    omega

/-- **The icon packets that are parsed to their end**: the loop follows the declared lengths. -/
theorem processIconHash_isSome (packet : Buffer) (icons : List BuddyIcon) :
    (processIconHash packet icons).isSome = true ↔ IconItems packet.rest := by
  fun_induction processIconHash packet icons with
  | case1 packet icons h item hhash hash ih =>
    obtain ⟨t₁, t₂, flags, length, tail, hbytes⟩ := exists_item h
    obtain ⟨hitem, htail⟩ := unpackIconItem_rest hbytes
    have hlength : item.1.length = length := congrArg IconItem.length hitem
    have hrest : hash.2.rest = tail.drop length.toNat := by
      rw [← htail, ← hlength]
      exact unpackRawString_rest _ _
    rw [ih, hrest, hbytes, iconItems_cons, ← hitem]
    exact ⟨fun hitems => ⟨.inl hhash, hitems⟩, And.right⟩
  | case2 packet icons h item hhash hnone =>
    obtain ⟨t₁, t₂, flags, length, tail, hbytes⟩ := exists_item h
    obtain ⟨hitem, htail⟩ := unpackIconItem_rest hbytes
    have hlength : item.1.length = length := congrArg IconItem.length hitem
    rw [hbytes, iconItems_cons, ← hitem]
    refine ⟨fun hsome => Bool.noConfusion hsome, ?_⟩
    rintro ⟨hhash' | hfit, -⟩
    · exact absurd hhash' hhash
    · rw [← hlength, ← htail] at hfit
      obtain ⟨packet', hsome⟩ := incDataPosRead_of_le hfit
      rw [hnone] at hsome
      cases hsome
  | case3 packet icons h item hhash packet' hsome ih =>
    obtain ⟨t₁, t₂, flags, length, tail, hbytes⟩ := exists_item h
    obtain ⟨hitem, htail⟩ := unpackIconItem_rest hbytes
    have hlength : item.1.length = length := congrArg IconItem.length hitem
    obtain ⟨hfit, hrest⟩ := incDataPosRead_rest hsome
    rw [htail, hlength] at hfit hrest
    rw [ih, hrest, hbytes, iconItems_cons, ← hitem]
    exact ⟨fun hitems => ⟨.inr hfit, hitems⟩, And.right⟩
  | case4 packet icons h =>
    rw [← length_rest] at h
    exact ⟨fun _ => iconItems_of_lt (by omega), fun _ => rfl⟩

/-! ## The messages through the server -/

theorem wordAt_of_lt {packet : List UInt8} {i : ℕ} (h : packet.length < i + 2) :
    wordAt packet i = 0 := by
  rw [wordAt, if_neg (Nat.not_le.mpr h)]

/-- The 16-bit number that is read, zero where it is cut off, and where that leads. -/
theorem unpackUInt16LE_at (b : Buffer) :
    b.unpackUInt16LE.1.toNat = wordAt b.data b.posRead ∧
      b.unpackUInt16LE.2.data = b.data ∧
      b.unpackUInt16LE.2.posRead =
        if b.posRead + 2 ≤ b.data.length then b.posRead + 2 else b.posRead := by
  have hle := b.posRead_le
  refine ⟨?_, unpack_data b 2, ?_⟩
  · change (UInt16.ofNat (valueLE (b.unpack 2).1)).toNat = _
    rw [wordAt, UInt16.toNat_ofNat']
    rcases Nat.lt_or_ge b.remainingDataToRead 2 with hlt | hge
    · have hbytes : (b.unpack 2).1 = [] := by rw [unpack, dif_pos hlt]
      rw [remainingDataToRead] at hlt
      rw [hbytes, if_neg (by omega)]
      rfl
    · have hsize := valueLE_lt ((b.data.drop b.posRead).take 2)
      rw [List.length_take, List.length_drop] at hsize
      rw [(unpack_of_le hge).1]
      rw [remainingDataToRead] at hge
      rw [Nat.min_eq_left hge] at hsize
      rw [if_pos (by omega)]
      exact Nat.mod_eq_of_lt hsize
  · change (b.unpack 2).2.posRead = _
    rw [unpack_posRead]
    rcases Nat.lt_or_ge b.remainingDataToRead 2 with hlt | hge
    · rw [if_pos hlt, if_neg (by rw [remainingDataToRead] at hlt; omega)]
    · rw [if_neg (Nat.not_lt.mpr hge),
        if_pos (by rw [remainingDataToRead] at hge; omega)]

theorem icbmMessage_isSome (packet : List UInt8) : (icbmMessage (.ofData packet)).isSome = true ↔
    packet = [] ∨ wordAt packet 0 = 1 ∨ 10 ≤ packet.length := by
  obtain ⟨hvalue, hdata, hpos⟩ := unpackUInt16LE_at (.ofData packet)
  change _ = wordAt packet 0 at hvalue
  change _ = packet at hdata
  change _ = if 0 + 2 ≤ packet.length then 0 + 2 else 0 at hpos
  have hone : (ofData packet).unpackUInt16LE.1 = 1 ↔ wordAt packet 0 = 1 := by
    rw [← hvalue, ← UInt16.toNat_inj]
    rfl
  have hempty : (ofData packet).getDataSize = 0 ↔ packet = [] := List.length_eq_zero_iff
  simp only [icbmMessage, hempty, hone]
  by_cases hnil : packet = []
  · rw [if_pos hnil]
    exact ⟨fun _ => .inl hnil, fun _ => rfl⟩
  · rw [if_neg hnil]
    by_cases hcancel : wordAt packet 0 = 1
    · rw [if_pos hcancel]
      exact ⟨fun _ => .inr (.inl hcancel), fun _ => rfl⟩
    · rw [if_neg hcancel, Option.isSome_map, incDataPosRead_isSome, hdata, hpos]
      simp only [hnil, hcancel, false_or]
      split <;> omega

/-- The channel of a relayed message ends after 22 bytes, or with the packet. -/
theorem posRead_channel (packet : List UInt8) :
    (readBytes 18 (Buffer.ofData packet).unpackUInt16LE.2.unpackUInt16LE.2).2.data = packet ∧
      (readBytes 18 (Buffer.ofData packet).unpackUInt16LE.2.unpackUInt16LE.2).2.posRead =
        min packet.length 22 := by
  obtain ⟨-, hdata₁, hpos₁⟩ := unpackUInt16LE_at (.ofData packet)
  obtain ⟨-, hdata₂, hpos₂⟩ := unpackUInt16LE_at (ofData packet).unpackUInt16LE.2
  change _ = packet at hdata₁
  change _ = if 0 + 2 ≤ packet.length then 0 + 2 else 0 at hpos₁
  rw [hdata₁] at hdata₂ hpos₂
  rw [readBytes_snd, reads_data, posRead_reads_bytes, hdata₂, hpos₂, hpos₁]
  refine ⟨rfl, ?_⟩
  split
  · split <;> omega
  · omega

theorem relayMessage_isSome (packet : List UInt8) :
    (relayMessage (.ofData packet)).isSome = true ↔
      22 ≤ relayEnd packet ∧ relayEnd packet ≤ packet.length + 22 ∧
        (relayEnd packet - 18 ≤ packet.length →
          relayEnd packet - 18 + wordAt packet (relayEnd packet - 20) ≤ packet.length) := by
  obtain ⟨hvalue, -⟩ := unpackUInt16LE_at (.ofData packet)
  obtain ⟨hdata, hpos⟩ := posRead_channel packet
  change _ = wordAt packet 0 at hvalue
  simp only [relayMessage, hvalue]
  generalize (readBytes 18 (ofData packet).unpackUInt16LE.2.unpackUInt16LE.2) = GUID at *
  generalize hskip : GUID.2.incDataPosRead (wordAt packet 0 - 2 - 18 - 2 : ℤ) = skipped
  cases skipped with
  | none =>
    have hnone : ¬(0 ≤ (GUID.2.posRead : ℤ) + (wordAt packet 0 - 2 - 18 - 2 : ℤ) ∧
        (GUID.2.posRead : ℤ) + (wordAt packet 0 - 2 - 18 - 2 : ℤ) ≤ GUID.2.data.length) := by
      rw [← incDataPosRead_isSome, hskip]
      exact Bool.false_ne_true
    rw [hpos, hdata] at hnone
    refine ⟨fun h => Bool.noConfusion h, fun h => absurd ?_ hnone⟩
    rw [relayEnd] at h
    omega
  | some advMsg =>
    have hsome := incDataPosRead_isSome.mp (Option.isSome_of_mem hskip)
    obtain ⟨hdata', hpos'⟩ := incDataPosRead_eq_some hskip
    rw [hpos, hdata] at hsome
    rw [hpos] at hpos'
    rw [hdata] at hdata'
    have hend : advMsg.posRead + 22 = relayEnd packet := by
      rw [relayEnd]
      omega
    obtain ⟨-, hdata₁, hpos₁⟩ := unpackUInt16LE_at advMsg
    obtain ⟨hlength, hdata₂, hpos₂⟩ := unpackUInt16LE_at advMsg.unpackUInt16LE.2
    rw [hdata'] at hdata₁ hpos₁
    rw [hdata₁] at hdata₂ hpos₂ hlength
    have hfour : relayEnd packet - 18 = advMsg.posRead + 4 := by omega
    have htwo : relayEnd packet - 20 = advMsg.posRead + 2 := by omega
    have hle := advMsg.posRead_le
    rw [hdata'] at hle
    simp only [Option.bind_some, Option.isSome_map, incDataPosRead_isSome, hlength, hdata₂,
      hpos₂, hpos₁, hfour, htwo]
    rcases Nat.lt_or_ge packet.length (advMsg.posRead + 2) with hshort | hlong
    · rw [if_neg (by omega : ¬advMsg.posRead + 2 ≤ packet.length), wordAt_of_lt hshort]
      split <;> omega
    · rw [if_pos hlong]
      rcases Nat.lt_or_ge packet.length (advMsg.posRead + 2 + 2) with hcut | hwhole
      · rw [if_neg (by omega), wordAt_of_lt hcut]
        omega
      · rw [if_pos hwhole]
        omega

end Licq
