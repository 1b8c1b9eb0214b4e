import Licq.Msn.Base64
import Licq.Text.Printf

/-!
# Msn/Payload — packets with a payload

The command line of a `MSG` packet says how many bytes follow it.  The constructors count them
before the buffer is made, and format headers in arrays of 128, 512 and 768 characters.

The **main result** `whole_iff` says which packets have the payload that they should, with every
header in full.
-/

namespace Licq.Msn.Payload

open Text Wire List

/-! ## Buffers -/

/-- The command line of a packet, with the letter of its type. -/
def commandLine (m_nSequence : UInt16) (type : Char) (m_nPayloadSize : ℕ) : List Chunk :=
  [.lit "MSG ", .num m_nSequence.toNat, .lit " ", .chr type, .lit " ", .num m_nPayloadSize,
    .lit "\r\n"]

/-- What a constructor leaves. -/
structure PayloadPacket where
  m_nPayloadSize : ℕ
  m_pBuffer : Buffer

/-- `InitBuffer` for a payload of some size, with `buf` of 32 characters, and what is packed
then. -/
def PayloadPacket.make (m_nSequence : UInt16) (type : Char) (m_nPayloadSize : ℕ)
    (chunks : List (List UInt8)) : PayloadPacket where
  m_nPayloadSize := m_nPayloadSize
  m_pBuffer :=
    let line := commandLine m_nSequence type m_nPayloadSize
    let m_nSize := (printed line).length + m_nPayloadSize
    chunks.foldl Buffer.packRaw ((Buffer.ofSize m_nSize).packRaw (snprintf 32 line))

/-! ## The packets -/

/-- `CPS_MSNMessage`, for a C string. -/
def cpsMsnMessage (m_nSequence : UInt16) (szMsg : List UInt8) : PayloadPacket :=
  let szParams := literal "MIME-Version: 1.0\r\n" ++
    literal "Content-Type: text/plain; charset=UTF-8\r\n" ++
    literal "X-MMS-IM-Format: FN=MS%20Sans%20Serif; EF=; CO=0; CS=0; PF=0\r\n" ++ literal "\r\n"
  .make m_nSequence 'A' ((cStr szMsg).length + szParams.length) [szParams, cStr szMsg]

/-- `CPS_MsnClientCaps`, with the versions of the daemon and the plugin. -/
def cpsMsnClientCaps (m_nSequence : UInt16) (daemonVersion pluginVersion : List UInt8) :
    PayloadPacket :=
  let params := literal "MIME-Version: 1.0\r\n" ++
    literal "Content-Type: text/x-clientcaps\r\n\r\n" ++ literal "Client-Name: Licq " ++
    daemonVersion ++ literal " (MSN " ++ pluginVersion ++ literal ")\r\n"
  .make m_nSequence 'U' params.length [params]

/-- `CPS_MSNTypingNotification` -/
def cpsMsnTypingNotification (m_nSequence : UInt16) (email : List UInt8) : PayloadPacket :=
  let szParams1 := literal "MIME-Version: 1.0\r\n" ++
    literal "Content-Type: text/x-msmsgscontrol\r\n" ++ literal "TypingUser: "
  let szParams2 := literal "\r\n\r\n\r\n"
  .make m_nSequence 'N' (szParams1.length + szParams2.length + email.length)
    [szParams1, email, szParams2]

/-- The format of `payload` in an invitation that is cancelled. -/
def cancelFormat (cookie code : List UInt8) : List Chunk :=
  [.lit "MIME-Version: 1.0\r\n", .lit "Content-Type: text/x-msmsgsinvite; charset=UTF-8\r\n",
    .lit "\r\n", .lit "Invitation-Command: CANCEL\r\n", .lit "Cancel-Code: ", .str code,
    .lit "\r\n", .lit "Invitation-Cookie: ", .str cookie, .lit "\r\n", .lit "\r\n"]

/-- `CPS_MSNCancelInvite` -/
def cpsMsnCancelInvite (m_nSequence : UInt16) (cookie code : List UInt8) : PayloadPacket :=
  let payload := snprintf 512 (cancelFormat cookie code)
  .make m_nSequence 'N' payload.length [payload]

/-- `CMSNP2PPacket`, with the numbers of the binary header. -/
structure P2PPacket where
  myToEmail : List UInt8
  m_nSessionId : ℕ := 0
  m_nBaseId : ℕ := 0
  m_nDataOffsetHI : ℕ := 0
  m_nDataOffsetLO : ℕ := 0
  m_nDataSizeHI : ℕ := 0
  m_nDataSizeLO : ℕ := 0
  m_nLen : ℕ := 0
  m_nFlag : ℕ := 0
  m_nAckId : ℕ := 0
  m_nAckUniqueId : ℕ := 0
  m_nAckDataHI : ℕ := 0
  m_nAckDataLO : ℕ := 0

/-- The format of `szMsgBuf`. -/
def p2pFormat (myToEmail : List UInt8) : List Chunk :=
  [.lit "MIME-Version: 1.0\r\n", .lit "Content-Type: application/x-msnmsgrp2p\r\n",
    .lit "P2P-Dest: ", .str myToEmail, .lit "\r\n", .lit "\r\n"]

/-- The binary header, each number with `packUInt32LE`. -/
def P2PPacket.binaryHeader (p : P2PPacket) : List (List UInt8) :=
  [p.m_nSessionId, p.m_nBaseId, p.m_nDataOffsetLO, p.m_nDataOffsetHI, p.m_nDataSizeLO,
    p.m_nDataSizeHI, p.m_nLen, p.m_nFlag, p.m_nAckId, p.m_nAckUniqueId, p.m_nAckDataLO,
    p.m_nAckDataHI].map fun n => bytesLE 4 (UInt32.ofNat n).toNat

/-- `CMSNP2PPacket::InitBuffer`, after which a message is packed, and the footer. -/
def P2PPacket.make (p : P2PPacket) (m_nSequence : UInt16) (strMsg : List UInt8) : PayloadPacket :=
  let szMsgBuf := snprintf (128 - 1) (p2pFormat p.myToEmail)
  .make m_nSequence 'D' (strMsg.length + (4 + 48 + szMsgBuf.length))
    (szMsgBuf :: p.binaryHeader ++ [strMsg, bytesLE 4 0])

/-- `%4X` -/
def hex4 (n : ℕ) : List Char := ((Nat.toDigits 16 n).map Char.toUpper).leftpad 4 ' '

/-- `CreateGUID`, with what `rand` gives. -/
def createGUID (rand : Fin 8 → ℕ) : List UInt8 :=
  let g (i : Fin 8) := hex4 (rand i % 0xFFFF)
  asciiBytes (g 0 ++ g 1 ++ ['-'] ++ g 2 ++ ['-'] ++ g 3 ++ ['-'] ++ g 4 ++ ['-'] ++ g 5 ++ g 6 ++
    g 7)

/-- `DP_EUF_GUID` -/
def dpEufGuid : String := "\x7bA4268EEC-FEC5-49E5-95C3-F126696BDBF6\x7d"

/-- The format of `szBodyBuf`. -/
def inviteBodyFormat (sessionId : ℕ) (strMSNObject64 : List UInt8) : List Chunk :=
  [.lit "EUF-GUID: ", .lit dpEufGuid, .lit "\r\n", .lit "SessionID: ", .num sessionId,
    .lit "\r\n", .lit "AppID: 1\r\n", .lit "Context: ", .str strMSNObject64, .lit "\r\n",
    .lit "\r\n"]

/-- The format of a MSNSLP header. -/
def slpFormat (method : String) (toEmail fromEmail branchGUID callGUID : List UInt8)
    (contentType : String) (contentLength : ℕ) : List Chunk :=
  [.lit method, .lit " MSNMSGR:", .str toEmail, .lit " MSNSLP/1.0\r\n", .lit "To: <msnmsgr:",
    .str toEmail, .lit ">\r\n", .lit "From: <msnmsgr:", .str fromEmail, .lit ">\r\n",
    .lit "Via: MSNSLP/1.0/TLP ;branch=\x7b", .str branchGUID, .lit "\x7d\r\n", .lit "CSeq: 0\r\n",
    .lit "Call-ID: \x7b", .str callGUID, .lit "\x7d\r\n", .lit "Max-Forwards: 0\r\n",
    .lit "Content-Type: ", .lit contentType, .lit "\r\n", .lit "Content-Length: ",
    .num contentLength, .lit "\r\n", .lit "\r\n"]

/-- The accounts, and what `rand` gives, in the constructor of an invitation. -/
structure Invitation where
  toEmail : List UInt8
  fromEmail : List UInt8
  msnObject : List UInt8
  branchGUID : Fin 8 → ℕ
  callGUID : Fin 8 → ℕ
  sessionId : ℕ
  baseId : ℕ
  ackId : ℕ

namespace Invitation

variable (i : Invitation)

def bodyFormat : List Chunk := inviteBodyFormat i.sessionId (msnBase64Encode i.msnObject)

/-- The format of `szHeaderBuf`, for a body of some length. -/
def headerFormat (bodyLength : ℕ) : List Chunk :=
  slpFormat "INVITE" i.toEmail i.fromEmail (createGUID i.branchGUID) (createGUID i.callGUID)
    "application/x-msnmsgr-sessionreqbody" (bodyLength + 1)

/-- The members of the packet, for a message of some length. -/
def p2pPacket (length : ℕ) : P2PPacket :=
  { myToEmail := i.toEmail, m_nBaseId := 4 + i.baseId, m_nAckId := i.ackId
    m_nDataSizeLO := length, m_nLen := length }

end Invitation

/-- `CPS_MSNInvitation` -/
def cpsMsnInvitation (m_nSequence : UInt16) (i : Invitation) : PayloadPacket :=
  let szBodyBuf := snprintf (512 - 1) i.bodyFormat
  let szHeaderBuf := snprintf (512 - 1) (i.headerFormat szBodyBuf.length)
  let strMsg := szHeaderBuf ++ szBodyBuf ++ [0]
  (i.p2pPacket (szBodyBuf.length + szHeaderBuf.length + 1)).make m_nSequence strMsg

/-- The arguments of a `BYE`, and what `rand` gives in its constructor. -/
structure Bye where
  toEmail : List UInt8
  fromEmail : List UInt8
  callId : List UInt8
  nBaseId : ℕ
  nAckId : ℕ
  branchGUID : Fin 8 → ℕ

namespace Bye

variable (b : Bye)

/-- The format of `szMsgBuf`. -/
def format : List Chunk :=
  slpFormat "BYE" b.toEmail b.fromEmail (createGUID b.branchGUID) b.callId
    "application/x-msnmsgr-sessionclosebody" 3 ++ [.lit "\r\n"]

/-- The members of the packet, for a message of some length. -/
def p2pPacket (length : ℕ) : P2PPacket :=
  { myToEmail := b.toEmail, m_nBaseId := b.nBaseId, m_nAckId := b.nAckId
    m_nDataSizeLO := length, m_nLen := length }

end Bye

/-- `CPS_MSNP2PBye` -/
def cpsMsnP2PBye (m_nSequence : UInt16) (b : Bye) : PayloadPacket :=
  let szMsgBuf := snprintf (768 - 1) b.format
  (b.p2pPacket (szMsgBuf.length + 1)).make m_nSequence (szMsgBuf ++ [0])

/-- The arguments of an acknowledgement. -/
structure Ack where
  toEmail : List UInt8
  nSessionId : ℕ
  nBaseId : ℕ
  nAckId : ℕ
  nAckBaseId : ℕ
  nDataSizeHI : ℕ
  nDataSizeLO : ℕ

def Ack.p2pPacket (a : Ack) : P2PPacket :=
  { myToEmail := a.toEmail, m_nSessionId := a.nSessionId, m_nBaseId := a.nBaseId
    m_nDataSizeHI := a.nDataSizeHI, m_nDataSizeLO := a.nDataSizeLO, m_nFlag := 0x02
    m_nAckId := a.nAckId, m_nAckUniqueId := a.nAckBaseId, m_nAckDataHI := a.nDataSizeHI
    m_nAckDataLO := a.nDataSizeLO }

/-- `CPS_MSNP2PAck` -/
def cpsMsnP2PAck (m_nSequence : UInt16) (a : Ack) : PayloadPacket :=
  a.p2pPacket.make m_nSequence []

/-- The packets with a payload. -/
inductive PayloadRequest
  | message (szMsg : List UInt8)
  | clientCaps (daemonVersion pluginVersion : List UInt8)
  | typingNotification (email : List UInt8)
  | cancelInvite (cookie code : List UInt8)
  | invitation (i : Invitation)
  | p2pBye (b : Bye)
  | p2pAck (a : Ack)

namespace PayloadRequest

def packet (m_nSequence : UInt16) : PayloadRequest → PayloadPacket
  | message szMsg => cpsMsnMessage m_nSequence szMsg
  | clientCaps daemonVersion pluginVersion =>
    cpsMsnClientCaps m_nSequence daemonVersion pluginVersion
  | typingNotification email => cpsMsnTypingNotification m_nSequence email
  | cancelInvite cookie code => cpsMsnCancelInvite m_nSequence cookie code
  | invitation i => cpsMsnInvitation m_nSequence i
  | p2pBye b => cpsMsnP2PBye m_nSequence b
  | p2pAck a => cpsMsnP2PAck m_nSequence a

/-! ## What is to be sent -/

def type : PayloadRequest → Char
  | message _ => 'A'
  | clientCaps _ _ => 'U'
  | typingNotification _ => 'N'
  | cancelInvite _ _ => 'N'
  | _ => 'D'

end PayloadRequest

/-- A header. -/
def header (name : String) (value : List UInt8) : List UInt8 :=
  literal name ++ literal ": " ++ value ++ literal "\r\n"

/-- Headers, and a blank line. -/
def headerBlock (headers : List (String × List UInt8)) : List UInt8 :=
  headers.flatMap (fun h => header h.1 h.2) ++ literal "\r\n"

/-- The headers of every payload. -/
def mimeBlock (contentType : String) (headers : List (String × List UInt8)) : List UInt8 :=
  headerBlock (("MIME-Version", literal "1.0") :: ("Content-Type", literal contentType) :: headers)

/-- The payload of a peer-to-peer packet. -/
def P2PPacket.payload (p : P2PPacket) (message : List UInt8) : List UInt8 :=
  mimeBlock "application/x-msnmsgrp2p" [("P2P-Dest", p.myToEmail)] ++ p.binaryHeader.flatten ++
    message ++ bytesLE 4 0

/-- The header of a MSNSLP message. -/
def slpBlock (method : String) (toEmail fromEmail branchGUID callGUID : List UInt8)
    (contentType : String) (contentLength : ℕ) : List UInt8 :=
  literal method ++ literal " MSNMSGR:" ++ toEmail ++ literal " MSNSLP/1.0\r\n" ++
    headerBlock [("To", literal "<msnmsgr:" ++ toEmail ++ literal ">"),
      ("From", literal "<msnmsgr:" ++ fromEmail ++ literal ">"),
      ("Via", literal "MSNSLP/1.0/TLP ;branch=\x7b" ++ branchGUID ++ literal "\x7d"),
      ("CSeq", literal "0"), ("Call-ID", literal "\x7b" ++ callGUID ++ literal "\x7d"),
      ("Max-Forwards", literal "0"), ("Content-Type", literal contentType),
      ("Content-Length", decimalBytes contentLength)]

/-- The body of an invitation, with its end. -/
def Invitation.body (i : Invitation) : List UInt8 :=
  headerBlock [("EUF-GUID", literal dpEufGuid), ("SessionID", decimalBytes i.sessionId),
    ("AppID", literal "1"), ("Context", msnBase64Encode i.msnObject)] ++ [0]

/-- The message of an invitation. -/
def Invitation.message (i : Invitation) : List UInt8 :=
  slpBlock "INVITE" i.toEmail i.fromEmail (createGUID i.branchGUID) (createGUID i.callGUID)
    "application/x-msnmsgr-sessionreqbody" i.body.length ++ i.body

/-- The message of a `BYE`: its body is an empty line with its end. -/
def Bye.message (b : Bye) : List UInt8 :=
  slpBlock "BYE" b.toEmail b.fromEmail (createGUID b.branchGUID) b.callId
    "application/x-msnmsgr-sessionclosebody" 3 ++ (literal "\r\n" ++ [0])

namespace PayloadRequest

/-- The payload with all headers in full. -/
def payload : PayloadRequest → List UInt8
  | message szMsg => mimeBlock "text/plain; charset=UTF-8"
      [("X-MMS-IM-Format", literal "FN=MS%20Sans%20Serif; EF=; CO=0; CS=0; PF=0")] ++ cStr szMsg
  | clientCaps daemonVersion pluginVersion => mimeBlock "text/x-clientcaps" [] ++
      header "Client-Name" (literal "Licq " ++ daemonVersion ++ literal " (MSN " ++ pluginVersion ++
        literal ")")
  | typingNotification email => mimeBlock "text/x-msmsgscontrol" [("TypingUser", email)] ++
      literal "\r\n"
  | cancelInvite cookie code => mimeBlock "text/x-msmsgsinvite; charset=UTF-8" [] ++
      headerBlock [("Invitation-Command", literal "CANCEL"), ("Cancel-Code", code),
        ("Invitation-Cookie", cookie)]
  | invitation i => (i.p2pPacket i.message.length).payload i.message
  | p2pBye b => (b.p2pPacket b.message.length).payload b.message
  | p2pAck a => a.p2pPacket.payload []

end PayloadRequest

/-- The size on the command line is that of the payload behind it, which fills the buffer. -/
structure PayloadPacket.Whole (p : PayloadPacket) (m_nSequence : UInt16) (type : Char)
    (payload : List UInt8) : Prop where
  declared : p.m_nPayloadSize = payload.length
  data : p.m_pBuffer.data = full (commandLine m_nSequence type payload.length) ++ payload
  filled : p.m_pBuffer.full = true

/-! ## Lengths -/

variable {n : ℕ} {m_nSequence : UInt16}

theorem length_decimalBytes_le {k : ℕ} (hk : 0 < k) : (decimalBytes n).length ≤ k ↔ n < 10 ^ k := by
  rw [decimalBytes, asciiBytes, length_map, decimal]
  exact Nat.length_toDigits_le_iff (by decide) hk

theorem length_decimalBytes_mono {m : ℕ} (h : m ≤ n) :
    (decimalBytes m).length ≤ (decimalBytes n).length := by
  have hpos : 0 < (decimalBytes n).length := length_pos_iff.mpr (decimalBytes_ne_nil n)
  rw [length_decimalBytes_le hpos]
  exact h.trans_lt ((length_decimalBytes_le hpos).mp (Nat.le_refl _))

theorem length_commandLine (m_nSequence : UInt16) (type : Char) (n : ℕ) :
    (full (commandLine m_nSequence type n)).length =
      (decimalBytes m_nSequence.toNat).length + (decimalBytes n).length + 9 := by
  rw [length_full, show fixedLength (commandLine m_nSequence type n) = 8 from rfl, commandLine]
  simp only [givenLength, Chunk.full, asciiBytes, map_cons, map_nil, length_cons,
    length_nil]
  omega

theorem length_p2pFormat (toEmail : List UInt8) :
    (full (p2pFormat toEmail)).length = toEmail.length + 73 := by
  rw [length_full, show fixedLength (p2pFormat toEmail) = 73 from rfl, p2pFormat]
  rfl

theorem length_cancelFormat (cookie code : List UInt8) :
    (full (cancelFormat cookie code)).length = code.length + cookie.length + 137 := by
  rw [length_full, show fixedLength (cancelFormat cookie code) = 137 from rfl, cancelFormat]
  rfl

theorem length_bodyFormat (i : Invitation) :
    (full i.bodyFormat).length =
      (decimalBytes i.sessionId).length + (msnBase64Encode i.msnObject).length + 86 := by
  rw [length_full, show fixedLength i.bodyFormat = 86 from rfl]
  rfl

/-! ## Identifiers -/

theorem mem_toDigits {c : Char} (h : c ∈ Nat.toDigits 16 n) : ∃ d < 16, c = Nat.digitChar d := by
  induction n using Nat.strong_induction_on with
  | h n ih =>
    by_cases hlt : n < 16
    · rw [Nat.toDigits_of_lt_base hlt] at h
      exact ⟨n, hlt, mem_singleton.mp h⟩
    · rw [Nat.toDigits_of_base_le (by decide) (Nat.not_lt.mp hlt)] at h
      rcases mem_append.mp h with h | h
      · exact ih (n / 16) (by omega) h
      · exact ⟨n % 16, Nat.mod_lt n (by decide), mem_singleton.mp h⟩

theorem length_hex4 (h : n < 16 ^ 4) : (hex4 n).length = 4 := by
  have hle : (Nat.toDigits 16 n).length ≤ 4 :=
    (Nat.length_toDigits_le_iff (by decide) (by decide)).mpr h
  rw [hex4, length_leftpad, length_map]
  omega

/-- The characters of a number are graphic characters of ASCII or spaces. -/
theorem mem_hex4 {c : Char} (h : c ∈ hex4 n) : UInt8.ofNat c.toNat ≠ 0 := by
  rw [hex4, leftpad, mem_append] at h
  rcases h with h | h
  · rw [(mem_replicate.mp h).2]
    decide
  · obtain ⟨c, hc, rfl⟩ := mem_map.mp h
    obtain ⟨d, hd, rfl⟩ := mem_toDigits hc
    have hall : ∀ d < 16, UInt8.ofNat (Nat.digitChar d).toUpper.toNat ≠ 0 := by decide
    exact hall d hd

theorem length_createGUID (rand : Fin 8 → ℕ) : (createGUID rand).length = 36 := by
  have hg : ∀ i, (hex4 (rand i % 0xFFFF)).length = 4 := fun i =>
    length_hex4 ((Nat.mod_lt _ (by decide)).trans (by decide))
  rw [createGUID, asciiBytes, length_map]
  simp only [length_append, hg, length_cons, length_nil]

theorem zero_notMem_createGUID (rand : Fin 8 → ℕ) : 0 ∉ createGUID rand := by
  intro h
  obtain ⟨c, hc, hzero⟩ := mem_map.mp h
  have hg : ∀ i, c ∉ hex4 (rand i % 0xFFFF) := fun i hi => mem_hex4 hi hzero
  have hdash : c ≠ '-' := by
    rintro rfl
    exact absurd hzero (by decide)
  simp only [mem_append, mem_singleton, hg, hdash, or_self] at hc

theorem zero_notMem_msnBase64Encode (s : List UInt8) : 0 ∉ msnBase64Encode s := by
  have hblock : ∀ a b c : UInt8, 0 ∉ encodeBlock a b c := fun a b c hmem =>
    absurd (isBase64_of_mem_encodeBlock hmem) (by decide)
  induction s using msnBase64Encode.induct with
  | case1 => exact not_mem_nil
  | case2 a =>
    rw [msnBase64Encode, mem_append]
    rintro (h | h)
    · exact hblock a 0 0 (mem_of_mem_take h)
    · exact absurd h (by decide)
  | case3 a b =>
    rw [msnBase64Encode]
    exact fun h => hblock a b 0 (mem_of_mem_take h)
  | case4 a b c s ih =>
    rw [msnBase64Encode, mem_append]
    rintro (h | h)
    · exact hblock a b c h
    · exact ih h

theorem fixedLength_slpFormat (method : String) (toEmail fromEmail branchGUID callGUID : List UInt8)
    (contentType : String) (contentLength : ℕ) :
    fixedLength (slpFormat method toEmail fromEmail branchGUID callGUID contentType contentLength) =
      method.length + contentType.length + 163 := by
  simp only [slpFormat, fixedLength,
    show " MSNMSGR:".length = 9 from rfl,
    show " MSNSLP/1.0\r\n".length = 13 from rfl,
    show "To: <msnmsgr:".length = 13 from rfl,
    show ">\r\n".length = 3 from rfl,
    show "From: <msnmsgr:".length = 15 from rfl,
    show "Via: MSNSLP/1.0/TLP ;branch=\x7b".length = 29 from rfl,
    show "\x7d\r\n".length = 3 from rfl,
    show "CSeq: 0\r\n".length = 9 from rfl,
    show "Call-ID: \x7b".length = 10 from rfl,
    show "Max-Forwards: 0\r\n".length = 17 from rfl,
    show "Content-Type: ".length = 14 from rfl,
    show "\r\n".length = 2 from rfl,
    show "Content-Length: ".length = 16 from rfl]
  omega

theorem length_headerFormat (i : Invitation) (n : ℕ) :
    (full (i.headerFormat n)).length = 2 * i.toEmail.length + i.fromEmail.length +
      (decimalBytes (n + 1)).length + 277 := by
  have hguid : ∀ rand, (Chunk.str (createGUID rand)).full.length = 36 := length_createGUID
  have hlength : "INVITE".length = 6 := rfl
  have htype : "application/x-msnmsgr-sessionreqbody".length = 36 := rfl
  rw [length_full, Invitation.headerFormat, fixedLength_slpFormat, slpFormat]
  simp only [givenLength, hguid]
  simp only [Chunk.full]
  omega

theorem length_byeFormat (b : Bye) :
    (full b.format).length = 2 * b.toEmail.length + b.fromEmail.length + b.callId.length + 243 := by
  have hguid : (Chunk.str (createGUID b.branchGUID)).full.length = 36 := length_createGUID _
  have hthree : (Chunk.num 3).full.length = 1 := rfl
  rw [length_full, show fixedLength b.format = 206 from rfl, Bye.format, slpFormat]
  simp only [cons_append, nil_append, givenLength, hguid, hthree]
  simp only [Chunk.full]
  omega

/-! ## The texts of the formats -/

theorem full_cons (p : Chunk) (pieces : List Chunk) :
    full (p :: pieces) = p.full ++ full pieces := by
  rw [full, flatMap_cons]
  rfl

theorem full_nil : full [] = [] := rfl

theorem full_p2pFormat (toEmail : List UInt8) : full (p2pFormat toEmail) =
    mimeBlock "application/x-msnmsgrp2p" [("P2P-Dest", toEmail)] := by
  simp only [p2pFormat, full_cons, full_nil, Chunk.full, mimeBlock, headerBlock, header,
    flatMap_cons, flatMap_nil, append_nil, append_assoc,
    literal_append_literal_append, literal_append_literal, String.reduceAppend]

theorem full_cancelFormat (cookie code : List UInt8) : full (cancelFormat cookie code) =
    (PayloadRequest.cancelInvite cookie code).payload := by
  simp only [cancelFormat, full_cons, full_nil, Chunk.full, PayloadRequest.payload, mimeBlock,
    headerBlock, header, flatMap_cons, flatMap_nil, append_nil, append_assoc,
    literal_append_literal_append, literal_append_literal, String.reduceAppend]

theorem full_bodyFormat (i : Invitation) : full i.bodyFormat ++ [0] = i.body := by
  simp only [Invitation.bodyFormat, inviteBodyFormat, full_cons, full_nil, Chunk.full,
    Invitation.body, headerBlock, header, flatMap_cons, flatMap_nil, append_nil,
    append_assoc]
  generalize literal dpEufGuid = guid
  simp only [literal_append_literal_append, String.reduceAppend]

theorem full_slpFormat (method : String) (toEmail fromEmail branchGUID callGUID : List UInt8)
    (contentType : String) (contentLength : ℕ) :
    full (slpFormat method toEmail fromEmail branchGUID callGUID contentType contentLength) =
      slpBlock method toEmail fromEmail branchGUID callGUID contentType contentLength := by
  simp only [slpFormat, full_cons, full_nil, Chunk.full, slpBlock, headerBlock, header,
    flatMap_cons, flatMap_nil, append_nil, append_assoc]
  generalize literal method = method, literal contentType = contentType
  simp only [literal_append_literal_append, literal_append_literal, String.reduceAppend]

theorem full_byeFormat (b : Bye) : full b.format ++ [0] = b.message := by
  have happend : full b.format = full (slpFormat "BYE" b.toEmail b.fromEmail
      (createGUID b.branchGUID) b.callId "application/x-msnmsgr-sessionclosebody" 3) ++
        literal "\r\n" := flatMap_append
  rw [happend, full_slpFormat, append_assoc]
  rfl

/-! ## Packets -/

theorem foldl_packRaw (b : Buffer) (chunks : List (List UInt8))
    (h : b.data.length + chunks.flatten.length ≤ b.maxSize) :
    (chunks.foldl Buffer.packRaw b).data = b.data ++ chunks.flatten ∧
      (chunks.foldl Buffer.packRaw b).maxSize = b.maxSize ∧
        (chunks.foldl Buffer.packRaw b).allocated = b.allocated := by
  induction chunks generalizing b with
  | nil => exact ⟨(append_nil _).symm, rfl, rfl⟩
  | cons chunk chunks ih =>
    rw [flatten_cons, length_append] at h
    have hdata : (b.packRaw chunk).data = b.data ++ chunk :=
      Buffer.packRaw_data (by rw [Buffer.remainingDataToWrite]; omega)
    obtain ⟨hdata', hmax, halloc⟩ := ih (b.packRaw chunk)
      (by rw [hdata, Buffer.packRaw_maxSize, length_append]; omega)
    rw [foldl_cons, hdata', hmax, halloc, hdata, append_assoc, flatten_cons,
      Buffer.packRaw_maxSize, Buffer.packRaw_allocated]
    exact ⟨rfl, rfl, rfl⟩

theorem printed_commandLine (m_nSequence : UInt16) (type : Char) (n : ℕ) :
    printed (commandLine m_nSequence type n) = full (commandLine m_nSequence type n) := rfl

/-- **A packet is whole** when what is packed is its payload, and its command line fits. -/
theorem make_whole_iff {type : Char} {chunks : List (List UInt8)}
    (hn : chunks.flatten.length = n) (payload : List UInt8) :
    (PayloadPacket.make m_nSequence type n chunks).Whole m_nSequence type payload ↔
      chunks.flatten = payload ∧
        (decimalBytes m_nSequence.toNat).length + (decimalBytes n).length ≤ 22 := by
  obtain ⟨line, hline⟩ : ∃ line, line = full (commandLine m_nSequence type n) := ⟨_, rfl⟩
  have hlength := length_commandLine m_nSequence type n
  rw [← hline] at hlength
  have hbuf : snprintf 32 (commandLine m_nSequence type n) = line.take 31 := by
    rw [snprintf, printed_commandLine, hline]
  have hspace : (line.take 31).length ≤ (Buffer.ofSize (line.length + n)).remainingDataToWrite := by
    rw [length_take]
    change _ ≤ line.length + n - 0
    omega
  have hfirst := Buffer.packRaw_data hspace
  rw [show (Buffer.ofSize (line.length + n)).data = [] from rfl, nil_append] at hfirst
  have hmake : (PayloadPacket.make m_nSequence type n chunks).m_pBuffer =
      chunks.foldl Buffer.packRaw ((Buffer.ofSize (line.length + n)).packRaw (line.take 31)) := by
    rw [PayloadPacket.make]
    dsimp only
    rw [printed_commandLine, hbuf, ← hline]
  have hmax : ((Buffer.ofSize (line.length + n)).packRaw (line.take 31)).maxSize =
      line.length + n := Buffer.packRaw_maxSize _ _
  obtain ⟨hdata, hsize, halloc⟩ := foldl_packRaw
    ((Buffer.ofSize (line.length + n)).packRaw (line.take 31)) chunks
    (by rw [hfirst, hmax, hn, length_take]; omega)
  rw [← hmake, hfirst] at hdata
  rw [← hmake, hmax] at hsize
  constructor
  · rintro ⟨hdeclared, hpacked, hfilled⟩
    have hdeclared : n = payload.length := hdeclared
    rw [Buffer.full_iff, hsize, hdata, length_append, length_take, hn] at hfilled
    have hfits : line.length ≤ 31 := by omega
    rw [hdata, take_of_length_le hfits, ← hdeclared, ← hline] at hpacked
    exact ⟨append_cancel_left hpacked, by omega⟩
  · rintro ⟨rfl, hfits⟩
    refine ⟨hn.symm, ?_, ?_⟩
    · rw [hdata, take_of_length_le (by omega), hn, hline]
    · rw [Buffer.full_iff, hsize, hdata, length_append, length_take, hn]
      refine ⟨?_, by omega⟩
      rw [hmake, halloc, Buffer.packRaw_allocated]
      exact decide_eq_true (by omega)

/-- A payload of less than 10^17 bytes has its size on the command line. -/
theorem commandLine_fits (m_nSequence : UInt16) (h : n < 10 ^ 17) :
    (decimalBytes m_nSequence.toNat).length + (decimalBytes n).length ≤ 22 := by
  have hseq : (decimalBytes m_nSequence.toNat).length ≤ 5 :=
    (length_decimalBytes_le (by decide)).mpr (m_nSequence.toNat_lt.trans (by decide))
  have hn : (decimalBytes n).length ≤ 17 := (length_decimalBytes_le (by decide)).mpr h
  omega

theorem length_binaryHeader (p : P2PPacket) : p.binaryHeader.flatten.length = 48 := by
  simp only [P2PPacket.binaryHeader, map_cons, map_nil, flatten_cons,
    flatten_nil, length_append, length_bytesLE, length_nil]

/-- **A peer-to-peer packet is whole** when the address fits its header and the message is the one
that should be sent. -/
theorem p2p_whole_iff {p p' : P2PPacket} {strMsg message : List UInt8}
    (hemail : p.myToEmail = p'.myToEmail) (hsmall : strMsg.length < 10 ^ 16)
    (hle : strMsg.length ≤ message.length)
    (hsame : strMsg.length = message.length → strMsg = message ∧ p = p') :
    (p.make m_nSequence strMsg).Whole m_nSequence 'D' (p'.payload message) ↔
      0 ∉ p.myToEmail ∧ p.myToEmail.length ≤ 53 ∧ strMsg = message := by
  have hbound : (snprintf (128 - 1) (p2pFormat p.myToEmail)).length < 127 :=
    length_snprintf_lt (by decide) _
  have hless := length_snprintf_le (128 - 1) (p2pFormat p.myToEmail)
  have hheader : snprintf (128 - 1) (p2pFormat p.myToEmail) = full (p2pFormat p.myToEmail) ↔
      0 ∉ p.myToEmail ∧ p.myToEmail.length ≤ 53 := by
    rw [snprintf_eq_iff, length_p2pFormat]
    refine and_congr ⟨fun h => h _ (by simp [p2pFormat]), fun h s hs => ?_⟩ (by omega)
    simp only [p2pFormat, mem_cons, reduceCtorEq, Chunk.str.injEq, false_or, or_false,
      not_mem_nil] at hs
    exact hs ▸ h
  have hn : (snprintf (128 - 1) (p2pFormat p.myToEmail) :: p.binaryHeader ++
      [strMsg, bytesLE 4 0]).flatten.length =
        strMsg.length + (4 + 48 + (snprintf (128 - 1) (p2pFormat p.myToEmail)).length) := by
    rw [cons_append, flatten_cons, flatten_append, length_append,
      length_append, length_binaryHeader]
    simp only [flatten_cons, flatten_nil, length_append, length_bytesLE,
      length_nil]
    omega
  have hfits := commandLine_fits m_nSequence
    (show strMsg.length +
      (4 + 48 + (snprintf (128 - 1) (p2pFormat p.myToEmail)).length) < 10 ^ 17 by omega)
  rw [P2PPacket.make, make_whole_iff hn, and_iff_left hfits, P2PPacket.payload, ← full_p2pFormat,
    ← hemail, ← and_assoc, ← hheader]
  constructor
  · intro heq
    have hlength := congrArg List.length heq
    rw [hn] at hlength
    simp only [length_append, length_binaryHeader, length_bytesLE] at hlength
    have hmsg : strMsg.length = message.length := by omega
    exact ⟨snprintf_eq_full (by omega), (hsame hmsg).1⟩
  · rintro ⟨hprinted, hmsg⟩
    obtain ⟨-, rfl⟩ := hsame (congrArg List.length hmsg)
    rw [hprinted, hmsg, cons_append, flatten_cons, flatten_append]
    simp only [flatten_cons, flatten_nil, append_nil, append_assoc]

/-! ## The packets -/

namespace PayloadRequest

/-- The size of the payload can be written on the command line, addresses, cookies and call
identifiers have no NUL, and the headers fit the arrays they are formatted in. -/
def Fits (m_nSequence : UInt16) : PayloadRequest → Prop
  | cancelInvite cookie code => 0 ∉ cookie ∧ 0 ∉ code ∧ code.length + cookie.length ≤ 374
  | invitation i => 0 ∉ i.toEmail ∧ 0 ∉ i.fromEmail ∧ i.toEmail.length ≤ 53 ∧
      2 * i.toEmail.length + i.fromEmail.length + (decimalBytes i.body.length).length ≤ 233 ∧
        (decimalBytes i.sessionId).length + (msnBase64Encode i.msnObject).length ≤ 424
  | p2pBye b => 0 ∉ b.toEmail ∧ 0 ∉ b.fromEmail ∧ 0 ∉ b.callId ∧ b.toEmail.length ≤ 53 ∧
      2 * b.toEmail.length + b.fromEmail.length + b.callId.length ≤ 523
  | p2pAck a => 0 ∉ a.toEmail ∧ a.toEmail.length ≤ 53
  | r => (decimalBytes m_nSequence.toNat).length + (decimalBytes r.payload.length).length ≤ 22

end PayloadRequest

theorem snprintf_cancel_iff (cookie code : List UInt8) :
    snprintf 512 (cancelFormat cookie code) = full (cancelFormat cookie code) ↔
      0 ∉ cookie ∧ 0 ∉ code ∧ code.length + cookie.length ≤ 374 := by
  rw [snprintf_eq_iff, length_cancelFormat]
  simp only [cancelFormat, mem_cons, reduceCtorEq, Chunk.str.injEq, false_or, or_false,
    not_mem_nil, forall_eq_or_imp, forall_eq]
  constructor
  · rintro ⟨⟨hcode, hcookie⟩, hle⟩
    exact ⟨hcookie, hcode, by omega⟩
  · rintro ⟨hcookie, hcode, hle⟩
    exact ⟨⟨hcode, hcookie⟩, by omega⟩

theorem snprintf_body_iff (i : Invitation) :
    snprintf (512 - 1) i.bodyFormat = full i.bodyFormat ↔
      (decimalBytes i.sessionId).length + (msnBase64Encode i.msnObject).length ≤ 424 := by
  have hobject := zero_notMem_msnBase64Encode i.msnObject
  rw [snprintf_eq_iff, length_bodyFormat]
  simp only [Invitation.bodyFormat, inviteBodyFormat, mem_cons, reduceCtorEq, Chunk.str.injEq,
    false_or, or_false, not_mem_nil, forall_eq]
  exact ⟨fun h => by omega, fun h => ⟨hobject, by omega⟩⟩

theorem snprintf_header_iff (i : Invitation) (n : ℕ) :
    snprintf (512 - 1) (i.headerFormat n) = full (i.headerFormat n) ↔
      0 ∉ i.toEmail ∧ 0 ∉ i.fromEmail ∧
        2 * i.toEmail.length + i.fromEmail.length + (decimalBytes (n + 1)).length ≤ 233 := by
  rw [snprintf_eq_iff, length_headerFormat]
  simp only [Invitation.headerFormat, slpFormat, mem_cons, reduceCtorEq, Chunk.str.injEq,
    false_or, or_false, not_mem_nil, forall_eq_or_imp, forall_eq, zero_notMem_createGUID,
    not_false_eq_true, and_true]
  constructor
  · rintro ⟨⟨hto, -, hfrom⟩, hle⟩
    exact ⟨hto, hfrom, by omega⟩
  · rintro ⟨hto, hfrom, hle⟩
    exact ⟨⟨hto, hto, hfrom⟩, by omega⟩

theorem snprintf_bye_iff (b : Bye) :
    snprintf (768 - 1) b.format = full b.format ↔
      0 ∉ b.toEmail ∧ 0 ∉ b.fromEmail ∧ 0 ∉ b.callId ∧
        2 * b.toEmail.length + b.fromEmail.length + b.callId.length ≤ 523 := by
  rw [snprintf_eq_iff, length_byeFormat]
  simp only [Bye.format, slpFormat, cons_append, nil_append, mem_cons, reduceCtorEq,
    Chunk.str.injEq, false_or, or_false, not_mem_nil, forall_eq_or_imp, forall_eq,
    zero_notMem_createGUID, not_false_eq_true, true_and]
  constructor
  · rintro ⟨⟨hto, -, hfrom, hcall⟩, hle⟩
    exact ⟨hto, hfrom, hcall, by omega⟩
  · rintro ⟨hto, hfrom, hcall, hle⟩
    exact ⟨⟨hto, hto, hfrom, hcall⟩, by omega⟩

theorem length_body (i : Invitation) : i.body.length = (full i.bodyFormat).length + 1 := by
  rw [← full_bodyFormat, length_append, length_singleton]

theorem message_eq (i : Invitation) :
    i.message = full (i.headerFormat (full i.bodyFormat).length) ++ full i.bodyFormat ++ [0] := by
  rw [Invitation.message, Invitation.headerFormat, full_slpFormat, ← length_body, append_assoc,
    full_bodyFormat]

theorem cancelInvite_whole_iff (m_nSequence : UInt16) (cookie code : List UInt8) :
    (cpsMsnCancelInvite m_nSequence cookie code).Whole m_nSequence 'N'
        (PayloadRequest.cancelInvite cookie code).payload ↔
      0 ∉ cookie ∧ 0 ∉ code ∧ code.length + cookie.length ≤ 374 := by
  have hn : [snprintf 512 (cancelFormat cookie code)].flatten.length =
      (snprintf 512 (cancelFormat cookie code)).length := by
    rw [flatten_singleton]
  have hlt := length_snprintf_lt (show 0 < 512 by decide) (cancelFormat cookie code)
  rw [cpsMsnCancelInvite, make_whole_iff hn, flatten_singleton, ← full_cancelFormat,
    snprintf_cancel_iff]
  exact and_iff_left (commandLine_fits m_nSequence (hlt.trans (by decide)))

theorem p2pAck_whole_iff (m_nSequence : UInt16) (a : Ack) :
    (cpsMsnP2PAck m_nSequence a).Whole m_nSequence 'D' (a.p2pPacket.payload []) ↔
      0 ∉ a.toEmail ∧ a.toEmail.length ≤ 53 := by
  rw [cpsMsnP2PAck, p2p_whole_iff rfl (by decide) (Nat.le_refl _) fun _ => ⟨rfl, rfl⟩]
  simp only [and_true]
  rfl

theorem p2pBye_whole_iff (m_nSequence : UInt16) (b : Bye) :
    (cpsMsnP2PBye m_nSequence b).Whole m_nSequence 'D'
        ((b.p2pPacket b.message.length).payload b.message) ↔
      0 ∉ b.toEmail ∧ 0 ∉ b.fromEmail ∧ 0 ∉ b.callId ∧ b.toEmail.length ≤ 53 ∧
        2 * b.toEmail.length + b.fromEmail.length + b.callId.length ≤ 523 := by
  have hlt := length_snprintf_lt (show 0 < 768 - 1 by decide) b.format
  have hle := length_snprintf_le (768 - 1) b.format
  have hmessage := full_byeFormat b
  have hsame : (snprintf (768 - 1) b.format ++ [0]).length = b.message.length →
      snprintf (768 - 1) b.format ++ [0] = b.message ∧
        b.p2pPacket ((snprintf (768 - 1) b.format).length + 1) = b.p2pPacket b.message.length := by
    intro hlength
    rw [← hmessage, length_append, length_append] at hlength
    rw [snprintf_eq_full (by omega), ← hmessage, length_append, length_singleton]
    exact ⟨rfl, rfl⟩
  have hsmall : (snprintf (768 - 1) b.format ++ [0]).length < 10 ^ 16 := by
    rw [length_append, length_singleton]
    omega
  have hless : (snprintf (768 - 1) b.format ++ [0]).length ≤ b.message.length := by
    rw [← hmessage, length_append, length_append]
    omega
  refine (p2p_whole_iff (by rfl) hsmall hless hsame).trans ?_
  rw [← hmessage, append_left_inj, snprintf_bye_iff]
  constructor
  · rintro ⟨hto, h53, -, hfrom, hcall, hle⟩
    exact ⟨hto, hfrom, hcall, h53, hle⟩
  · rintro ⟨hto, hfrom, hcall, h53, hle⟩
    exact ⟨hto, h53, hto, hfrom, hcall, hle⟩

theorem invitation_whole_iff (m_nSequence : UInt16) (i : Invitation) :
    (cpsMsnInvitation m_nSequence i).Whole m_nSequence 'D'
        ((i.p2pPacket i.message.length).payload i.message) ↔
      0 ∉ i.toEmail ∧ 0 ∉ i.fromEmail ∧ i.toEmail.length ≤ 53 ∧
        2 * i.toEmail.length + i.fromEmail.length + (decimalBytes i.body.length).length ≤ 233 ∧
          (decimalBytes i.sessionId).length + (msnBase64Encode i.msnObject).length ≤ 424 := by
  obtain ⟨body, hbody⟩ : ∃ body, body = snprintf (512 - 1) i.bodyFormat := ⟨_, rfl⟩
  obtain ⟨head, hhead⟩ : ∃ head, head = snprintf (512 - 1) (i.headerFormat body.length) := ⟨_, rfl⟩
  have hbodylt : body.length < 511 := hbody ▸ length_snprintf_lt (by decide) _
  have hheadlt : head.length < 511 := hhead ▸ length_snprintf_lt (by decide) _
  have hbodyle : body.length ≤ (full i.bodyFormat).length := hbody ▸ length_snprintf_le _ _
  -- a shorter body has no longer a length
  have hheadle : head.length ≤ (full (i.headerFormat (full i.bodyFormat).length)).length := by
    have hprinted : head.length ≤ (full (i.headerFormat body.length)).length :=
      hhead ▸ length_snprintf_le _ _
    have hmono := length_decimalBytes_mono
      (show body.length + 1 ≤ (full i.bodyFormat).length + 1 by omega)
    rw [length_headerFormat] at hprinted ⊢
    omega
  have hmessage := message_eq i
  have hsame : (head ++ body ++ [0]).length = i.message.length →
      head ++ body ++ [0] = i.message ∧
        i.p2pPacket (body.length + head.length + 1) = i.p2pPacket i.message.length := by
    intro hlength
    have hcount : body.length + head.length + 1 = i.message.length := by
      rw [← hlength, length_append, length_append, length_singleton]
      omega
    rw [hmessage] at hlength
    simp only [length_append, length_singleton] at hlength
    have hbodyfull : body = full i.bodyFormat := by
      rw [hbody]
      exact snprintf_eq_full (by rw [← hbody]; omega)
    have hheadfull : head = full (i.headerFormat (full i.bodyFormat).length) := by
      rw [hhead, hbodyfull]
      exact snprintf_eq_full (by rw [← hbodyfull, ← hhead, hbodyfull]; omega)
    rw [hcount, hmessage, hbodyfull, hheadfull]
    exact ⟨rfl, rfl⟩
  have hless : (head ++ body ++ [0]).length ≤ i.message.length := by
    rw [hmessage]
    simp only [length_append, length_singleton]
    omega
  have hsmall : (head ++ body ++ [0]).length < 10 ^ 16 := by
    simp only [length_append, length_singleton]
    omega
  have hmake : cpsMsnInvitation m_nSequence i =
      (i.p2pPacket (body.length + head.length + 1)).make m_nSequence (head ++ body ++ [0]) := by
    rw [hhead, hbody]
    rfl
  rw [hmake]
  refine (p2p_whole_iff (by rfl) hsmall hless hsame).trans ?_
  have hpieces : head ++ body ++ [0] = i.message ↔
      snprintf (512 - 1) i.bodyFormat = full i.bodyFormat ∧
        snprintf (512 - 1) (i.headerFormat (full i.bodyFormat).length) =
          full (i.headerFormat (full i.bodyFormat).length) := by
    rw [hmessage, append_left_inj]
    constructor
    · intro heq
      have hlength := congrArg List.length heq
      simp only [length_append] at hlength
      obtain ⟨hheadfull, hbodyfull⟩ := append_inj heq (by omega)
      rw [hbody] at hbodyfull
      rw [hhead, hbody, hbodyfull] at hheadfull
      exact ⟨hbodyfull, hheadfull⟩
    · rintro ⟨hbodyfull, hheadfull⟩
      rw [hhead, hbody, hbodyfull, hheadfull]
  rw [hpieces, snprintf_body_iff, snprintf_header_iff, ← length_body]
  constructor
  · rintro ⟨hto, h53, hobject, -, hfrom, hle⟩
    exact ⟨hto, hfrom, h53, hle, hobject⟩
  · rintro ⟨hto, hfrom, h53, hle, hobject⟩
    exact ⟨hto, h53, hobject, hto, hfrom, hle⟩

/-- A packet whose payload is not formatted in an array. -/
theorem make_whole_of_eq {type : Char} {chunks : List (List UInt8)}
    {payload : List UInt8} (hpayload : chunks.flatten = payload) (hn : n = chunks.flatten.length) :
    (PayloadPacket.make m_nSequence type n chunks).Whole m_nSequence type payload ↔
      (decimalBytes m_nSequence.toNat).length + (decimalBytes payload.length).length ≤ 22 := by
  rw [make_whole_iff hn.symm, and_iff_right hpayload, hn, hpayload]

/-- **The packets with a payload** are whole exactly when what they are made of fits. -/
theorem whole_iff (m_nSequence : UInt16) (r : PayloadRequest) :
    (r.packet m_nSequence).Whole m_nSequence r.type r.payload ↔ r.Fits m_nSequence := by
  cases r with
  | message szMsg =>
    refine make_whole_of_eq ?_ ?_
    · simp only [List.flatten_cons, List.flatten_nil, List.append_nil, List.append_assoc,
        PayloadRequest.payload, mimeBlock, headerBlock, header, List.flatMap_cons,
        List.flatMap_nil, literal_append_literal, String.reduceAppend]
    · simp only [List.flatten_cons, List.flatten_nil, List.length_append, List.length_nil]
      omega
  | clientCaps daemonVersion pluginVersion =>
    refine make_whole_of_eq ?_ ?_
    · simp only [List.flatten_cons, List.flatten_nil, List.append_nil, List.append_assoc,
        PayloadRequest.payload, mimeBlock, headerBlock, header, List.flatMap_cons,
        List.flatMap_nil, literal_append_literal_append, literal_append_literal,
        String.reduceAppend]
    · rw [List.flatten_singleton]
  | typingNotification email =>
    refine make_whole_of_eq ?_ ?_
    · simp only [List.flatten_cons, List.flatten_nil, List.append_nil, List.append_assoc,
        PayloadRequest.payload, mimeBlock, headerBlock, header, List.flatMap_cons,
        List.flatMap_nil, literal_append_literal_append, literal_append_literal,
        String.reduceAppend]
    · simp only [List.flatten_cons, List.flatten_nil, List.length_append, List.length_nil]
      omega
  | cancelInvite cookie code => exact cancelInvite_whole_iff m_nSequence cookie code
  | invitation i => exact invitation_whole_iff m_nSequence i
  | p2pBye b => exact p2pBye_whole_iff m_nSequence b
  | p2pAck a => exact p2pAck_whole_iff m_nSequence a

/-- An acknowledgement to an address of 54 characters. -/
theorem not_whole_longAddress : ¬ ∀ (m_nSequence : UInt16) (r : PayloadRequest),
    (r.packet m_nSequence).Whole m_nSequence r.type r.payload := by
  intro h
  obtain ⟨email, hemail⟩ : ∃ email, email = List.replicate 42 97 ++ literal "@hotmail.com" :=
    ⟨_, rfl⟩
  have hlength : email.length = 54 := by
    rw [hemail, List.length_append, List.length_replicate, length_literal]
    rfl
  have hfits := ((p2pAck_whole_iff 0 ⟨email, 0, 4, 0, 0, 0, 0⟩).mp
    (h 0 (.p2pAck ⟨email, 0, 4, 0, 0, 0, 0⟩))).2
  exact absurd (hlength.symm.trans_le hfits) (by decide)

end Licq.Msn.Payload
