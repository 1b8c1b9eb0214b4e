import Licq.ContactList.UserId
import Licq.Data.File
import Licq.Data.Steps
import Licq.Msn.Messages

/-!
# Msn/DataEvent — receiving a display picture

`CMSNDataEvent` takes the packets of a transfer from peer to peer: it waits for a session id, opens
the picture file and writes to it what comes, until as many bytes have come as the first packet
announced.

The **main result** `picture_complete` is about every run of packets: the file is exactly what has
come when the event reports success, as long as no packet announces more bytes than it has, all of
them fit into the announced size and get written, and the file is not longer than that before.
-/

namespace Licq.Msn

open Text

/-! ## Packets -/

/-- The binary header of a packet. -/
structure P2PHeader where
  nSessionId : UInt32
  nIdentifier : UInt32
  nOffset : UInt32 × UInt32
  nDataSize : UInt32 × UInt32
  nLen : UInt32
  nFlag : UInt32
  nAckId : UInt32
  nAckUniqueId : UInt32
  nAckSize : UInt32 × UInt32

/-- The header, and what is left to read behind it. -/
def readP2PHeader (s : List UInt8) : P2PHeader × List UInt8 :=
  let nSessionId := readUInt32 s
  let nIdentifier := readUInt32 nSessionId.2
  let nOffset₀ := readUInt32 nIdentifier.2
  let nOffset₁ := readUInt32 nOffset₀.2
  let nDataSize₀ := readUInt32 nOffset₁.2
  let nDataSize₁ := readUInt32 nDataSize₀.2
  let nLen := readUInt32 nDataSize₁.2
  let nFlag := readUInt32 nLen.2
  let nAckId := readUInt32 nFlag.2
  let nAckUniqueId := readUInt32 nAckId.2
  let nAckSize₀ := readUInt32 nAckUniqueId.2
  let nAckSize₁ := readUInt32 nAckSize₀.2
  (⟨nSessionId.1, nIdentifier.1, (nOffset₀.1, nOffset₁.1), (nDataSize₀.1, nDataSize₁.1), nLen.1,
    nFlag.1, nAckId.1, nAckUniqueId.1, (nAckSize₀.1, nAckSize₁.1)⟩, nAckSize₁.2)

/-! ## The event -/

/-- `ESTATE` -/
inductive EState
  | waitingAck
  | gotSid
  | recvData
  | finished
  | closed
  deriving DecidableEq

/-- `CMSNDataEvent` -/
structure DataEvent where
  myUserId : UserId
  myFromId : UserId
  strCallId : List UInt8
  eState : EState
  nFileDesc : ℤ
  nBytesTransferred : UInt64
  nSessionId : UInt64
  nBaseId : UInt64
  nDataSize : UInt64 × UInt64

/-- The constructor. -/
def DataEvent.new (nSessionId nBaseId : UInt64) (userId fromId : UserId) (strCallId : List UInt8) :
    DataEvent where
  myUserId := userId
  myFromId := fromId
  strCallId := strCallId
  eState := .waitingAck
  nFileDesc := -1
  nBytesTransferred := 0
  nSessionId := nSessionId
  nBaseId := nBaseId
  nDataSize := (0, 0)

/-- The packets that are sent: `CPS_MSNP2PAck` and `CPS_MSNP2PBye`. -/
inductive Sent
  | ack (toId : UserId) (nSessionId nBaseId : UInt64) (nAckId nUniqueId : UInt32)
      (nDataSize₁ nDataSize₀ : UInt32)
  | bye (toId fromId : UserId) (strCallId : List UInt8) (nBaseId : UInt64) (nAckId : UInt32)
      (nDataSize₁ nDataSize₀ : UInt32)

/-- What is done to the picture file.  A write takes the bytes of the packet, the memory behind
them, and how many bytes to write. -/
inductive Call
  | open_
  | write (body behind : List UInt8) (nLen : UInt32)
  | close

/-- What `ProcessPacket` returns, and what it does. -/
structure Result where
  ret : ℤ
  event : DataEvent
  sent : List Sent
  calls : List Call
  success : Bool

/-- `MSNSLP/1.0 200 OK` with its line end. -/
def okStatus : List UInt8 :=
  asciiBytes ['M', 'S', 'N', 'S', 'L', 'P', '/', '1', '.', '0', ' ', '2', '0', '0', ' ', 'O', 'K',
    '\r', '\n']

/-- `Content-Length` -/
def contentLength : List UInt8 :=
  asciiBytes ['C', 'o', 'n', 't', 'e', 'n', 't', '-', 'L', 'e', 'n', 'g', 't', 'h']

/-- `SessionID` -/
def sessionIdKey : List UInt8 := asciiBytes ['S', 'e', 's', 's', 'i', 'o', 'n', 'I', 'D']

/-- The session id in the header or the body, or `none` for an error.  Where `strstr` finds no line
end, the number of bytes to read is `noLine`. -/
def readSessionId (nSessionId : UInt32) (data body behind : List UInt8) (noLine : ℤ) :
    Option UInt64 :=
  if nSessionId ≠ 0 then some nSessionId.toUInt64
  else
    let nToRead := match findLineEnd (body ++ behind) with
      | some i => (i : ℤ) + 2
      | none => noLine
    let strStatus := readSize nToRead body
    if strStatus ≠ okStatus then none
    else
      let headers := parseHeaders data (body.drop strStatus.length)
      if atoi (byteChars (getValue headers.1 contentLength)) = 0 then some 0
      else
        let inner := parseHeaders data (skipRN data headers.2)
        some (UInt64.ofNat (strtoul (byteChars (getValue inner.1 sessionIdKey))))

namespace DataEvent

/-- The announced size: that of the first packet with data. -/
def sizeAfter (e : DataEvent) (h : P2PHeader) : UInt64 × UInt64 :=
  if e.nDataSize.1 = 0 ∧ h.nFlag = 0x20 then (h.nDataSize.1.toUInt64, h.nDataSize.2.toUInt64)
  else e.nDataSize

/-- The acknowledgement of a packet. -/
def ack (e : DataEvent) (h : P2PHeader) (back : UInt64) : Sent :=
  .ack e.myUserId e.nSessionId (e.nBaseId - back) h.nIdentifier h.nAckId h.nDataSize.2 h.nDataSize.1

/-- `CMSNDataEvent::ProcessPacket`, where `open` returns `fd`. -/
def processPacket (e : DataEvent) (data s behind : List UInt8) (noLine fd : ℤ) : Result :=
  let h := (readP2PHeader s).1
  let body := (readP2PHeader s).2
  match e.eState with
  | .waitingAck =>
    if e.nSessionId = 0 ∧ h.nFlag = 0 then
      match readSessionId h.nSessionId data body behind noLine with
      | none => ⟨-1, e, [], [], false⟩
      | some nSessionId =>
        let e := { e with nSessionId := nSessionId, eState := .gotSid }
        ⟨0, e, [e.ack h 3], [], false⟩
    else ⟨0, e, [], [], false⟩
  | .gotSid =>
    -- only a descriptor of 0 counts as a failure
    ⟨if fd = 0 then -1 else 0, { e with eState := .recvData, nFileDesc := fd }, [e.ack h 2],
      [.open_], false⟩
  | .recvData =>
    if h.nFlag ≠ 0x20 then ⟨0, e, [], [], false⟩
    else
      let e := { e with
        nDataSize := e.sizeAfter h
        nBytesTransferred := e.nBytesTransferred + h.nLen.toUInt64 }
      let write := Call.write body behind h.nLen
      if e.nDataSize.1 ≤ e.nBytesTransferred then
        ⟨0, { e with nFileDesc := -1, eState := .finished },
          [e.ack h 1, .bye e.myUserId e.myFromId e.strCallId e.nBaseId h.nAckId h.nDataSize.2
            h.nDataSize.1],
          [write, .close], e.nBytesTransferred = e.nDataSize.1⟩
      else ⟨0, e, [], [write], false⟩
  | .finished => ⟨10, e, [], [], false⟩
  | .closed => ⟨0, e, [], [], false⟩

end DataEvent

/-! ## A transfer -/

/-- An event, the picture file with the offset in it, and what has come and been written: the data
of the packets, the number of bytes, bytes from behind a packet, success. -/
structure Transfer where
  event : DataEvent
  file : Option (List UInt8)
  offset : ℕ
  chunks : List (List UInt8)
  written : ℕ
  stray : Bool
  success : Bool
  removed : Bool

/-- A packet: what has been read of it and what is left; the memory behind it; what `open` returns,
and how many bytes can be written. -/
structure Packet where
  before : List UInt8
  bytes : List UInt8
  behind : List UInt8
  noLine : ℤ
  fd : ℤ
  room : ℕ

namespace Packet

def header (a : Packet) : P2PHeader := (readP2PHeader a.bytes).1

def body (a : Packet) : List UInt8 := (readP2PHeader a.bytes).2

end Packet

namespace Transfer

/-- A new transfer, whatever the file holds. -/
def start (nSessionId nBaseId : UInt64) (userId fromId : UserId) (strCallId : List UInt8)
    (file : Option (List UInt8)) : Transfer where
  event := .new nSessionId nBaseId userId fromId strCallId
  file := file
  offset := 0
  chunks := []
  written := 0
  stray := false
  success := false
  removed := false

/-- `open` creates the file or leaves what it holds, and `write` goes on behind the last one. -/
def call (a : Packet) (t : Transfer) : Call → Transfer
  | .open_ =>
    if 0 ≤ a.fd then { t with file := some (t.file.getD []), offset := 0 } else t
  | .write body behind nLen =>
    let n := if t.event.nFileDesc < 0 then 0 else min nLen.toNat a.room
    { t with
      file := t.file.map fun file => File.writeAt file t.offset ((body ++ behind).take n)
      offset := t.offset + ((body ++ behind).take n).length
      chunks := t.chunks ++ [body.take nLen.toNat]
      written := t.written + n
      stray := t.stray || body.length < n }
  | .close => t

/-- A packet comes; the event is removed when it returns more than 0. -/
def step (t : Transfer) (a : Packet) : Option Transfer :=
  if t.removed then none
  else
    let r := t.event.processPacket (a.before ++ a.bytes) a.bytes a.behind a.noLine a.fd
    let t := r.calls.foldl (call a) t
    some { t with event := r.event, success := t.success || r.success, removed := 0 < r.ret }

/-- The announced number of bytes. -/
def total (nDataSize : UInt64 × UInt64) : ℕ := nDataSize.1.toNat + 2 ^ 32 * nDataSize.2.toNat

/-- Only bytes of the packets are written and no more than announced, and after success the file is
what the packets brought. -/
structure Good (t : Transfer) : Prop where
  inside : t.stray = false
  bounded : t.written ≤ total t.event.nDataSize
  complete : t.success → t.file = some t.chunks.flatten ∧
    t.chunks.flatten.length = total t.event.nDataSize

/-! ## The invariant -/

/-- Nothing has come yet. -/
structure Fresh (t : Transfer) : Prop where
  chunks : t.chunks = []
  written : t.written = 0
  transferred : t.event.nBytesTransferred = 0
  nDataSize : t.event.nDataSize = (0, 0)
  success : t.success = false

/-- The file is open, and all that has come is written. -/
structure Receiving (t : Transfer) : Prop where
  opened : 0 ≤ t.event.nFileDesc
  file : ∃ file, t.file = some file ∧ t.offset ≤ file.length ∧
    file.take t.offset = t.chunks.flatten
  written : t.written = t.offset
  transferred : t.event.nBytesTransferred.toNat = t.offset
  announced : t.event.nDataSize.1 = 0 → t.offset = 0
  low : t.event.nDataSize.1.toNat < 2 ^ 32
  high : t.event.nDataSize.2.toNat < 2 ^ 32
  success : t.success = false

/-- What holds in each state. -/
structure Inv (t : Transfer) : Prop where
  good : Good t
  fresh : t.event.eState = .waitingAck ∨ t.event.eState = .gotSid → Fresh t
  receiving : t.event.eState = .recvData → Receiving t

/-- The file can be opened; the bytes of a packet are there, fit into the announced size and can be
written; and the one that completes the picture finds a file that is not longer than that, and a
size below 2³². -/
def Ok (t : Transfer) (a : Packet) : Prop :=
  match t.event.eState with
  | .gotSid => 0 ≤ a.fd
  | .recvData => a.header.nFlag = 0x20 →
    a.header.nLen.toNat ≤ a.body.length ∧ a.header.nLen.toNat ≤ a.room ∧
    t.event.nBytesTransferred.toNat + a.header.nLen.toNat ≤ total (t.event.sizeAfter a.header) ∧
    (t.event.nBytesTransferred.toNat + a.header.nLen.toNat = (t.event.sizeAfter a.header).1.toNat →
      (t.event.sizeAfter a.header).2 = 0 ∧
      (t.file.getD []).length ≤ (t.event.sizeAfter a.header).1.toNat)
  | _ => True

theorem inv_start (nSessionId nBaseId : UInt64) (userId fromId : UserId) (strCallId : List UInt8)
    (file : Option (List UInt8)) :
    (start nSessionId nBaseId userId fromId strCallId file).Inv where
  good := ⟨rfl, Nat.zero_le _, nofun⟩
  fresh := fun _ => ⟨rfl, rfl, rfl, rfl, rfl⟩
  receiving := nofun

theorem Fresh.good {t : Transfer} (h : Fresh t) (hstray : t.stray = false) : Good t where
  inside := hstray
  bounded := by
    rw [h.written]
    exact Nat.zero_le _
  complete := fun hsuccess => by
    rw [h.success] at hsuccess
    cases hsuccess

/-- **The sizes of a packet** are those of a 32-bit header. -/
theorem sizeAfter_lt {e : DataEvent} (hlow : e.nDataSize.1.toNat < 2 ^ 32)
    (hhigh : e.nDataSize.2.toNat < 2 ^ 32) (h : P2PHeader) :
    (e.sizeAfter h).1.toNat < 2 ^ 32 ∧ (e.sizeAfter h).2.toNat < 2 ^ 32 := by
  rw [DataEvent.sizeAfter]
  split_ifs
  · exact ⟨h.nDataSize.1.toNat_lt, h.nDataSize.2.toNat_lt⟩
  · exact ⟨hlow, hhigh⟩

/-! ## Steps -/

/-- A packet that does nothing. -/
theorem Inv.idle {t : Transfer} (h : t.Inv) (removed : Bool) :
    Inv { t with success := t.success || false, removed := removed } := by
  rw [Bool.or_false]
  exact ⟨⟨h.good.inside, h.good.bounded, h.good.complete⟩,
    fun hstate => ⟨(h.fresh hstate).chunks, (h.fresh hstate).written, (h.fresh hstate).transferred,
      (h.fresh hstate).nDataSize, (h.fresh hstate).success⟩,
    fun hstate => ⟨(h.receiving hstate).opened, (h.receiving hstate).file,
      (h.receiving hstate).written, (h.receiving hstate).transferred,
      (h.receiving hstate).announced, (h.receiving hstate).low, (h.receiving hstate).high,
      (h.receiving hstate).success⟩⟩

/-- What a write of `n` bytes of a packet makes of a transfer. -/
structure Wrote (t t' : Transfer) (n : ℕ) : Prop where
  stray : t'.stray = false
  success : t'.success = false
  offset : t'.offset = t.offset + n
  written : t'.written = t.offset + n
  file : ∃ file, t'.file = some file ∧
    file.length = max (t.file.getD []).length (t.offset + n) ∧
    file.take (t.offset + n) = t'.chunks.flatten

/-- **Bytes that are there and fit are written** to the end of what has come. -/
theorem wrote_call {t : Transfer} {a : Packet} (h : Receiving t) (hstray : t.stray = false)
    (hbody : a.header.nLen.toNat ≤ a.body.length) (hroom : a.header.nLen.toNat ≤ a.room) :
    Wrote t (call a t (.write a.body a.behind a.header.nLen)) a.header.nLen.toNat := by
  obtain ⟨file, hfile, hle, htake⟩ := h.file
  have hwritten : (a.body ++ a.behind).take a.header.nLen.toNat = a.body.take a.header.nLen.toNat :=
    List.take_append_of_le_length hbody
  have hlength : (a.body.take a.header.nLen.toNat).length = a.header.nLen.toNat := by
    rw [List.length_take, Nat.min_eq_left hbody]
  rw [call, if_neg (Int.not_lt.mpr h.opened), Nat.min_eq_left hroom, hwritten, hlength, hfile]
  refine ⟨?_, h.success, rfl, congrArg (· + a.header.nLen.toNat) h.written, _, rfl, ?_, ?_⟩
  · rw [hstray, decide_eq_false (Nat.not_lt.mpr hbody)]
    rfl
  · rw [File.length_writeAt hle, hlength, hfile, Option.getD_some]
  · have hnew := @File.take_writeAt _ file (a.body.take a.header.nLen.toNat) t.offset hle
    rw [hlength, htake] at hnew
    rw [hnew, List.flatten_append, List.flatten_singleton]

theorem inv_waitingAck {t : Transfer} {a : Packet} (h : t.Inv) (hstate : t.event.eState = .waitingAck)
    {t' : Transfer} (hstep : t.step a = some t') : t'.Inv := by
  have hfresh := h.fresh (.inl hstate)
  rw [step] at hstep
  split_ifs at hstep with hremoved
  cases hstep
  rw [DataEvent.processPacket, hstate]
  dsimp only
  by_cases hid : t.event.nSessionId = 0 ∧ (readP2PHeader a.bytes).1.nFlag = 0
  · rw [if_pos hid]
    cases readSessionId _ _ _ _ _ with
    | none => exact h.idle _
    | some nSessionId =>
      have hfresh' : Fresh { t with
          event := { t.event with nSessionId := nSessionId, eState := .gotSid }
          success := t.success || false
          removed := false } :=
        ⟨hfresh.chunks, hfresh.written, hfresh.transferred, hfresh.nDataSize,
          (Bool.or_false _).trans hfresh.success⟩
      exact ⟨hfresh'.good h.good.inside, fun _ => hfresh', nofun⟩
  · rw [if_neg hid]
    exact h.idle _

theorem inv_gotSid {t : Transfer} {a : Packet} (h : t.Inv) (hstate : t.event.eState = .gotSid)
    (hok : t.Ok a) {t' : Transfer} (hstep : t.step a = some t') : t'.Inv := by
  have hfresh := h.fresh (.inr hstate)
  have hfd : 0 ≤ a.fd := by
    rw [Ok, hstate] at hok
    exact hok
  rw [step] at hstep
  split_ifs at hstep with hremoved
  cases hstep
  rw [DataEvent.processPacket, hstate]
  dsimp only [List.foldl_cons, List.foldl_nil]
  rw [call, if_pos hfd]
  have hsuccess : (t.success || false) = false := by
    rw [hfresh.success]
    rfl
  refine ⟨⟨h.good.inside, ?_, fun hyes => ?_⟩, fun hother => ?_, fun _ => ⟨hfd, ?_, hfresh.written,
    ?_, fun _ => rfl, ?_, ?_, hsuccess⟩⟩
  · exact h.good.bounded
  · rw [hsuccess] at hyes
    cases hyes
  · rcases hother with hother | hother <;> cases hother
  · exact ⟨t.file.getD [], rfl, Nat.zero_le _, by rw [hfresh.chunks]; rfl⟩
  · rw [hfresh.transferred]
    rfl
  · rw [hfresh.nDataSize]
    exact Nat.two_pow_pos 32
  · rw [hfresh.nDataSize]
    exact Nat.two_pow_pos 32

/-- **Data that completes nothing.** -/
theorem Wrote.inv_more {t t' : Transfer} {n : ℕ} (hwrote : Wrote t t' n)
    {e : DataEvent} (hstate : e.eState = .recvData) (hopened : 0 ≤ e.nFileDesc)
    (htransferred : e.nBytesTransferred.toNat = t.offset + n)
    (hlow : e.nDataSize.1.toNat < 2 ^ 32) (hhigh : e.nDataSize.2.toNat < 2 ^ 32)
    (hbounded : t.offset + n ≤ total e.nDataSize)
    (hend : ¬ e.nDataSize.1 ≤ e.nBytesTransferred) (removed : Bool) :
    Inv { t' with event := e, success := t'.success || false, removed := removed } := by
  obtain ⟨file, hfile, hlength, htake⟩ := hwrote.file
  have hsuccess : (t'.success || false) = false := by
    rw [hwrote.success]
    rfl
  refine ⟨⟨hwrote.stray, ?_, fun hyes => ?_⟩, fun hother => ?_, fun _ => ⟨hopened, ?_, ?_, ?_,
    fun hnone => ?_, hlow, hhigh, hsuccess⟩⟩
  · change t'.written ≤ total e.nDataSize
    rw [hwrote.written]
    exact hbounded
  · rw [hsuccess] at hyes
    cases hyes
  · change e.eState = _ ∨ e.eState = _ at hother
    rw [hstate] at hother
    rcases hother with hother | hother <;> cases hother
  · refine ⟨file, hfile, ?_, ?_⟩
    · change t'.offset ≤ file.length
      rw [hwrote.offset, hlength]
      exact Nat.le_max_right _ _
    · change file.take t'.offset = t'.chunks.flatten
      rw [hwrote.offset, htake]
  · exact hwrote.written.trans hwrote.offset.symm
  · exact htransferred.trans hwrote.offset.symm
  · change e.nDataSize.1 = 0 at hnone
    rw [hnone] at hend
    exact absurd UInt64.zero_le hend

/-- **Data that completes the picture.** -/
theorem Wrote.inv_last {t t' : Transfer} {n : ℕ} (hwrote : Wrote t t' n)
    {e : DataEvent} (hstate : e.eState = .finished)
    (htransferred : e.nBytesTransferred.toNat = t.offset + n)
    (hbounded : t.offset + n ≤ total e.nDataSize)
    (hlast : t.offset + n = e.nDataSize.1.toNat →
      e.nDataSize.2 = 0 ∧ (t.file.getD []).length ≤ e.nDataSize.1.toNat) (removed : Bool) :
    Inv { t' with
      event := e
      success := t'.success || decide (e.nBytesTransferred = e.nDataSize.1)
      removed := removed } := by
  obtain ⟨file, hfile, hlength, htake⟩ := hwrote.file
  refine ⟨⟨hwrote.stray, ?_, fun hsuccess => ?_⟩, fun hother => ?_, fun hother => ?_⟩
  · change t'.written ≤ total e.nDataSize
    rw [hwrote.written]
    exact hbounded
  · change (t'.success || decide _) = true at hsuccess
    rw [hwrote.success, Bool.false_or] at hsuccess
    have hexact := congrArg UInt64.toNat (of_decide_eq_true hsuccess)
    rw [htransferred] at hexact
    obtain ⟨hzero, hfits⟩ := hlast hexact
    have hwhole : file.length = t.offset + n := by
      rw [hlength]
      omega
    have hflatten : file = t'.chunks.flatten :=
      (File.eq_take_of_length_le (Nat.le_of_eq hwhole)).trans htake
    change t'.file = some t'.chunks.flatten ∧ t'.chunks.flatten.length = total e.nDataSize
    rw [hfile, ← hflatten, hwhole, total, hzero, hexact]
    exact ⟨rfl, rfl⟩
  · change e.eState = _ ∨ e.eState = _ at hother
    rw [hstate] at hother
    rcases hother with hother | hother <;> cases hother
  · change e.eState = _ at hother
    rw [hstate] at hother
    cases hother

theorem inv_recvData {t : Transfer} {a : Packet} (h : t.Inv) (hstate : t.event.eState = .recvData)
    (hok : t.Ok a) {t' : Transfer} (hstep : t.step a = some t') : t'.Inv := by
  have hrecv := h.receiving hstate
  rw [step] at hstep
  split_ifs at hstep with hremoved
  cases hstep
  have hheader : (readP2PHeader a.bytes).1 = a.header := rfl
  have hbody' : (readP2PHeader a.bytes).2 = a.body := rfl
  rw [DataEvent.processPacket, hstate, hheader, hbody']
  dsimp only
  by_cases hflag : a.header.nFlag = 0x20
  · rw [Ok, hstate] at hok
    obtain ⟨hbody, hroom, htotal, hlast⟩ := hok hflag
    rw [hrecv.transferred] at htotal hlast
    obtain ⟨hlow, hhigh⟩ := sizeAfter_lt hrecv.low hrecv.high a.header
    have hwrote := wrote_call hrecv h.good.inside hbody hroom
    have htransferred : (t.event.nBytesTransferred + a.header.nLen.toUInt64).toNat
        = t.offset + a.header.nLen.toNat := by
      rw [UInt64.toNat_add, UInt32.toNat_toUInt64, hrecv.transferred]
      refine Nat.mod_eq_of_lt ?_
      rw [total] at htotal
      omega
    rw [if_neg (not_not.mpr hflag)]
    split_ifs with hend
    · simp only [List.foldl_cons, List.foldl_nil]
      refine hwrote.inv_last ?_ ?_ ?_ ?_ _
      · rfl
      · exact htransferred
      · exact htotal
      · exact hlast
    · simp only [List.foldl_cons, List.foldl_nil]
      refine hwrote.inv_more ?_ ?_ ?_ ?_ ?_ ?_ ?_ _
      · rfl
      · exact hrecv.opened
      · exact htransferred
      · exact hlow
      · exact hhigh
      · exact htotal
      · exact hend
  · rw [if_pos hflag]
    exact h.idle _

theorem inv_step {t t' : Transfer} {a : Packet} (h : t.Inv) (hok : t.Ok a)
    (hstep : t.step a = some t') : t'.Inv := by
  cases hstate : t.event.eState with
  | waitingAck => exact inv_waitingAck h hstate hstep
  | gotSid => exact inv_gotSid h hstate hok hstep
  | recvData => exact inv_recvData h hstate hok hstep
  | finished =>
    rw [step] at hstep
    split_ifs at hstep
    cases hstep
    rw [DataEvent.processPacket, hstate]
    exact h.idle _
  | closed =>
    rw [step] at hstep
    split_ifs at hstep
    cases hstep
    rw [DataEvent.processPacket, hstate]
    exact h.idle _

/-- **Main result.**  In every state of a run whose packets meet the condition, only bytes of the
packets have been written, no more than announced, and success means that the file is what they
brought. -/
theorem picture_complete (nSessionId nBaseId : UInt64) (userId fromId : UserId)
    (strCallId : List UInt8) (file : Option (List UInt8)) (as : List Packet)
    (h : Steps.Each step Ok (start nSessionId nBaseId userId fromId strCallId file) as) :
    Steps.Stays step Good (start nSessionId nBaseId userId fromId strCallId file) as :=
  Steps.Stays.mono (fun _ hinv => hinv.good)
    (Steps.stays_of_each (fun _ _ _ hinv hok hstep => inv_step hinv hok hstep)
      (inv_start nSessionId nBaseId userId fromId strCallId file) h)

instance Ok.decidable (t : Transfer) (a : Packet) : Decidable (t.Ok a) := by
  unfold Ok
  cases t.event.eState <;> infer_instance

/-- A user. -/
def carol : UserId := UserId.owner msnPpid ['c']

/-- A packet with a session id, a size, a length and a flag. -/
def packetOf (nSessionId nDataSize nLen nFlag : UInt8) (body behind : List UInt8) : Packet where
  before := []
  bytes := [nSessionId, 0, 0, 0, nDataSize, 0, nLen, nFlag, 0, 0, 0, 0].flatMap
    (fun b => [b, 0, 0, 0]) ++ body
  behind := behind
  noLine := 0
  fd := 3
  room := 100

theorem picture_complete_two : Steps.Stays step Good (start 0 5 carol carol [] (some [1]))
    [packetOf 1 0 0 0 [] [], packetOf 1 0 4 0 [] [], packetOf 1 2 1 0x20 [7] [],
      packetOf 1 2 1 0x20 [8] [], packetOf 1 0 0 0 [] []] :=
  picture_complete 0 5 carol carol [] (some [1]) _ (by decide)

/-- A longer file keeps its end, and a packet that says it has more bytes than it has is completed
from memory. -/
theorem not_picture_complete_longer :
    ¬ Steps.Stays step Good (start 0 5 carol carol [] (some [1, 2, 3]))
      [packetOf 1 0 0 0 [] [], packetOf 1 0 4 0 [] [], packetOf 1 1 1 0x20 [7] []] ∧
    ¬ Steps.Stays step Good (start 0 5 carol carol [] none)
      [packetOf 1 0 0 0 [] [], packetOf 1 0 4 0 [] [], packetOf 1 2 2 0x20 [7] [9]] := by
  constructor
  · intro h
    have hgood := ((h.2 _ rfl).2 _ rfl).2 _ rfl
    exact absurd (hgood.complete (by decide)).1 (by decide)
  · intro h
    have hgood := ((h.2 _ rfl).2 _ rfl).2 _ rfl
    exact absurd hgood.inside (by decide)

end Transfer

end Licq.Msn
