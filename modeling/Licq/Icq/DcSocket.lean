import Licq.Buffer.Basic

/-!
# Icq/DcSocket — packets of a direct connection out of its byte stream

`DcSocket::RecvPacket` of `socket.cpp` is called until the receive buffer is full, and then the
buffer holds a packet and is cleared.  What has been received of a packet is kept in the buffer
from call to call: first nothing, then the two bytes of its length in a buffer of two bytes, then
the packet in a buffer of its own size.

A buffer that holds one byte of the length is full as well, because the buffer is created for what
the first `recv` returns.  The **main result** `framing_iff` says that this is all that can go
wrong: the packets come out as they were sent exactly if no `recv` ends after the first byte of a
packet.
-/

open Wire

namespace Licq

open List Buffer

/-! ## The socket -/

/-- A packet of a direct connection, without the two bytes of its length. -/
structure DcPacket where
  body : List UInt8
  size_lt : body.length < 2 ^ 16

/-- The packet as it is sent. -/
def DcPacket.wire (p : DcPacket) : List UInt8 := bytesLE 2 p.body.length ++ p.body

/-- Packets sent one after the other. -/
def wireAll (packets : List DcPacket) : List UInt8 := packets.flatMap DcPacket.wire

/-- A socket: its receive buffer, and what the peer has sent and it has not received. -/
structure DcSocket where
  myRecvBuffer : Buffer
  stream : List UInt8

/-- What `recv` returns within one call of `RecvPacket`, for the length and for the rest of the
packet: the bytes that have arrived, of which it takes no more than it was asked for, or an
error. -/
structure Arrivals where
  header : Option ℕ
  body : Option ℕ

namespace DcSocket

/-- `INetSocket::receive` into the receive buffer; none where it returns false. -/
def receive (arrived : Option ℕ) (maxlength : ℕ) (s : DcSocket) : Option DcSocket :=
  if s.myRecvBuffer.full then some s
  else
    let maxlength :=
      if !s.myRecvBuffer.empty && s.myRecvBuffer.remainingDataToWrite < maxlength then
        s.myRecvBuffer.remainingDataToWrite
      else maxlength
    match arrived with
    | none => none
    | some k =>
      let bytes := s.stream.take (min k maxlength)
      if bytes = [] then some s
      else
        let buf :=
          if s.myRecvBuffer.empty then s.myRecvBuffer.create bytes.length else s.myRecvBuffer
        some ⟨buf.packRaw bytes, s.stream.drop bytes.length⟩

/-- The second half of `RecvPacket`, once the buffer has the size of the packet. -/
def recvBody (r : Arrivals) (s : DcSocket) : Option DcSocket :=
  receive r.body s.myRecvBuffer.remainingDataToWrite s

/-- `DcSocket::RecvPacket`; none where it returns false. -/
def recvPacket (r : Arrivals) (s : DcSocket) : Option DcSocket :=
  if s.myRecvBuffer.full then some s
  else if s.myRecvBuffer.empty || s.myRecvBuffer.getDataSize < 2 then
    match receive r.header 2 s with
    | none => none
    | some s =>
      if s.myRecvBuffer.getDataSize < 2 then some s
      else
        let (length, buf) := s.myRecvBuffer.unpackUInt16LE
        if length = 0 then some { s with myRecvBuffer := buf }
        else recvBody r
          { s with myRecvBuffer := (buf.create (length.toNat + 2)).packUInt16LE length }
  else recvBody r s

/-- What a caller of `RecvPacket` has received, and the socket as it leaves it. -/
structure Session where
  received : List (List UInt8)
  sock : DcSocket

/-- The callers' loop: a full buffer is a packet and is cleared, and an error ends the
connection. -/
def receiveAll : List Arrivals → DcSocket → Session
  | [], s => ⟨[], s⟩
  | r :: rs, s =>
    match recvPacket r s with
    | none => ⟨[], s⟩
    | some s' =>
      if s'.myRecvBuffer.full then
        let session := receiveAll rs ⟨Buffer.clear, s'.stream⟩
        ⟨s'.myRecvBuffer.data :: session.received, session.sock⟩
      else receiveAll rs s'

/-- **The packets come out as they were sent**: what has been received is the first of them, no
byte is lost or doubled, and once the stream has been read they are all there. -/
def Framing (packets : List DcPacket) (calls : List Arrivals) : Prop :=
  let session := receiveAll calls ⟨Buffer.clear, wireAll packets⟩
  (∃ n, session.received = (packets.take n).map DcPacket.wire) ∧
    session.received.flatten ++ (session.sock.myRecvBuffer.data ++ session.sock.stream) =
      wireAll packets ∧
    (session.sock.stream = [] → session.received = packets.map DcPacket.wire)

/-- A call that begins a packet and of which `recv` returns one byte. -/
def HalfHeader (r : Arrivals) (s : DcSocket) : Prop :=
  s.myRecvBuffer.empty = true ∧ s.stream ≠ [] ∧ r.header = some 1

/-- No call of the session is one of these. -/
def NoHalfHeader : List Arrivals → DcSocket → Prop
  | [], _ => True
  | r :: rs, s => ¬HalfHeader r s ∧ ∀ s', recvPacket r s = some s' →
      NoHalfHeader rs (if s'.myRecvBuffer.full then ⟨Buffer.clear, s'.stream⟩ else s')

/-! ## The state between two calls -/

/-- The buffer has the size of a packet and holds its length and a part of it, and the rest is to
come. -/
structure InPacket (p : DcPacket) (ps : List DcPacket) (s : DcSocket) : Prop where
  allocated : s.myRecvBuffer.allocated = true
  maxSize : s.myRecvBuffer.maxSize = p.wire.length
  header : 2 ≤ s.myRecvBuffer.data.length
  bytes : s.myRecvBuffer.data ++ s.stream = p.wire ++ wireAll ps

/-- The socket between two packets, or in the middle of the first of the ones to come. -/
def Framed (packets : List DcPacket) (s : DcSocket) : Prop :=
  s = ⟨Buffer.clear, wireAll packets⟩ ∨
    ∃ p ps, packets = p :: ps ∧ InPacket p ps s ∧ s.myRecvBuffer.full = false

theorem length_wire (p : DcPacket) : p.wire.length = p.body.length + 2 := by
  rw [DcPacket.wire, length_append, length_bytesLE]
  omega

theorem wireAll_cons (p : DcPacket) (ps : List DcPacket) :
    wireAll (p :: ps) = p.wire ++ wireAll ps := flatMap_cons

variable {p : DcPacket} {ps : List DcPacket} {s s' : DcSocket}

theorem InPacket.full_iff (h : InPacket p ps s) :
    s.myRecvBuffer.full = true ↔ s.myRecvBuffer.data = p.wire ∧ s.stream = wireAll ps := by
  have hle := s.myRecvBuffer.data_le
  rw [Buffer.full_iff, h.maxSize]
  rw [h.maxSize] at hle
  constructor
  · intro hlen
    exact append_inj h.bytes (Nat.le_antisymm hle hlen.2)
  · intro hdata
    exact ⟨h.allocated, le_of_eq (congrArg List.length hdata.1.symm)⟩

/-- What is in the buffer and what is to come are the packets to come. -/
theorem Framed.bytes {packets : List DcPacket} (h : Framed packets s) :
    s.myRecvBuffer.data ++ s.stream = wireAll packets := by
  obtain rfl | ⟨p, ps, rfl, hin, -⟩ := h
  · rfl
  · rw [hin.bytes, wireAll_cons]

/-- Where nothing is to come no packet is. -/
theorem Framed.eq_nil {packets : List DcPacket} (h : Framed packets s)
    (hs : s.stream = []) : packets = [] := by
  obtain rfl | ⟨p, ps, rfl, hin, hfull⟩ := h
  · cases packets with
    | nil => rfl
    | cons p ps =>
      have hlen := congrArg List.length hs
      rw [wireAll_cons, length_append, length_wire, length_nil] at hlen
      omega
  · have hbytes := congrArg List.length hin.bytes
    have hlt : ¬s.myRecvBuffer.maxSize ≤ s.myRecvBuffer.data.length := fun hle =>
      Bool.false_ne_true (hfull.symm.trans (full_iff.mpr ⟨hin.allocated, hle⟩))
    rw [hs, append_nil, length_append] at hbytes
    rw [hin.maxSize] at hlt
    omega

/-! ## One call -/

/-- The bytes that a `recv` has returned go from the stream to a buffer that has memory. -/
theorem receive_allocated {arrived : Option ℕ}
    (h : s.myRecvBuffer.allocated = true)
    (hs' : receive arrived s.myRecvBuffer.remainingDataToWrite s = some s') :
    s'.myRecvBuffer.allocated = true ∧ s'.myRecvBuffer.maxSize = s.myRecvBuffer.maxSize ∧
      s'.myRecvBuffer.posRead = s.myRecvBuffer.posRead ∧
      s.myRecvBuffer.data.length ≤ s'.myRecvBuffer.data.length ∧
      s'.myRecvBuffer.data ++ s'.stream = s.myRecvBuffer.data ++ s.stream := by
  rw [DcSocket.receive] at hs'
  have hempty : s.myRecvBuffer.empty = false := by rw [empty, h]; rfl
  split at hs'
  · cases hs'
    exact ⟨h, rfl, rfl, Nat.le_refl _, rfl⟩
  · simp only [lt_irrefl, decide_false, Bool.and_false, Bool.false_eq_true, if_false] at hs'
    cases arrived with
    | none => cases hs'
    | some k =>
      simp only [hempty, Bool.false_eq_true, if_false] at hs'
      split at hs'
      · cases hs'
        exact ⟨h, rfl, rfl, Nat.le_refl _, rfl⟩
      · cases hs'
        have hfit : (s.stream.take (min k s.myRecvBuffer.remainingDataToWrite)).length ≤
            s.myRecvBuffer.remainingDataToWrite := by
          rw [length_take]
          omega
        refine ⟨?_, ?_, ?_, ?_, ?_⟩
        · rw [packRaw_allocated, h]
        · rw [packRaw_maxSize]
        · rw [packRaw_posRead]
        · rw [packRaw_data hfit, length_append]
          exact Nat.le_add_right _ _
        · rw [packRaw_data hfit, append_assoc]
          congr 1
          exact prefix_iff_eq_append.mp (List.take_prefix _ _)

theorem InPacket.receive
    {arrived : Option ℕ} (h : InPacket p ps s)
    (hs' : receive arrived s.myRecvBuffer.remainingDataToWrite s = some s') : InPacket p ps s' := by
  obtain ⟨halloc, hsize, -, hle, hbytes⟩ := receive_allocated h.allocated hs'
  exact ⟨halloc, hsize.trans h.maxSize, h.header.trans hle, hbytes.trans h.bytes⟩

theorem InPacket.recvBody {r : Arrivals}
    (h : InPacket p ps s) (hs' : recvBody r s = some s') : InPacket p ps s' :=
  h.receive hs'

/-- The first bytes of a packet create the buffer that holds them. -/
theorem receive_clear (k : ℕ) (stream : List UInt8) :
    receive (some k) 2 ⟨Buffer.clear, stream⟩ =
      if stream.take (min k 2) = [] then some ⟨Buffer.clear, stream⟩
      else some ⟨(Buffer.clear.create (stream.take (min k 2)).length).packRaw
        (stream.take (min k 2)), stream.drop (stream.take (min k 2)).length⟩ := by
  have hfull : clear.full = false := rfl
  have hempty : clear.empty = true := rfl
  simp only [receive, hfull, hempty, Bool.not_true, Bool.false_and, Bool.false_eq_true, if_false,
    if_true]

/-- The buffer created for the bytes received holds them and is full. -/
theorem create_packRaw {bytes : List UInt8} (h : bytes ≠ []) :
    ((Buffer.clear.create bytes.length).packRaw bytes).data = bytes ∧
      ((Buffer.clear.create bytes.length).packRaw bytes).full = true := by
  have hsize : (clear.create bytes.length).maxSize = bytes.length :=
    create_maxSize _ (length_pos_iff.mpr h).ne'
  have hroom : (clear.create bytes.length).remainingDataToWrite = bytes.length := hsize
  have hdata := packRaw_data (b := clear.create bytes.length) (le_of_eq hroom.symm)
  refine ⟨hdata, full_iff.mpr ⟨?_, ?_⟩⟩
  · rw [packRaw_allocated]
    rfl
  · rw [packRaw_maxSize, hdata, hsize]
    exact le_refl _

theorem create_packRaw_fields {bytes : List UInt8} (h : bytes ≠ []) :
    let buf := (Buffer.clear.create bytes.length).packRaw bytes
    buf.data = bytes ∧ buf.full = true ∧ buf.posRead = 0 ∧ buf.maxSize = bytes.length ∧
      buf.allocated = true := by
  obtain ⟨hdata, hfull⟩ := create_packRaw h
  refine ⟨hdata, hfull, ?_, ?_, ?_⟩
  · rw [packRaw_posRead]
    rfl
  · rw [packRaw_maxSize, create_maxSize _ (length_pos_iff.mpr h).ne']
  · rw [packRaw_allocated]
    rfl

/-! ## One call, whatever the peer sends -/

/-- The buffer has the size that the first two bytes give, and holds these and more of the bytes that
the peer has sent. -/
structure InBytes (bytes : List UInt8) (s : DcSocket) : Prop where
  allocated : s.myRecvBuffer.allocated = true
  maxSize : s.myRecvBuffer.maxSize = valueLE (bytes.take 2) + 2
  header : 2 ≤ s.myRecvBuffer.data.length
  bytes : s.myRecvBuffer.data ++ s.stream = bytes
  posRead : s.myRecvBuffer.posRead = 0 ∨
    s.myRecvBuffer.posRead = 2 ∧ s.myRecvBuffer.maxSize = 2

/-- The buffer is full with the only byte that a `recv` has returned. -/
structure OneByte (bytes : List UInt8) (s : DcSocket) : Prop where
  full : s.myRecvBuffer.full = true
  length : s.myRecvBuffer.data.length = 1
  bytes : s.myRecvBuffer.data ++ s.stream = bytes
  posRead : s.myRecvBuffer.posRead = 0

section Bytes

variable {bytes : List UInt8} {s s' : DcSocket} {r : Arrivals}

theorem InBytes.recvBody (h : InBytes bytes s) (hs' : recvBody r s = some s') :
    InBytes bytes s' := by
  obtain ⟨halloc, hsize, hpos, hle, hbytes⟩ := receive_allocated h.allocated hs'
  exact ⟨halloc, hsize.trans h.maxSize, h.header.trans hle, hbytes.trans h.bytes, by
    rw [hpos, hsize]
    exact h.posRead⟩

theorem unpackUInt16LE_two {b : Buffer} (hlen : b.data.length = 2) (hpos : b.posRead = 0) :
    b.unpackUInt16LE.1.toNat = valueLE b.data := by
  have hread : 2 ≤ b.remainingDataToRead := by
    rw [remainingDataToRead, hlen, hpos]
  have hlt := valueLE_lt b.data
  rw [hlen] at hlt
  simp only [unpackUInt16LE]
  rw [(unpack_of_le hread).1, hpos, drop_zero, take_of_length_le (le_of_eq hlen),
    UInt16.toNat_ofNat']
  omega

/-- Once the two bytes have been read, the buffer gets the size that they give. -/
theorem inBytes_create (b : Buffer) {header : List UInt8} (hlen : header.length = 2)
    (rest : List UInt8) :
    InBytes (header ++ rest) ⟨(b.create (valueLE header + 2)).packRaw header, rest⟩ := by
  have hsize := b.create_maxSize (Nat.succ_ne_zero (valueLE header + 1))
  have hroom : header.length ≤ (b.create (valueLE header + 2)).remainingDataToWrite := by
    rw [remainingDataToWrite, hsize, hlen]
    exact Nat.le_add_left _ _
  have hdata := packRaw_data hroom
  refine ⟨?_, ?_, ?_, ?_, .inl ?_⟩
  · rw [packRaw_allocated]
    rfl
  · rw [packRaw_maxSize, hsize, take_left' hlen]
  · rw [hdata]
    exact le_of_eq hlen.symm
  · rw [hdata]
    rfl
  · rw [packRaw_posRead]
    rfl

/-- **A call that begins a packet**: nothing has arrived, or one byte only, or the packet has been
begun. -/
theorem recvPacket_start (hs' : recvPacket r ⟨Buffer.clear, bytes⟩ = some s') :
    s' = ⟨Buffer.clear, bytes⟩ ∨
      (r.header = some 1 ∨ bytes.length = 1) ∧ OneByte bytes s' ∨ InBytes bytes s' := by
  have hfull : clear.full = false := rfl
  have hempty : clear.empty = true := rfl
  have hsize : clear.getDataSize < 2 := Nat.two_pos
  simp only [recvPacket, hfull, hempty, Bool.true_or, Bool.false_eq_true, if_false, if_true] at hs'
  generalize r.header = arrived at hs'
  cases arrived with
  | none => cases hs'
  | some k =>
    rw [receive_clear] at hs'
    obtain ⟨header, hheader⟩ : ∃ header, header = bytes.take (min k 2) := ⟨_, rfl⟩
    have hcut : header ++ bytes.drop header.length = bytes :=
      prefix_iff_eq_append.mp (hheader ▸ take_prefix _ _)
    have hlen : header.length = min (min k 2) bytes.length := hheader ▸ length_take
    rw [← hheader] at hs'
    by_cases hnil : header = []
    · simp only [hnil, if_true, hsize] at hs'
      cases hs'
      exact .inl rfl
    · have hcreate := create_packRaw_fields hnil
      rw [if_neg hnil] at hs'
      generalize (clear.create header.length).packRaw header = buf at hs' hcreate
      obtain ⟨hdata, hbuf, hpos, hmax, halloc⟩ := hcreate
      have hne := length_pos_iff.mpr hnil
      rcases (by omega : header.length = 1 ∨ header.length = 2) with hone | htwo
      · simp only [getDataSize, hdata, hone, Nat.one_lt_two, if_true] at hs'
        cases hs'
        refine .inr (.inl ⟨?_, hbuf, hdata ▸ hone, ?_, hpos⟩)
        · rcases (by omega : k = 1 ∨ bytes.length = 1) with rfl | hbytes
          · exact .inl rfl
          · exact .inr hbytes
        · rw [hdata, ← hone, hcut]
      · have hvalue := unpackUInt16LE_two (hdata ▸ htwo) hpos
        rw [hdata] at hvalue
        simp only [getDataSize, hdata, htwo, lt_irrefl, if_false] at hs'
        rw [htwo] at hcut
        split at hs'
        · rename_i hzero
          cases hs'
          rw [hzero] at hvalue
          have hvalue : valueLE header = 0 := hvalue.symm
          refine .inr (.inr ⟨?_, ?_, ?_, ?_, .inr ⟨?_, ?_⟩⟩)
          · exact (unpack_allocated buf 2).trans halloc
          · rw [← hcut, take_left' htwo, hvalue]
            exact (unpack_maxSize buf 2).trans (hmax.trans htwo)
          · rw [unpackUInt16LE, unpack_data, hdata, htwo]
          · rw [unpackUInt16LE, unpack_data, hdata, hcut]
          · have hread : 2 ≤ buf.remainingDataToRead := by
              rw [remainingDataToRead, hdata, htwo, hpos]
            exact (unpack_of_le hread).2.trans (by rw [hpos])
          · exact (unpack_maxSize buf 2).trans (hmax.trans htwo)
        · have hbytes : bytesLE 2 (valueLE header) = header := htwo ▸ bytesLE_valueLE header
          rw [packUInt16LE, hvalue, hbytes] at hs'
          refine .inr (.inr (InBytes.recvBody ?_ hs'))
          have hin := inBytes_create buf htwo (bytes.drop 2)
          rwa [hcut] at hin

/-- Nothing of these bytes has been received, or a packet of them has been begun. -/
def Reading (bytes : List UInt8) (s : DcSocket) : Prop :=
  s = ⟨Buffer.clear, bytes⟩ ∨ InBytes bytes s ∧ s.myRecvBuffer.full = false

/-- A packet of these bytes has been received, or what is taken for one. -/
def Received (bytes : List UInt8) (s : DcSocket) : Prop :=
  OneByte bytes s ∨ InBytes bytes s ∧ s.myRecvBuffer.full = true

/-- **One call**, whatever the peer has sent. -/
theorem Reading.recvPacket (h : Reading bytes s) (hs' : recvPacket r s = some s') :
    s'.myRecvBuffer.full = false ∧ Reading bytes s' ∨
      s'.myRecvBuffer.full = true ∧ Received bytes s' := by
  have hin : InBytes bytes s' → s'.myRecvBuffer.full = false ∧ Reading bytes s' ∨
      s'.myRecvBuffer.full = true ∧ Received bytes s' := by
    intro hin
    cases hfull : s'.myRecvBuffer.full with
    | false => exact .inl ⟨rfl, .inr ⟨hin, hfull⟩⟩
    | true => exact .inr ⟨rfl, .inr ⟨hin, hfull⟩⟩
  obtain rfl | ⟨hbytes, hfull⟩ := h
  · obtain rfl | ⟨-, hone⟩ | hbytes := recvPacket_start hs'
    · exact .inl ⟨rfl, .inl rfl⟩
    · exact .inr ⟨hone.full, .inl hone⟩
    · exact hin hbytes
  · rw [DcSocket.recvPacket, if_neg (by rw [hfull]; exact Bool.false_ne_true)] at hs'
    have hempty : s.myRecvBuffer.empty = false := by rw [empty, hbytes.allocated]; rfl
    have hsize : ¬s.myRecvBuffer.getDataSize < 2 := Nat.not_lt.mpr hbytes.header
    simp only [hempty, hsize, decide_false, Bool.or_false, Bool.false_eq_true, if_false] at hs'
    exact hin (hbytes.recvBody hs')

/-- The peer sends more. -/
theorem Reading.append (h : Reading bytes s) (more : List UInt8) :
    Reading (bytes ++ more) ⟨s.myRecvBuffer, s.stream ++ more⟩ := by
  obtain rfl | ⟨hbytes, hfull⟩ := h
  · exact .inl rfl
  · have hlen : 2 ≤ bytes.length := by
      rw [← hbytes.bytes, length_append]
      exact Nat.le_add_right_of_le hbytes.header
    refine .inr ⟨⟨hbytes.allocated, ?_, hbytes.header, ?_, hbytes.posRead⟩, hfull⟩
    · rw [take_append_of_le_length hlen, hbytes.maxSize]
    · rw [← append_assoc, hbytes.bytes]

end Bytes

section

variable {p : DcPacket} {ps : List DcPacket} {r : Arrivals}

theorem wireAll_header (p : DcPacket) (ps : List DcPacket) :
    wireAll (p :: ps) = bytesLE 2 p.body.length ++ (p.body ++ wireAll ps) := by
  rw [wireAll_cons, DcPacket.wire, append_assoc]

/-- A call of which `recv` returns one byte of a length fills the buffer with it. -/
theorem recvPacket_one (hone : r.header = some 1) (p : DcPacket) (ps : List DcPacket) :
    ∃ s', recvPacket r ⟨Buffer.clear, wireAll (p :: ps)⟩ = some s' ∧
      s'.myRecvBuffer.full = true ∧ s'.myRecvBuffer.data.length = 1 := by
  have hlen := length_bytesLE 2 p.body.length
  have htake : (wireAll (p :: ps)).take (min 1 2) = (bytesLE 2 p.body.length).take 1 := by
    rw [wireAll_header, take_append_of_le_length (by omega)]
    rfl
  have hbyte : ((bytesLE 2 p.body.length).take 1).length = 1 := by
    rw [length_take]
    omega
  have hne : (bytesLE 2 p.body.length).take 1 ≠ [] := ne_nil_of_length_eq_add_one hbyte
  have hfull : clear.full = false := rfl
  have hempty : clear.empty = true := rfl
  obtain ⟨hdata, hbuf⟩ := create_packRaw hne
  simp only [recvPacket, hfull, hempty, Bool.true_or, Bool.false_eq_true, if_false, if_true, hone]
  rw [receive_clear, htake, if_neg hne]
  generalize (clear.create ((bytesLE 2 p.body.length).take 1).length).packRaw
    ((bytesLE 2 p.body.length).take 1) = buf at hdata hbuf ⊢
  simp only [getDataSize, hdata, hbyte, Nat.one_lt_two, if_true]
  exact ⟨_, rfl, hbuf, hdata ▸ hbyte⟩

variable {s s' : DcSocket} {packets : List DcPacket}

/-- The size that a packet gives is its own. -/
theorem InBytes.inPacket (h : InBytes (wireAll (p :: ps)) s) : InPacket p ps s := by
  have hlt := p.size_lt
  have hvalue : valueLE ((wireAll (p :: ps)).take 2) = p.body.length := by
    rw [wireAll_header, take_left' (length_bytesLE 2 _), valueLE_bytesLE]
    omega
  refine ⟨h.allocated, ?_, h.header, h.bytes.trans (wireAll_cons p ps)⟩
  rw [h.maxSize, hvalue, length_wire]

/-- **A call between two packets**: one byte of the length has arrived, or nothing, or the packet
has been begun. -/
theorem recvPacket_clear (hone : r.header ≠ some 1)
    (hs' : recvPacket r ⟨Buffer.clear, wireAll (p :: ps)⟩ = some s') :
    s' = ⟨Buffer.clear, wireAll (p :: ps)⟩ ∨ InPacket p ps s' := by
  obtain hnone | ⟨hheader | hlen, -⟩ | hin := recvPacket_start hs'
  · exact .inl hnone
  · exact absurd hheader hone
  · rw [wireAll_cons, length_append, length_wire] at hlen
    omega
  · exact .inr hin.inPacket

/-- Where nothing is to come, a call between two packets does nothing. -/
theorem recvPacket_nil (hs' : recvPacket r ⟨Buffer.clear, []⟩ = some s') :
    s' = ⟨Buffer.clear, []⟩ := by
  obtain hnone | ⟨-, hone⟩ | hin := recvPacket_start hs'
  · exact hnone
  · have hlen := hone.length
    rw [(append_eq_nil_iff.mp hone.bytes).1] at hlen
    cases hlen
  · have hheader := hin.header
    rw [(append_eq_nil_iff.mp hin.bytes).1] at hheader
    exact absurd hheader (by decide)

/-- A call in the middle of a packet. -/
theorem InPacket.recvPacket (h : InPacket p ps s)
    (hs' : recvPacket r s = some s') : InPacket p ps s' := by
  rw [DcSocket.recvPacket] at hs'
  have hempty : s.myRecvBuffer.empty = false := by rw [empty, h.allocated]; rfl
  have hsize : ¬s.myRecvBuffer.getDataSize < 2 := Nat.not_lt.mpr h.header
  simp only [hempty, hsize, decide_false, Bool.or_false, Bool.false_eq_true, if_false] at hs'
  split at hs'
  · cases hs'
    exact h
  · exact h.recvBody hs'

/-- **One call** keeps the socket framed or completes the first packet to come. -/
theorem Framed.recvPacket (h : Framed packets s)
    (hone : ¬HalfHeader r s) (hs' : recvPacket r s = some s') :
    s'.myRecvBuffer.full = false ∧ Framed packets s' ∨ s'.myRecvBuffer.full = true ∧
      ∃ p ps, packets = p :: ps ∧ s'.myRecvBuffer.data = p.wire ∧ s'.stream = wireAll ps := by
  have hin : ∀ p ps, packets = p :: ps → InPacket p ps s' →
      s'.myRecvBuffer.full = false ∧ Framed packets s' ∨ s'.myRecvBuffer.full = true ∧
        ∃ p ps, packets = p :: ps ∧ s'.myRecvBuffer.data = p.wire ∧ s'.stream = wireAll ps := by
    intro p ps hpackets hin
    cases hfull : s'.myRecvBuffer.full with
    | false => exact .inl ⟨rfl, .inr ⟨p, ps, hpackets, hin, hfull⟩⟩
    | true => exact .inr ⟨rfl, p, ps, hpackets, hin.full_iff.mp hfull⟩
  obtain rfl | ⟨p, ps, rfl, hpacket, -⟩ := h
  · cases packets with
    | nil =>
      rw [recvPacket_nil hs']
      exact .inl ⟨rfl, .inl rfl⟩
    | cons p ps =>
      have hheader : r.header ≠ some 1 := by
        intro hheader
        refine hone ⟨rfl, ?_, hheader⟩
        rw [wireAll_header]
        exact append_ne_nil_of_left_ne_nil (ne_nil_of_length_eq_add_one
          (length_bytesLE 2 p.body.length)) _
      obtain rfl | hpacket := recvPacket_clear hheader hs'
      · exact .inl ⟨rfl, .inl rfl⟩
      · exact hin p ps rfl hpacket
  · exact hin p ps rfl (hpacket.recvPacket hs')

/-! ## The whole session -/

/-- Without half headers the packets come out one by one. -/
theorem receiveAll_of_noHalfHeader (h : Framed packets s)
    {calls : List Arrivals} (hcalls : NoHalfHeader calls s) :
    ∃ n, (receiveAll calls s).received = (packets.take n).map DcPacket.wire ∧
      Framed (packets.drop n) (receiveAll calls s).sock := by
  induction calls generalizing packets s with
  | nil => exact ⟨0, rfl, h⟩
  | cons r rs ih =>
    obtain ⟨hone, hrest⟩ := hcalls
    rw [receiveAll]
    split
    · exact ⟨0, rfl, h⟩
    · rename_i s' hs'
      have hnext := hrest s' hs'
      obtain ⟨hfull, hframed⟩ | ⟨hfull, p, ps, rfl, hdata, hstream⟩ := h.recvPacket hone hs'
      · rw [hfull] at hnext ⊢
        exact ih hframed hnext
      · rw [hfull, if_pos rfl, hstream] at hnext
        obtain ⟨n, hreceived, hframed⟩ := ih (.inl rfl) hnext
        refine ⟨n + 1, ?_, ?_⟩
        · simp only [hfull, if_true, hdata, hstream, hreceived, take_succ_cons, map_cons]
        · simpa only [hfull, if_true, hstream, drop_succ_cons] using hframed

/-- Packets that come out as they were sent were not begun with a half header. -/
theorem noHalfHeader_of_receiveAll (h : Framed packets s)
    {calls : List Arrivals} {n : ℕ}
    (hreceived : (receiveAll calls s).received = (packets.take n).map DcPacket.wire) :
    NoHalfHeader calls s := by
  induction calls generalizing packets s n with
  | nil => trivial
  | cons r rs ih =>
    have hone : ¬HalfHeader r s := by
      rintro ⟨hempty, hstream, hheader⟩
      obtain rfl | ⟨p, ps, -, hin, -⟩ := h
      · cases packets with
        | nil => exact hstream rfl
        | cons p ps =>
          obtain ⟨s', hs', hfull, hlen⟩ := recvPacket_one hheader p ps
          rw [receiveAll, hs'] at hreceived
          simp only [hfull, if_true] at hreceived
          cases n with
          | zero => cases hreceived
          | succ n =>
            have hhead := congrArg List.length (cons_eq_cons.mp hreceived).1
            rw [hlen, length_wire] at hhead
            omega
      · rw [empty, hin.allocated] at hempty
        cases hempty
    refine ⟨hone, fun s' hs' => ?_⟩
    rw [receiveAll, hs'] at hreceived
    obtain ⟨hfull, hframed⟩ | ⟨hfull, p, ps, rfl, hdata, hstream⟩ := h.recvPacket hone hs'
    · simp only [hfull, Bool.false_eq_true, if_false] at hreceived ⊢
      exact ih hframed hreceived
    · simp only [hfull, if_true, hstream] at hreceived ⊢
      cases n with
      | zero => cases hreceived
      | succ n => exact ih (.inl rfl) (cons_eq_cons.mp hreceived).2

/-- **Exactly when the packets come out as they were sent**: no `recv` that begins a packet returns
the first byte of its length alone. -/
theorem framing_iff (packets : List DcPacket) (calls : List Arrivals) :
    Framing packets calls ↔ NoHalfHeader calls ⟨Buffer.clear, wireAll packets⟩ := by
  constructor
  · rintro ⟨⟨n, hreceived⟩, -⟩
    exact noHalfHeader_of_receiveAll (.inl rfl) hreceived
  · intro hcalls
    obtain ⟨n, hreceived, hframed⟩ := receiveAll_of_noHalfHeader (.inl rfl) hcalls
    refine ⟨⟨n, hreceived⟩, ?_, fun hstream => ?_⟩
    · rw [hreceived, hframed.bytes, ← List.flatMap_def, wireAll, wireAll, ← List.flatMap_append,
        List.take_append_drop]
    · rw [hreceived, List.take_of_length_le (List.drop_eq_nil_iff.mp (hframed.eq_nil hstream))]

/-- A packet of one byte of which `recv` first returns one byte, then all that is there. -/
theorem not_framing_oneByte :
    ¬Framing [⟨[7], by decide⟩] [⟨some 1, some 1⟩, ⟨some 2, some 9⟩] := by
  rintro ⟨⟨n, hn⟩, -⟩
  have hreceived : (receiveAll [⟨some 1, some 1⟩, ⟨some 2, some 9⟩]
      ⟨Buffer.clear, wireAll [⟨[7], by decide⟩]⟩).received = [[1]] := by decide +kernel
  rw [hreceived] at hn
  cases n with
  | zero => cases hn
  | succ n => exact absurd (List.cons_eq_cons.mp hn).1 (by decide)

end

end DcSocket

end Licq
