import Mathlib.Data.List.GetD
import Licq.Buffer.Basic
import Licq.Wire.Framing

/-!
# Icq/SrvSocket — packets from the server

`SrvSocket::receiveFlap` reads the six bytes of a header and then as many bytes as the header says,
each in a loop over what `read` gives it.  A read that is interrupted fails the first loop; the
second one goes on, but moves its write position by the -1 that `read` returned.

The **main result** `receiveFlaps_exact` is about any number of calls, with any outcome of every
read but an interruption: what they return is, in turn, what `flap` cuts off the stream.
-/

open Wire

namespace Licq

open List Buffer

/-! ## Frames -/

/-- The length of the body in a header. -/
def flapLength (q : List UInt8) : ℕ := (q.getD 5 0).toNat + (q.getD 4 0).toNat * 2 ^ 8

/-- The first packet of a stream: the start code, a header of six bytes and its body. -/
def nextFlap (q : List UInt8) : Option (List UInt8 × List UInt8) :=
  if 6 + flapLength q ≤ q.length ∧ q.head? = some 0x2a then
    some (q.take (6 + flapLength q), q.drop (6 + flapLength q))
  else none

theorem nextFlap_eq_some {q b r : List UInt8} (h : nextFlap q = some (b, r)) :
    6 + flapLength q ≤ q.length ∧ q.head? = some 0x2a ∧ b = q.take (6 + flapLength q) ∧
      r = q.drop (6 + flapLength q) := by
  obtain ⟨⟨hlength, hhead⟩, hsome⟩ := Option.ite_none_right_eq_some.mp h
  cases hsome
  exact ⟨hlength, hhead, rfl, rfl⟩

theorem flapLength_append {q : List UInt8} (h : 6 ≤ q.length) (x : List UInt8) :
    flapLength (q ++ x) = flapLength q := by
  rw [flapLength, flapLength, getD_append _ _ _ _ (by omega),
    getD_append _ _ _ _ (by omega)]

/-- The framing of the streams of the server. -/
def flap : Framing UInt8 (List UInt8) where
  next := nextFlap
  shrinks := by
    intro q b r h
    obtain ⟨hlength, -, -, rfl⟩ := nextFlap_eq_some h
    rw [List.length_drop]
    omega
  stable := by
    intro q b r x h
    obtain ⟨hlength, hhead, rfl, rfl⟩ := nextFlap_eq_some h
    have hheadx : (q ++ x).head? = some 0x2a := by rw [List.head?_append, hhead, Option.some_or]
    rw [nextFlap, flapLength_append (by omega), if_pos ⟨by rw [List.length_append]; omega, hheadx⟩,
      List.take_append_of_le_length hlength, List.drop_append_of_le_length hlength]

/-! ## Reading -/

/-- How a `read` ends: with some bytes (`bytes n` gives one more than `n` of them, or as many as are
wanted or have arrived), with 0 because the connection is closed, with -1 because of a signal
(`EINTR`), or with -1 and another error. -/
inductive ReadOutcome
  | bytes (n : ℕ)
  | closed
  | interrupted
  | failed
  deriving DecidableEq, Repr

/-- How a call ends: with a value and what remains of the stream and of the outcomes, with an error
(of a read, or because of a bad start code), with the write position before the start of the
buffer, or in a read that does not end. -/
inductive Received (α : Type)
  | value (a : α) (stream : List UInt8) (reads : List ReadOutcome)
  | error (read : Option ReadOutcome)
  | outside
  | waiting

/-- `buf.incDataPosWrite(-1)`; none where that leaves the buffer. -/
def Buffer.decDataPosWrite (b : Buffer) : Option Buffer :=
  if h : b.posRead < b.data.length then
    some { b with
      data := b.data.dropLast
      data_le := (List.length_dropLast ▸ Nat.sub_le _ _).trans b.data_le
      posRead_le := by rw [List.length_dropLast]; omega }
  else none

/-- The loop that reads the header. -/
def readHeader : List ReadOutcome → List UInt8 → List UInt8 → Received (List UInt8)
  | [], stream, buffer => if buffer.length = 6 then .value buffer stream [] else .waiting
  | o :: reads, stream, buffer =>
    if buffer.length = 6 then .value buffer stream (o :: reads)
    else match o with
      | .bytes n =>
        if stream = [] then .waiting
        else readHeader reads (stream.drop (min (n + 1) (6 - buffer.length)))
          (buffer ++ stream.take (min (n + 1) (6 - buffer.length)))
      | o => .error (some o)

/-- The loop that reads the body. -/
def readBody : List ReadOutcome → List UInt8 → Buffer → Received Buffer
  | [], stream, buf => if buf.full then .value buf stream [] else .waiting
  | o :: reads, stream, buf =>
    if buf.full then .value buf stream (o :: reads)
    else match o with
      | .bytes n =>
        if stream = [] then .waiting
        else readBody reads (stream.drop (min (n + 1) buf.remainingDataToWrite))
          (buf.packRaw (stream.take (min (n + 1) buf.remainingDataToWrite)))
      | .interrupted => match buf.decDataPosWrite with
        | some buf => readBody reads stream buf
        | none => .outside
      | o => .error (some o)

/-- `SrvSocket::receiveFlap` -/
def receiveFlap (reads : List ReadOutcome) (stream : List UInt8) (buf : Buffer) :
    Received Buffer :=
  if buf.empty then
    match readHeader reads stream [] with
    | .value buffer stream reads =>
      if buffer.head? ≠ some 0x2a then .error none
      else readBody reads stream ((buf.create (flapLength buffer + 6)).packRaw buffer)
    | .error o => .error o
    | .outside => .outside
    | .waiting => .waiting
  else .value buf stream reads

/-- The packets that so many calls return, each with a buffer of its own, and how the last one
ends. -/
def receiveFlaps : ℕ → List ReadOutcome → List UInt8 → List Buffer × Received Unit
  | 0, reads, stream => ([], .value () stream reads)
  | n + 1, reads, stream =>
    match receiveFlap reads stream Buffer.clear with
    | .value buf stream reads =>
      (buf :: (receiveFlaps n reads stream).1, (receiveFlaps n reads stream).2)
    | .error o => ([], .error o)
    | .outside => ([], .outside)
    | .waiting => ([], .waiting)

/-! ## One call -/

/-- The outcomes after which a call gives up. -/
def ReadOutcome.Fails (o : ReadOutcome) : Prop := o = closed ∨ o = failed

/-- What a loop does that is to read `want` bytes: it ends with a value as it should and has used up
no more outcomes than bytes, or fails with a read, or waits because bytes or outcomes are missing. -/
def Fills {α : Type} (reads : List ReadOutcome) (stream : List UInt8) (want : ℕ)
    (P : α → List UInt8 → Prop) : Received α → Prop
  | .value a rest reads' => P a rest ∧ reads' <:+ reads ∧ reads.length ≤ reads'.length + want
  | .error e => ∃ o ∈ reads, e = some o ∧ o.Fails
  | .outside => False
  | .waiting => stream.length < want ∨ reads.length < want

namespace Fills

variable {α : Type} {reads : List ReadOutcome} {stream : List UInt8} {want : ℕ}
  {P : α → List UInt8 → Prop} {r : Received α}

/-- A read of at least one byte. -/
theorem step {n k : ℕ} (hk : 0 < k) (hkwant : k ≤ want) (hkstream : k ≤ stream.length)
    (h : Fills reads (stream.drop k) (want - k) P r) :
    Fills (.bytes n :: reads) stream want P r := by
  cases r with
  | value a rest reads' =>
    obtain ⟨ha, hsuffix, hlength⟩ := h
    refine ⟨ha, hsuffix.trans (suffix_cons _ _), ?_⟩
    rw [length_cons]
    omega
  | error e =>
    obtain ⟨o, ho, he, hfails⟩ := h
    exact ⟨o, mem_cons_of_mem _ ho, he, hfails⟩
  | outside => exact h
  | waiting =>
    change (stream.drop k).length < want - k ∨ reads.length < want - k at h
    rw [length_drop] at h
    change stream.length < want ∨ reads.length + 1 < want
    omega

theorem done {a : α} (ha : P a stream) : Fills reads stream want P (.value a stream reads) :=
  ⟨ha, suffix_rfl, Nat.le_add_right _ _⟩

end Fills

theorem length_take_pos {stream : List UInt8} {n want : ℕ} (hs : stream ≠ []) (hw : 0 < want) :
    0 < (stream.take (min (n + 1) want)).length := by
  rw [length_take]
  have := length_pos_of_ne_nil hs
  omega

/-- A read takes bytes off the stream. -/
theorem drop_length_take (stream : List UInt8) (n : ℕ) :
    stream.drop (stream.take n).length = stream.drop n := by
  rw [length_take]
  rcases Nat.le_total n stream.length with h | h
  · rw [Nat.min_eq_left h]
  · rw [Nat.min_eq_right h, drop_length, drop_eq_nil_of_le h]

theorem readHeader_fills {reads : List ReadOutcome} {stream buffer : List UInt8}
    (hreads : .interrupted ∉ reads) (hlength : buffer.length ≤ 6) :
    Fills reads stream (6 - buffer.length)
      (fun b rest => b.length = 6 ∧ b ++ rest = buffer ++ stream)
      (readHeader reads stream buffer) := by
  induction reads generalizing stream buffer with
  | nil =>
    rw [readHeader]
    split
    · rename_i hfull
      exact .done ⟨hfull, rfl⟩
    · exact Or.inr (by rw [length_nil]; omega)
  | cons o reads ih =>
    obtain ⟨ho, hrest⟩ := not_or.mp (mem_cons.not.mp hreads)
    by_cases hfull : buffer.length = 6
    · unfold readHeader
      rw [if_pos hfull]
      exact .done ⟨hfull, rfl⟩
    unfold readHeader
    rw [if_neg hfull]
    cases o with
    | bytes n =>
      dsimp only
      by_cases hempty : stream = []
      · rw [if_pos hempty]
        exact Or.inl (by rw [hempty, length_nil]; omega)
      rw [if_neg hempty]
      have hwant : (stream.take (min (n + 1) (6 - buffer.length))).length ≤ 6 - buffer.length :=
        (length_take_le _ _).trans (Nat.min_le_right _ _)
      refine Fills.step (length_take_pos hempty (n := n) (by omega)) hwant
        (length_take_le' _ _) ?_
      rw [drop_length_take]
      have hfills := @ih (stream.drop (min (n + 1) (6 - buffer.length)))
        (buffer ++ stream.take (min (n + 1) (6 - buffer.length))) hrest
        (by rw [length_append]; omega)
      rw [append_assoc, take_append_drop, length_append, ← Nat.sub_sub] at hfills
      exact hfills
    | closed => exact ⟨_, mem_cons_self, rfl, Or.inl rfl⟩
    | interrupted => exact absurd rfl ho
    | failed => exact ⟨_, mem_cons_self, rfl, Or.inr rfl⟩

theorem packRaw_data {b : Buffer} {data : List UInt8} (h : data.length ≤ b.remainingDataToWrite) :
    (b.packRaw data).data = b.data ++ data ∧ (b.packRaw data).maxSize = b.maxSize ∧
      (b.packRaw data).allocated = b.allocated ∧
      (b.packRaw data).remainingDataToWrite = b.remainingDataToWrite - data.length := by
  rw [packRaw, dif_neg (Nat.not_lt.mpr h)]
  refine ⟨rfl, rfl, rfl, ?_⟩
  change b.maxSize - (b.data ++ data).length = b.maxSize - b.data.length - data.length
  rw [length_append, Nat.sub_sub]

theorem full_iff {b : Buffer} (h : b.allocated = true) :
    b.full = true ↔ b.remainingDataToWrite = 0 := by
  rw [full, empty, h, Bool.not_true, Bool.not_false, Bool.true_and,
    decide_eq_true_iff, remainingDataToWrite, Nat.sub_eq_zero_iff_le]
  rfl

theorem length_of_full {b : Buffer} (h : b.full = true) : b.data.length = b.maxSize :=
  Nat.le_antisymm b.data_le (of_decide_eq_true (Bool.and_eq_true_iff.mp h).2)

theorem readBody_fills {reads : List ReadOutcome} {stream : List UInt8} {buf : Buffer}
    (hreads : .interrupted ∉ reads) (hmem : buf.allocated = true) :
    Fills reads stream buf.remainingDataToWrite
      (fun b rest => b.full = true ∧ b.maxSize = buf.maxSize ∧ b.data ++ rest = buf.data ++ stream)
      (readBody reads stream buf) := by
  induction reads generalizing stream buf with
  | nil =>
    unfold readBody
    split
    · rename_i hfull
      exact .done ⟨hfull, rfl, rfl⟩
    · rename_i hfull
      rw [full_iff hmem] at hfull
      exact Or.inr (Nat.pos_of_ne_zero hfull)
  | cons o reads ih =>
    obtain ⟨ho, hrest⟩ := not_or.mp (mem_cons.not.mp hreads)
    unfold readBody
    by_cases hfull : buf.full = true
    · rw [if_pos hfull]
      exact .done ⟨hfull, rfl, rfl⟩
    rw [if_neg hfull]
    rw [full_iff hmem] at hfull
    have hpos := Nat.pos_of_ne_zero hfull
    cases o with
    | bytes n =>
      dsimp only
      by_cases hempty : stream = []
      · rw [if_pos hempty]
        exact Or.inl (by rw [hempty]; exact hpos)
      rw [if_neg hempty]
      have hwant : (stream.take (min (n + 1) buf.remainingDataToWrite)).length
          ≤ buf.remainingDataToWrite := (length_take_le _ _).trans (Nat.min_le_right _ _)
      obtain ⟨hdata, hmax, hallocated, hleft⟩ := packRaw_data hwant
      refine Fills.step (length_take_pos hempty (n := n) hpos) hwant (length_take_le' _ _) ?_
      rw [drop_length_take]
      have hfills := @ih (stream.drop (min (n + 1) buf.remainingDataToWrite))
        (buf.packRaw (stream.take (min (n + 1) buf.remainingDataToWrite))) hrest
        (hallocated.trans hmem)
      rw [hdata, hmax, hleft, append_assoc, take_append_drop] at hfills
      exact hfills
    | closed => exact ⟨_, mem_cons_self, rfl, Or.inl rfl⟩
    | interrupted => exact absurd rfl ho
    | failed => exact ⟨_, mem_cons_self, rfl, Or.inr rfl⟩

/-- What a call does: it returns the packet that comes first, with no more reads than bytes, or fails
where a read does or at a bad start code, or waits for the rest of a packet. -/
def Receives (reads : List ReadOutcome) (stream : List UInt8) : Received Buffer → Prop
  | .value b rest reads' => flap.next stream = some (b.data, rest) ∧ b.full = true ∧
      reads' <:+ reads ∧ reads.length ≤ reads'.length + b.data.length
  | .error none => 6 ≤ stream.length ∧ stream.head? ≠ some 0x2a
  | .error (some o) => o ∈ reads ∧ o.Fails
  | .outside => False
  | .waiting => ∀ b rest, flap.next stream = some (b, rest) → reads.length < b.length

/-- **One call**, without an interrupted read. -/
theorem receiveFlap_receives {reads : List ReadOutcome} {stream : List UInt8}
    (hreads : .interrupted ∉ reads) :
    Receives reads stream (receiveFlap reads stream Buffer.clear) := by
  have hheader := @readHeader_fills reads stream [] hreads (Nat.zero_le 6)
  rw [receiveFlap, if_pos (show clear.empty = true from rfl)]
  cases hcall : readHeader reads stream [] with
  | error e =>
    rw [hcall] at hheader
    obtain ⟨o, ho, rfl, hfails⟩ := hheader
    exact ⟨ho, hfails⟩
  | outside =>
    rw [hcall] at hheader
    exact hheader.elim
  | waiting =>
    rw [hcall] at hheader
    intro b rest hnext
    obtain ⟨hlength, -, rfl, -⟩ := nextFlap_eq_some hnext
    rw [length_take, Nat.min_eq_left hlength]
    change stream.length < 6 ∨ reads.length < 6 at hheader
    omega
  | value header rest reads' =>
    rw [hcall] at hheader
    obtain ⟨⟨hlength, hstream⟩, hsuffix, hcount⟩ := hheader
    rw [nil_append] at hstream
    have hhead : stream.head? = header.head? := by
      rw [← hstream, head?_append_of_ne_nil _ (by rintro rfl; cases hlength)]
    have hflap : flapLength stream = flapLength header := by
      rw [← hstream, flapLength_append hlength.ge]
    dsimp only
    by_cases hstart : header.head? = some 0x2a
    · rw [if_neg (not_not.mpr hstart)]
      have hroom : (clear.create (flapLength header + 6)).remainingDataToWrite
          = flapLength header + 6 := Nat.sub_zero _
      obtain ⟨hdata, hmax, hmem, hleft⟩ := @packRaw_data
        (clear.create (flapLength header + 6)) header
        (by rw [hroom, hlength]; exact Nat.le_add_left _ _)
      rw [hroom, hlength, Nat.add_sub_cancel] at hleft
      have hbody := @readBody_fills reads' rest
        ((clear.create (flapLength header + 6)).packRaw header)
        (fun h => hreads (hsuffix.subset h)) (hmem.trans rfl)
      rw [hleft, hdata, hmax] at hbody
      cases hcall' : readBody reads' rest
          ((clear.create (flapLength header + 6)).packRaw header) with
      | error e =>
        rw [hcall'] at hbody
        obtain ⟨o, ho, rfl, hfails⟩ := hbody
        exact ⟨hsuffix.subset ho, hfails⟩
      | outside =>
        rw [hcall'] at hbody
        exact hbody.elim
      | waiting =>
        rw [hcall'] at hbody
        intro b rest' hnext
        obtain ⟨hle, -, rfl, -⟩ := nextFlap_eq_some hnext
        rw [length_take, Nat.min_eq_left hle, hflap]
        rw [hflap, ← hstream, length_append] at hle
        change rest.length < flapLength header ∨ reads'.length < flapLength header at hbody
        omega
      | value b rest' reads'' =>
        rw [hcall'] at hbody
        obtain ⟨⟨hfull, hmax', hb⟩, hsuffix', hcount'⟩ := hbody
        have hsize : b.data.length = 6 + flapLength stream := by
          rw [length_of_full hfull, hmax', hflap]
          exact Nat.add_comm _ _
        have hbstream : b.data ++ rest' = stream := by
          rw [hb, ← hstream]
          rfl
        refine ⟨?_, hfull, hsuffix'.trans hsuffix, by omega⟩
        change nextFlap stream = _
        have hlong : 6 + flapLength stream ≤ stream.length := by
          rw [← hsize, ← hbstream, length_append]
          exact Nat.le_add_right _ _
        have htake : stream.take b.data.length = b.data := by rw [← hbstream, take_left]
        have hdrop : stream.drop b.data.length = rest' := by rw [← hbstream, drop_left]
        rw [nextFlap, if_pos ⟨hlong, hhead.trans hstart⟩, ← hsize, htake, hdrop]
    · rw [if_pos hstart]
      refine ⟨?_, hhead ▸ hstart⟩
      rw [← hstream, length_append]
      omega

/-! ## Call after call -/

/-- How the calls end: after the last of them, just behind its packet, or in a read that fails, or at
a bad start code behind all packets, or waiting for more, with all packets that the reads had bytes
for. -/
def CallsEnd (n : ℕ) (reads : List ReadOutcome) (stream : List UInt8) (packets : List (List UInt8)) :
    Received Unit → Prop
  | .value _ rest _ => packets.length = n ∧ stream = packets.flatten ++ rest
  | .error none => packets = (flap.frames stream).1 ∧ 6 ≤ (flap.frames stream).2.length ∧
      (flap.frames stream).2.head? ≠ some 0x2a
  | .error (some o) => o ∈ reads ∧ o.Fails
  | .outside => False
  | .waiting => (flap.frames stream).1.flatten.length ≤ reads.length →
      packets = (flap.frames stream).1

/-- A call that returns a packet comes before the others. -/
theorem CallsEnd.cons {n : ℕ} {reads reads' : List ReadOutcome} {stream rest packet : List UInt8}
    {packets : List (List UInt8)} {r : Received Unit}
    (hnext : flap.next stream = some (packet, rest)) (hsuffix : reads' <:+ reads)
    (hcount : reads.length ≤ reads'.length + packet.length) (h : CallsEnd n reads' rest packets r) :
    CallsEnd (n + 1) reads stream (packet :: packets) r := by
  have hframes := Framing.frames_of_some hnext
  cases r with
  | value a rest' reads'' =>
    obtain ⟨rfl, hrest⟩ := h
    obtain ⟨-, -, hpacket, hdrop⟩ := nextFlap_eq_some hnext
    refine ⟨rfl, ?_⟩
    rw [flatten_cons, append_assoc, ← hrest, hpacket, hdrop, take_append_drop]
  | error e =>
    cases e with
    | none =>
      obtain ⟨rfl, hleft⟩ := h
      rw [CallsEnd, hframes]
      exact ⟨rfl, hleft⟩
    | some o => exact ⟨hsuffix.subset h.1, h.2⟩
  | outside => exact h
  | waiting =>
    intro hle
    rw [hframes] at hle ⊢
    rw [flatten_cons, length_append] at hle
    rw [h (by omega)]

/-- **The packets of the stream.**  Whatever the reads give, as long as none of them is interrupted:
the calls return the packets that the stream is cut into, in turn and each of them whole. -/
theorem receiveFlaps_exact (n : ℕ) (reads : List ReadOutcome) (stream : List UInt8)
    (hreads : .interrupted ∉ reads) :
    (receiveFlaps n reads stream).1.map Buffer.data
        = (flap.frames stream).1.take (receiveFlaps n reads stream).1.length ∧
      (∀ b ∈ (receiveFlaps n reads stream).1, b.full = true) ∧
      CallsEnd n reads stream ((receiveFlaps n reads stream).1.map Buffer.data)
        (receiveFlaps n reads stream).2 := by
  induction n generalizing reads stream with
  | zero => exact ⟨rfl, nofun, rfl, rfl⟩
  | succ n ih =>
    have hcall := @receiveFlap_receives reads stream hreads
    rw [receiveFlaps]
    cases hr : receiveFlap reads stream Buffer.clear with
    | value b rest reads' =>
      rw [hr] at hcall
      obtain ⟨hnext, hfull, hsuffix, hcount⟩ := hcall
      obtain ⟨hpackets, hall, hend⟩ := ih reads' rest fun h => hreads (hsuffix.subset h)
      refine ⟨?_, List.forall_mem_cons.mpr ⟨hfull, hall⟩, hend.cons hnext hsuffix hcount⟩
      rw [Framing.frames_of_some hnext, List.map_cons, List.length_cons, List.take_succ_cons,
        hpackets]
    | error e =>
      rw [hr] at hcall
      refine ⟨rfl, nofun, ?_⟩
      cases e with
      | none =>
        have hnone : flap.next stream = none := if_neg fun h => hcall.2 h.2
        rw [CallsEnd, Framing.frames_of_none hnone]
        exact ⟨rfl, hcall⟩
      | some o => exact hcall
    | outside =>
      rw [hr] at hcall
      exact hcall.elim
    | waiting =>
      rw [hr] at hcall
      refine ⟨rfl, nofun, fun hle => ?_⟩
      cases hnext : flap.next stream with
      | none => rw [Framing.frames_of_none hnext]; rfl
      | some frame =>
        have hlt := hcall frame.1 frame.2 hnext
        rw [Framing.frames_of_some hnext, List.flatten_cons, List.length_append] at hle
        omega

/-- Two packets, of which the first comes in two parts. -/
theorem receiveFlaps_exact_two :
    ReadOutcome.interrupted ∉ [ReadOutcome.bytes 5, .bytes 0, .bytes 0, .bytes 8] ∧
      (receiveFlaps 2 [.bytes 5, .bytes 0, .bytes 0, .bytes 8]
        [0x2a, 2, 0, 0, 0, 2, 7, 8, 0x2a, 2, 0, 1, 0, 0]).1.map Buffer.data
        = (flap.frames [0x2a, 2, 0, 0, 0, 2, 7, 8, 0x2a, 2, 0, 1, 0, 0]).1.take 2 :=
  ⟨by decide, (receiveFlaps_exact 2 [.bytes 5, .bytes 0, .bytes 0, .bytes 8]
    [0x2a, 2, 0, 0, 0, 2, 7, 8, 0x2a, 2, 0, 1, 0, 0] (by decide)).1⟩

/-- A read of the body that is interrupted: the length in the header is overwritten, and the packet
takes a byte of the next one. -/
theorem not_exact_interrupted : ¬ ∀ (n : ℕ) (reads : List ReadOutcome) (stream : List UInt8),
    (receiveFlaps n reads stream).1.map Buffer.data
      = (flap.frames stream).1.take (receiveFlaps n reads stream).1.length := by
  intro h
  have hrun := h 1 [.bytes 5, .interrupted, .bytes 8]
    [0x2a, 2, 0, 0, 0, 2, 7, 8, 0x2a, 2, 0, 1, 0, 0]
  have hpacket : (receiveFlaps 1 [.bytes 5, .interrupted, .bytes 8]
      [0x2a, 2, 0, 0, 0, 2, 7, 8, 0x2a, 2, 0, 1, 0, 0]).1.map Buffer.data
        = [[0x2a, 2, 0, 0, 0, 7, 8, 0x2a]] := by decide
  have hnext : flap.next [0x2a, 2, 0, 0, 0, 2, 7, 8, 0x2a, 2, 0, 1, 0, 0]
      = some ([0x2a, 2, 0, 0, 0, 2, 7, 8], [0x2a, 2, 0, 1, 0, 0]) := by decide
  rw [Framing.frames_of_some hnext, hpacket] at hrun
  exact absurd (List.cons.inj hrun).1 (by decide)

end Licq
