import Licq.ContactList.UserId
import Licq.Data.Steps
import Licq.Msn.Messages

/-!
# Msn/Reassembly — commands out of the chunks of a connection

`HandlePacket` gets the bytes of a connection as they come.  It cuts the commands out of them and
keeps the rest in a hash of buffers, by the number of the socket and the user.

The **main result** `reassembles` is about every run of connections: the commands are dispatched as
they were sent as long as no chunk ends one byte before the end of a payload, no memory behind the
data looks like a line end, and a connection finds nothing left over where it keeps its rest.
-/

namespace Licq.Msn

open Text List Function

/-! ## The buffers that are kept -/

/-- `SBuffer` -/
structure SBuffer where
  myUserId : UserId
  data : List UInt8
  deriving DecidableEq

/-- `m_vlPacketBucket` -/
abbrev Buckets := ℕ → List SBuffer

def hashValue (n : ℕ) : ℕ := n % 211

/-- `CMSN::StorePacket`, for a buffer that is not stored yet. -/
def storePacket (b : Buckets) (buf : SBuffer) (nSock : ℕ) : Buckets :=
  Function.update b (hashValue nSock) (buf :: b (hashValue nSock))

/-- `CMSN::RetrievePacket` -/
def retrievePacket (b : Buckets) (userId : UserId) (nSock : ℕ) : Option SBuffer :=
  (b (hashValue nSock)).find? (·.myUserId = userId)

/-- `CMSN::RemovePacket`; `none` where it asks for a buffer of a negative size. -/
def removePacket (b : Buckets) (userId : UserId) (nSock nSize : ℕ) : Option Buckets :=
  match retrievePacket b userId nSock with
  | none => some b
  | some buf =>
    let rest := (b (hashValue nSock)).eraseP (·.myUserId = userId)
    if nSize = 0 ∨ nSize = buf.data.length then some (Function.update b (hashValue nSock) rest)
    else if buf.data.length < nSize then none
    else some (Function.update b (hashValue nSock) (⟨userId, buf.data.drop nSize⟩ :: rest))

/-! ## Commands -/

/-- `MSG` -/
def msgName : List UInt8 := asciiBytes ['M', 'S', 'G']

/-- `NOT` -/
def notName : List UInt8 := asciiBytes ['N', 'O', 'T']

/-- `nFullSize` of the first command in the data, where it is to be processed.  `behind` is the
memory behind the data. -/
def fullSize (data behind : List UInt8) : Option ℤ :=
  match findLineEnd (data ++ behind) with
  | none => none
  | some szNeedle =>
    let name := (data ++ behind).take 3
    if name = msgName ∨ name = notName then
      let s := skipParameter data
      let s := if name = msgName then skipParameter (skipParameter s) else s
      let strSize := getParameter data s
      let nSize := atoi (byteChars strSize.1)
      if nSize ≤ strSize.2.length then
        some (nSize + ((data.length : ℤ) - strSize.2.length) + 1)
      else none
    else if szNeedle + 2 ≤ data.length then some (szNeedle + 2)
    else none

/-- The loop of `HandlePacket`: what is dispatched, and the buffers that are kept then, or `none`
where removing a packet fails.  Every round takes a part off the data, so that there are no more
rounds than bytes. -/
def handleLoop (nSocket : ℕ) (userId : UserId) : ℕ → List (List UInt8) → Buckets → List UInt8 →
    Bool → List (List UInt8) × Option Buckets
  | 0, _, b, _, _ => ([], some b)
  | rounds + 1, behind, b, data, bStored =>
    match fullSize data behind.headI with
    | none => ([], some (if bStored then b else storePacket b ⟨userId, data⟩ nSocket))
    | some n =>
      let nFullSize := (n % 2 ^ 64).toNat
      let more := nFullSize < data.length
      let b := if more ∧ bStored = false then storePacket b ⟨userId, data⟩ nSocket else b
      let part := if more then data.take nFullSize else data
      match removePacket b userId nSocket nFullSize with
      | none => ([part], none)
      | some b =>
        match retrievePacket b userId nSocket with
        | none => ([part], some b)
        | some buf =>
          let rest := handleLoop nSocket userId rounds behind.tail b buf.data true
          (part :: rest.1, rest.2)

/-- `CMSN::HandlePacket` -/
def handlePacket (nSocket : ℕ) (userId : UserId) (behind : List (List UInt8)) (b : Buckets)
    (packet : List UInt8) : List (List UInt8) × Option Buckets :=
  match retrievePacket b userId nSocket with
  | some buf =>
    -- the stored buffer grows by the packet
    let data := buf.data ++ packet
    let grown := Function.update b (hashValue nSocket)
      ((b (hashValue nSocket)).map fun e => if e = buf then ⟨userId, data⟩ else e)
    handleLoop nSocket userId (data.length + 1) behind grown data true
  | none => handleLoop nSocket userId (packet.length + 1) behind b packet false

/-! ## The stream of a connection -/

/-- A line that is no command with a payload; its size is an `int`. -/
structure LineText where
  text : List UInt8
  size_lt : text.length + 2 < 2 ^ 31
  plain : ∀ c ∈ text, c ≠ cr ∧ c ≠ lf
  noPayload : text.take 3 ≠ msgName ∧ text.take 3 ≠ notName

/-- A parameter of a command. -/
structure Param where
  text : List UInt8
  size_lt : text.length < 2 ^ 31
  plain : Plain text

/-- A payload; its size is an `int`. -/
structure Payload where
  bytes : List UInt8
  size_lt : bytes.length < 2 ^ 31

/-- The commands. -/
inductive Command
  | line (text : LineText)
  | msg (first second : Param) (payload : Payload)
  | not (payload : Payload)

namespace Command

/-- What stands before the size of the payload. -/
def head : Command → List UInt8
  | line _ => []
  | msg first second _ => msgName ++ 0x20 :: (first.text ++ 0x20 :: (second.text ++ [0x20]))
  | not _ => notName ++ [0x20]

/-- The line of a command. -/
def text : Command → List UInt8
  | line t => t.text
  | msg first second payload => (msg first second payload).head ++ decimalBytes payload.bytes.length
  | not payload => (not payload).head ++ decimalBytes payload.bytes.length

/-- What follows the line. -/
def rest : Command → List UInt8
  | line _ => []
  | msg _ _ payload => payload.bytes
  | not payload => payload.bytes

/-- The bytes of a command. -/
def bytes (c : Command) : List UInt8 := c.text ++ cr :: lf :: c.rest

/-- The command is told by its name to have a payload. -/
def hasPayload : Command → Bool
  | line _ => false
  | msg _ _ _ => true
  | not _ => true

end Command

/-- The bytes of commands. -/
def streamBytes (cs : List Command) : List UInt8 := cs.flatMap Command.bytes

/-- Enough of the line is there that it is not taken for a command with no payload: the name of a
line, a digit of a size that is not 0. -/
def Command.Told (c : Command) (j : ℕ) : Prop :=
  if c.hasPayload then c.head.length < j ∧ c.rest ≠ [] else 3 ≤ j

instance Command.Told.decidable (c : Command) (j : ℕ) : Decidable (c.Told j) := by
  unfold Command.Told
  infer_instance

/-- Only some bytes of the command are there, and it is not processed: more than one byte of the
payload is missing, or the line is told or has no line end in the memory behind. -/
def Command.Waits (c : Command) (j : ℕ) (behind : List (List UInt8)) : Prop :=
  if c.text.length + 2 ≤ j then j + 1 < c.bytes.length
  else c.Told j ∨ ∀ m ∈ behind, findLineEnd (c.bytes.take j ++ m) = none

instance Command.Waits.decidable (c : Command) (j : ℕ) (behind : List (List UInt8)) :
    Decidable (c.Waits j behind) := by
  unfold Command.Waits
  infer_instance

/-- The commands that are complete in the first bytes of a stream. -/
def complete : List Command → ℕ → List Command
  | [], _ => []
  | c :: cs, n => if c.bytes.length ≤ n then c :: complete cs (n - c.bytes.length) else []

/-- The command that is not complete, and how many bytes of it are there. -/
def next : List Command → ℕ → Option (Command × ℕ)
  | [], _ => none
  | c :: cs, n => if c.bytes.length ≤ n then next cs (n - c.bytes.length) else some (c, n)

/-- The bytes of the command that is not complete. -/
def pending (cs : List Command) (n : ℕ) : List UInt8 :=
  match next cs n with
  | none => []
  | some (c, j) => c.bytes.take j

/-! ## Connections -/

/-- A connection, the commands that come on it, how many bytes of them have come, and what has been
dispatched. -/
structure Conn where
  sock : ℕ
  user : UserId
  stream : List Command
  got : ℕ
  out : List (List UInt8)

/-- The connections that are open, and what is kept for them. -/
structure Link where
  buckets : Buckets
  conns : List Conn
  failed : Bool

inductive Act
  | connect (sock : ℕ) (user : UserId) (stream : List Command)
  | receive (sock k : ℕ) (behind : List (List UInt8))
  | close (sock : ℕ)

namespace Link

def start : Link := ⟨fun _ => [], [], false⟩

/-- The next bytes of a connection. -/
def chunk (c : Conn) (k : ℕ) : List UInt8 := ((streamBytes c.stream).drop c.got).take k

/-- What has come on a connection and been dispatched. -/
def received (sock k : ℕ) (out : List (List UInt8)) (c : Conn) : Conn :=
  if c.sock = sock then { c with got := c.got + k, out := c.out ++ out } else c

/-- A connection gets a number that no open one has; bytes come that have been sent; `closeSocket`
leaves the buffers alone. -/
def step (s : Link) : Act → Option Link
  | .connect sock user stream =>
    if s.conns.any (·.sock = sock) then none
    else some { s with conns := ⟨sock, user, stream, 0, []⟩ :: s.conns }
  | .receive sock k behind =>
    match s.conns.find? (·.sock = sock) with
    | none => none
    | some c =>
      if k = 0 ∨ (streamBytes c.stream).length < c.got + k then none
      else
        let r := handlePacket sock c.user behind s.buckets (chunk c k)
        some ⟨r.2.getD s.buckets, s.conns.map (received sock k r.1), s.failed || r.2.isNone⟩
  | .close sock =>
    if s.conns.any (·.sock = sock) then
      some { s with conns := s.conns.filter (·.sock ≠ sock) }
    else none

/-- What is to be kept for a connection. -/
def kept (c : Conn) : Option SBuffer :=
  if pending c.stream c.got = [] then none else some ⟨c.user, pending c.stream c.got⟩

/-- Every connection has had just the commands dispatched that have come complete, and what has come
of the next one is kept. -/
structure Good (s : Link) : Prop where
  alive : s.failed = false
  out : ∀ c ∈ s.conns, c.out = (complete c.stream c.got).map Command.bytes
  kept : ∀ c ∈ s.conns, retrievePacket s.buckets c.user c.sock = kept c

end Link

/-! ## The size of a command -/

/-- A line shorter than a name goes on with a line end, which is in no name. -/
theorem take_name {x s name : List UInt8} (hcr : cr ∉ name) (h : (x ++ cr :: s).take 3 = name) :
    x.take 3 = name := by
  by_cases hx : 3 ≤ x.length
  · rwa [take_append_of_le_length hx] at h
  · refine absurd ?_ hcr
    rw [← h, take_append, take_of_length_le (by omega)]
    obtain ⟨k, hk⟩ := Nat.exists_eq_succ_of_ne_zero (show 3 - x.length ≠ 0 by omega)
    rw [hk, take_succ_cons]
    exact mem_append_right _ mem_cons_self

namespace Command

theorem text_eq {c : Command} (h : c.hasPayload) :
    c.text = c.head ++ decimalBytes c.rest.length := by
  cases c with
  | line t => cases h
  | msg first second payload => rfl
  | not payload => rfl

theorem plain_msgName : Plain msgName := ⟨by decide, all_iff_forall_prop.mp (by decide)⟩

theorem plain_notName : Plain notName := ⟨by decide, all_iff_forall_prop.mp (by decide)⟩

/-- There is no line end in a line. -/
theorem text_plain (c : Command) : ∀ b ∈ c.text, b ≠ cr ∧ b ≠ lf := by
  have hspace : (0x20 : UInt8) ≠ cr ∧ (0x20 : UInt8) ≠ lf := by decide
  have hparam : ∀ {v : List UInt8}, Plain v → ∀ b ∈ v, b ≠ cr ∧ b ≠ lf :=
    fun hv b hb => (hv.ne_of_mem hb).2
  intro b hb
  cases c with
  | line t => exact t.plain b hb
  | msg first second payload =>
    simp only [text, head, mem_append, mem_cons, not_mem_nil, or_false] at hb
    obtain (hb | rfl | hb | rfl | hb | rfl) | hb := hb
    · exact hparam plain_msgName b hb
    · exact hspace
    · exact hparam first.plain b hb
    · exact hspace
    · exact hparam second.plain b hb
    · exact hspace
    · exact hparam (plain_decimalBytes _) b hb
  | not payload =>
    simp only [text, head, mem_append, mem_cons, not_mem_nil, or_false] at hb
    obtain (hb | rfl) | hb := hb
    · exact hparam plain_notName b hb
    · exact hspace
    · exact hparam (plain_decimalBytes _) b hb

theorem length_bytes (c : Command) : c.bytes.length = c.text.length + 2 + c.rest.length := by
  rw [bytes, length_append, length_cons, length_cons]
  omega

theorem rest_eq_nil {c : Command} (h : c.hasPayload = false) : c.rest = [] := by
  cases c with
  | line t => rfl
  | msg first second payload => cases h
  | not payload => cases h

theorem rest_lt (c : Command) : c.rest.length < 2 ^ 31 := by
  cases c with
  | line t => exact Nat.two_pow_pos 31
  | msg first second payload => exact payload.size_lt
  | not payload => exact payload.size_lt

/-- **The size of a command with a payload** is read behind its head. -/
theorem fullSize_head {c : Command} (hc : c.hasPayload) {s v left : List UInt8}
    (hsize : getParameter (c.head ++ s) s = (v, left)) (behind : List UInt8) :
    fullSize (c.head ++ s) behind = (findLineEnd (c.head ++ s ++ behind)).bind fun _ =>
      if atoi (byteChars v) ≤ left.length then
        some (atoi (byteChars v) + (((c.head ++ s).length : ℤ) - left.length) + 1)
      else none := by
  rw [fullSize]
  cases findLineEnd (c.head ++ s ++ behind) with
  | none => rfl
  | some z =>
    cases c with
    | line t => cases hc
    | msg first second payload =>
      have hdata : (msg first second payload).head ++ s = msgName ++ 0x20 :: (first.text ++
          0x20 :: (second.text ++ 0x20 :: s)) := by
        simp only [head, append_assoc, cons_append, nil_append]
      have hname : ((msg first second payload).head ++ s ++ behind).take 3 = msgName := rfl
      have hskip : skipParameter (skipParameter (skipParameter ((msg first second payload).head ++ s)))
          = s := by
        rw [hdata, skipParameter_append plain_msgName, skipParameter_append first.plain,
          skipParameter_append second.plain]
      simp only [hname, true_or, if_true, hskip, hsize]
      rfl
    | not payload =>
      have hdata : (not payload).head ++ s = notName ++ 0x20 :: s := by
        simp only [head, append_assoc, cons_append, nil_append]
      have hname : ((not payload).head ++ s ++ behind).take 3 = notName := rfl
      have hne : notName ≠ msgName := by decide
      have hskip : skipParameter ((not payload).head ++ s) = s := by
        rw [hdata, skipParameter_append plain_notName]
      simp only [hname, or_true, if_true, hne, if_false, hskip, hsize]
      rfl

/-- **The size of a complete command.** -/
theorem fullSize_complete {c : Command} (hzero : 0 ∉ c.text) (t behind : List UInt8) :
    fullSize (c.bytes ++ t) behind = some (c.bytes.length : ℤ) := by
  have hdata : c.bytes ++ t ++ behind = c.text ++ cr :: lf :: (c.rest ++ t ++ behind) := by
    simp only [bytes, append_assoc, cons_append]
  have hneedle : findLineEnd (c.bytes ++ t ++ behind) = some c.text.length := by
    rw [hdata]
    exact findLineEnd_append (fun b hb => (c.text_plain b hb).1) hzero _
  cases hc : c.hasPayload with
  | false =>
    have hname : ¬ ((c.bytes ++ t ++ behind).take 3 = msgName ∨
        (c.bytes ++ t ++ behind).take 3 = notName) := by
      cases c with
      | line x =>
        rw [hdata]
        rintro (h | h)
        · exact x.noPayload.1 (take_name (by decide) h)
        · exact x.noPayload.2 (take_name (by decide) h)
      | msg first second payload => cases hc
      | not payload => cases hc
    have hlength := c.length_bytes
    rw [rest_eq_nil hc, length_nil] at hlength
    rw [fullSize, hneedle]
    simp only [hname, if_false]
    rw [if_pos (by rw [length_append]; omega), hlength]
    rfl
  | true =>
    have hs : c.bytes ++ t = c.head ++ (decimalBytes c.rest.length ++ cr :: lf :: (c.rest ++ t)) := by
      simp only [bytes, text_eq hc, append_assoc, cons_append]
    have hsize := (getParameter_append (plain_decimalBytes c.rest.length) (.inr rfl) c.head
      (lf :: (c.rest ++ t))).1
    have hlength := congrArg List.length hs
    rw [hs] at hneedle ⊢
    rw [fullSize_head hc hsize, hneedle, Option.bind_some, byteChars_decimalBytes,
      atoi_decimal c.rest_lt]
    simp only [length_append, length_cons] at hlength ⊢
    rw [if_pos (by omega)]
    refine congrArg some ?_
    omega

theorem take_bytes_of_le {c : Command} {j : ℕ} (hj : j < c.text.length + 2) :
    c.bytes.take j = (c.text ++ [cr]).take j := by
  have hbytes : c.bytes = (c.text ++ [cr]) ++ lf :: c.rest := by
    rw [bytes, append_assoc]
    rfl
  rw [hbytes, take_append_of_le_length]
  rw [length_append, length_singleton]
  omega

theorem lf_notMem_take {c : Command} {j : ℕ} (hj : j < c.text.length + 2) :
    lf ∉ c.bytes.take j := by
  rw [take_bytes_of_le hj]
  intro hmem
  rcases mem_append.mp (mem_of_mem_take hmem) with h | h
  · exact (c.text_plain lf h).2 rfl
  · exact absurd h (by decide)

/-- The payload is not complete. -/
theorem fullSize_payload {c : Command} {j : ℕ} (hline : c.text.length + 2 ≤ j)
    (hj : j + 1 < c.bytes.length) (m : List UInt8) : fullSize (c.bytes.take j) m = none := by
  have hlength := c.length_bytes
  have hc : c.hasPayload := by
    by_contra hnot
    rw [rest_eq_nil (Bool.eq_false_of_not_eq_true hnot), length_nil] at hlength
    omega
  obtain ⟨i, rfl⟩ := Nat.exists_eq_add_of_le hline
  have htake : c.bytes.take (c.text.length + 2 + i)
      = c.head ++ (decimalBytes c.rest.length ++ cr :: lf :: c.rest.take i) := by
    have hbytes : c.bytes = (c.text ++ [cr, lf]) ++ c.rest := by
      rw [bytes, append_assoc]
      rfl
    have hfirst : c.text.length + 2 = (c.text ++ [cr, lf]).length := by
      rw [length_append]
      rfl
    rw [hbytes, hfirst, take_length_add_append, text_eq hc]
    simp only [append_assoc, cons_append, nil_append]
  have hsize := (getParameter_append (plain_decimalBytes c.rest.length) (.inr rfl) c.head
    (lf :: c.rest.take i)).1
  rw [htake, fullSize_head hc hsize]
  cases findLineEnd _ with
  | none => rfl
  | some z =>
    rw [Option.bind_some, byteChars_decimalBytes, atoi_decimal c.rest_lt, if_neg]
    rw [length_cons, length_take]
    omega

/-- The line of a command with no payload is not complete. -/
theorem fullSize_line {c : Command} (hc : c.hasPayload = false) {j : ℕ} (hthree : 3 ≤ j)
    (hj : j < c.bytes.length) (m : List UInt8) : fullSize (c.bytes.take j) m = none := by
  cases c with
  | msg first second payload => cases hc
  | not payload => cases hc
  | line x =>
    have hlength := (line x).length_bytes
    rw [rest_eq_nil hc, length_nil] at hlength
    have hname : ((line x).bytes.take j ++ m).take 3 = (x.text ++ cr :: [lf]).take 3 := by
      rw [take_append_of_le_length (by rw [length_take]; omega), take_take,
        Nat.min_eq_left hthree]
      rfl
    rw [fullSize]
    cases hneedle : findLineEnd ((line x).bytes.take j ++ m) with
    | none => rfl
    | some z =>
      have hfar := findLineEnd_behind (lf_notMem_take (by omega)) hneedle
      dsimp only
      rw [hname, if_neg, if_neg (by omega)]
      rintro (h | h)
      · exact x.noPayload.1 (take_name (by decide) h)
      · exact x.noPayload.2 (take_name (by decide) h)

/-- The size of a payload is not read to its end, but it is not 0. -/
theorem fullSize_size {c : Command} (hc : c.hasPayload) (hrest : c.rest ≠ []) {j : ℕ}
    (hhead : c.head.length < j) (hj : j < c.text.length + 2) (m : List UInt8) :
    fullSize (c.bytes.take j) m = none := by
  obtain ⟨i, rfl⟩ := Nat.exists_eq_add_of_lt hhead
  have htake : c.bytes.take (c.head.length + i + 1)
      = c.head ++ (decimalBytes c.rest.length ++ [cr]).take (i + 1) := by
    rw [take_bytes_of_le hj, text_eq hc, append_assoc, Nat.add_assoc,
      take_length_add_append]
  have hpos : 0 < c.rest.length := length_pos_iff.mpr hrest
  have hlt := c.rest_lt
  obtain ⟨n, hn, hle, hsize⟩ : ∃ n, 0 < n ∧ n ≤ c.rest.length ∧
      getParameter (c.head ++ (decimalBytes c.rest.length ++ [cr]).take (i + 1))
        ((decimalBytes c.rest.length ++ [cr]).take (i + 1)) = (decimalBytes n, []) := by
    by_cases hdigits : i + 1 ≤ (decimalBytes c.rest.length).length
    · obtain ⟨n, hn, hle, hprefix⟩ := take_decimal hpos (Nat.succ_pos i)
      refine ⟨n, hn, hle, ?_⟩
      have hdecimal : (decimalBytes c.rest.length ++ [cr]).take (i + 1) = decimalBytes n := by
        rw [take_append_of_le_length hdigits, decimalBytes, asciiBytes, ← map_take,
          hprefix]
        rfl
      rw [hdecimal]
      exact getParameter_end (plain_decimalBytes n) c.head
    · refine ⟨c.rest.length, hpos, Nat.le_refl _, ?_⟩
      rw [take_of_length_le (by rw [length_append, length_singleton]; omega)]
      exact (getParameter_append (plain_decimalBytes _) (.inr rfl) c.head []).1
  rw [htake, fullSize_head hc hsize]
  cases findLineEnd _ with
  | none => rfl
  | some z =>
    rw [Option.bind_some, byteChars_decimalBytes, atoi_decimal (by omega), if_neg]
    rw [length_nil]
    omega

/-- **A command that waits is not processed**, whatever is behind it in a round. -/
theorem fullSize_of_waits {c : Command} {j : ℕ} {behind : List (List UInt8)}
    (hj : j < c.bytes.length) (h : c.Waits j behind) {m : List UInt8} (hm : m = [] ∨ m ∈ behind) :
    fullSize (c.bytes.take j) m = none := by
  rw [Waits] at h
  split_ifs at h with hline
  · exact fullSize_payload hline h m
  · rcases h with htold | hnone
    · rw [Told] at htold
      split_ifs at htold with hc
      · exact fullSize_size hc htold.2 htold.1 (by omega) m
      · exact fullSize_line (Bool.eq_false_of_not_eq_true hc) htold hj m
    · have hneedle : findLineEnd (c.bytes.take j ++ m) = none := by
        rcases hm with rfl | hm
        · rw [append_nil]
          exact findLineEnd_eq_none (lf_notMem_take (by omega))
        · exact hnone m hm
      rw [fullSize, hneedle]

end Command

/-! ## What is kept -/

/-- The buffer of a user changes to `r`, those of the others stay. -/
structure Changes (l l' : List SBuffer) (userId : UserId) (r : Option SBuffer) : Prop where
  here : l'.find? (·.myUserId = userId) = r
  others : ∀ u, u ≠ userId → l'.find? (·.myUserId = u) = l.find? (·.myUserId = u)
  nodup : (l'.map SBuffer.myUserId).Nodup

section Changes

variable {l l' l'' : List SBuffer} {userId : UserId} {r r' : Option SBuffer}

theorem Changes.trans (h : Changes l l' userId r) (h' : Changes l' l'' userId r') :
    Changes l l'' userId r' :=
  ⟨h'.here, fun u hu => (h'.others u hu).trans (h.others u hu), h'.nodup⟩

theorem mem_users_iff : userId ∈ l.map SBuffer.myUserId ↔ l.find? (·.myUserId = userId) ≠ none := by
  rw [Ne, find?_eq_none, mem_map]
  simp

theorem changes_cons (hnodup : (l.map SBuffer.myUserId).Nodup)
    (hnone : l.find? (·.myUserId = userId) = none) (data : List UInt8) :
    Changes l (⟨userId, data⟩ :: l) userId (some ⟨userId, data⟩) where
  here := find?_cons_of_pos (decide_eq_true rfl)
  others := fun u hu => find?_cons_of_neg (by simpa using hu.symm)
  nodup := nodup_cons.mpr ⟨fun hmem => mem_users_iff.mp hmem hnone, hnodup⟩

theorem changes_erase (hnodup : (l.map SBuffer.myUserId).Nodup) :
    Changes l (l.eraseP (·.myUserId = userId)) userId none := by
  induction l with
  | nil => exact ⟨rfl, fun _ _ => rfl, nodup_nil⟩
  | cons buf l ih =>
    obtain ⟨hnot, htail⟩ := nodup_cons.mp hnodup
    by_cases h : buf.myUserId = userId
    · have herase : (buf :: l).eraseP (·.myUserId = userId) = l :=
        eraseP_cons_of_pos (decide_eq_true h)
      rw [herase]
      refine ⟨?_, fun u hu => ?_, htail⟩
      · by_contra hsome
        exact hnot (h ▸ mem_users_iff.mpr hsome)
      · exact (find?_cons_of_neg (by rw [h]; simpa using hu.symm)).symm
    · obtain ⟨hhere, hothers, hkept⟩ := ih htail
      have herase : (buf :: l).eraseP (·.myUserId = userId)
          = buf :: l.eraseP (·.myUserId = userId) := eraseP_cons_of_neg (by simpa using h)
      rw [herase]
      refine ⟨?_, fun u hu => ?_, ?_⟩
      · rw [find?_cons_of_neg (by simpa using h), hhere]
      · rw [find?_cons, find?_cons, hothers u hu]
      · refine nodup_cons.mpr ⟨fun hmem => hnot ?_, hkept⟩
        obtain ⟨e, he, heq⟩ := mem_map.mp hmem
        exact mem_map.mpr ⟨e, mem_of_mem_eraseP he, heq⟩

theorem changes_replace (hnodup : (l.map SBuffer.myUserId).Nodup) (data : List UInt8) :
    Changes l (⟨userId, data⟩ :: l.eraseP (·.myUserId = userId)) userId
      (some ⟨userId, data⟩) :=
  have herase := changes_erase hnodup
  herase.trans (changes_cons herase.nodup herase.here data)

theorem changes_grow {buf : SBuffer} (hnodup : (l.map SBuffer.myUserId).Nodup)
    (hbuf : l.find? (·.myUserId = userId) = some buf) (data : List UInt8) :
    Changes l (l.map fun e => if e = buf then ⟨userId, data⟩ else e) userId
      (some ⟨userId, data⟩) := by
  have huser : buf.myUserId = userId := by simpa using find?_some hbuf
  have husers : (l.map fun e => if e = buf then (⟨userId, data⟩ : SBuffer) else e).map
      SBuffer.myUserId = l.map SBuffer.myUserId := by
    rw [map_map]
    refine map_congr_left fun e _ => ?_
    by_cases he : e = buf
    · simp [he, huser]
    · simp [he]
  have hfind : ∀ u, (l.map fun e => if e = buf then (⟨userId, data⟩ : SBuffer) else e).find?
      (·.myUserId = u) = (l.find? (·.myUserId = u)).map fun e =>
        if e = buf then (⟨userId, data⟩ : SBuffer) else e := by
    intro u
    rw [find?_map]
    refine congrArg (Option.map _) (congrArg (fun p => l.find? p) (funext fun e => ?_))
    by_cases he : e = buf
    · simp [he, huser]
    · simp [he]
  refine ⟨?_, fun u hu => ?_, husers ▸ hnodup⟩
  · rw [hfind, hbuf, Option.map_some, if_pos rfl]
  · rw [hfind]
    cases hu' : l.find? (·.myUserId = u) with
    | none => rfl
    | some e =>
      have heu : e.myUserId = u := by simpa using find?_some hu'
      have hne : e ≠ buf := fun heq => hu (by rw [← heu, heq, huser])
      rw [Option.map_some, if_neg hne]

end Changes

/-- For no bucket are there two buffers of a user. -/
def Distinct (b : Buckets) : Prop := ∀ i, ((b i).map SBuffer.myUserId).Nodup

/-- The bytes that are kept for a socket of a user change, all others stay. -/
structure Keeps (b b' : Buckets) (userId : UserId) (nSock : ℕ) (data : List UInt8) : Prop where
  here : retrievePacket b' userId nSock = if data = [] then none else some ⟨userId, data⟩
  others : ∀ u n, u ≠ userId ∨ hashValue n ≠ hashValue nSock →
    retrievePacket b' u n = retrievePacket b u n
  distinct : Distinct b'

section Keeps

variable {b b' b'' : Buckets} {userId : UserId} {nSock : ℕ} {data : List UInt8}

theorem keeps_update {l : List SBuffer} (hdistinct : Distinct b)
    (h : Changes (b (hashValue nSock)) l userId (if data = [] then none else some ⟨userId, data⟩)) :
    Keeps b (Function.update b (hashValue nSock) l) userId nSock data where
  here := by
    rw [retrievePacket, update_self]
    exact h.here
  others := fun u n hne => by
    by_cases hn : hashValue n = hashValue nSock
    · rw [retrievePacket, retrievePacket, hn, update_self]
      exact h.others u (hne.resolve_right fun hnot => hnot hn)
    · rw [retrievePacket, retrievePacket, update_of_ne hn]
  distinct := fun i => by
    by_cases hi : i = hashValue nSock
    · rw [hi, update_self]
      exact h.nodup
    · rw [update_of_ne hi]
      exact hdistinct i

theorem Keeps.trans {data' : List UInt8} (h : Keeps b b' userId nSock data)
    (h' : Keeps b' b'' userId nSock data') : Keeps b b'' userId nSock data' :=
  ⟨h'.here, fun u n hne => (h'.others u n hne).trans (h.others u n hne), h'.distinct⟩

theorem keeps_store (hdistinct : Distinct b) (hnone : retrievePacket b userId nSock = none)
    (hdata : data ≠ []) :
    Keeps b (storePacket b ⟨userId, data⟩ nSock) userId nSock data := by
  refine keeps_update hdistinct ?_
  rw [if_neg hdata]
  exact changes_cons (hdistinct _) hnone data

/-- **Removing a packet** leaves what is behind it. -/
theorem keeps_remove {nSize : ℕ} (hdistinct : Distinct b)
    (hsome : retrievePacket b userId nSock = some ⟨userId, data⟩) (hpos : nSize ≠ 0)
    (hle : nSize ≤ data.length) :
    ∃ b', removePacket b userId nSock nSize = some b' ∧
      Keeps b b' userId nSock (data.drop nSize) := by
  rw [removePacket, hsome]
  dsimp only
  by_cases hall : nSize = data.length
  · rw [if_pos (.inr hall), hall, drop_length]
    exact ⟨_, rfl, keeps_update hdistinct (changes_erase (hdistinct _))⟩
  · have hdrop : data.drop nSize ≠ [] := fun h => by
      have hlength := congrArg List.length h
      rw [length_drop, length_nil] at hlength
      omega
    rw [if_neg (by omega), if_neg (by omega)]
    refine ⟨_, rfl, keeps_update hdistinct ?_⟩
    rw [if_neg hdrop]
    exact changes_replace (hdistinct _) _

theorem removePacket_of_none (h : retrievePacket b userId nSock = none) (nSize : ℕ) :
    removePacket b userId nSock nSize = some b := by
  rw [removePacket, h]

end Keeps

/-! ## The loop -/

theorem Command.bytes_ne_nil (c : Command) : c.bytes ≠ [] :=
  append_ne_nil_of_right_ne_nil _ (cons_ne_nil _ _)

theorem length_le_streamBytes (cs : List Command) : cs.length ≤ (streamBytes cs).length := by
  induction cs with
  | nil => exact Nat.le_refl 0
  | cons c cs ih =>
    have hpos := length_pos_iff.mpr c.bytes_ne_nil
    rw [streamBytes, flatMap_cons, length_append, length_cons]
    rw [streamBytes] at ih
    omega

/-- The length of a command is an `unsigned long`. -/
theorem Command.length_bytes_lt (c : Command) : c.bytes.length < 2 ^ 64 := by
  have hdigits : ∀ n < 2 ^ 31, (decimalBytes n).length ≤ 10 := fun n hn => by
    rw [decimalBytes, asciiBytes, length_map]
    exact (Nat.length_toDigits_le_iff (by decide) (by decide)).mpr (by omega)
  have hlength := c.length_bytes
  cases c with
  | line t =>
    have hlt := t.size_lt
    change (line t).bytes.length = t.text.length + 2 + 0 at hlength
    omega
  | msg first second payload =>
    have hfirst := first.size_lt
    have hsecond := second.size_lt
    have hpayload := payload.size_lt
    have hsize := hdigits _ hpayload
    simp only [text, head, rest, msgName, asciiBytes, length_append, length_cons,
      length_map, length_nil] at hlength
    omega
  | not payload =>
    have hpayload := payload.size_lt
    have hsize := hdigits _ hpayload
    simp only [text, head, rest, notName, asciiBytes, length_append, length_cons,
      length_map, length_nil] at hlength
    omega

/-- **A round** dispatches the first command and keeps what is behind it. -/
theorem handleLoop_round {nSocket : ℕ} {userId : UserId} {c : Command} (hzero : 0 ∉ c.text)
    (t : List UInt8) (rounds : ℕ) (behind : List (List UInt8)) {b : Buckets}
    (hdistinct : Distinct b) {bStored : Bool}
    (hstored : retrievePacket b userId nSocket =
      if bStored then some ⟨userId, c.bytes ++ t⟩ else none) :
    ∃ b', Keeps b b' userId nSocket t ∧
      handleLoop nSocket userId (rounds + 1) behind b (c.bytes ++ t) bStored =
        if t = [] then ([c.bytes], some b')
        else (c.bytes :: (handleLoop nSocket userId rounds behind.tail b' t true).1,
          (handleLoop nSocket userId rounds behind.tail b' t true).2) := by
  have hpos := length_pos_iff.mpr c.bytes_ne_nil
  have hsize : (((c.bytes.length : ℕ) : ℤ) % 2 ^ 64).toNat = c.bytes.length := by
    have hlt := c.length_bytes_lt
    omega
  rw [handleLoop, Command.fullSize_complete hzero]
  dsimp only
  simp only [hsize]
  by_cases ht : t = []
  · subst ht
    rw [append_nil] at hstored ⊢
    simp only [Nat.lt_irrefl, false_and, if_false, if_true]
    obtain ⟨b', hremove, hkeeps⟩ : ∃ b', removePacket b userId nSocket c.bytes.length = some b' ∧
        Keeps b b' userId nSocket [] := by
      cases bStored with
      | true =>
        have hdrop := keeps_remove hdistinct hstored (Nat.ne_of_gt hpos) (Nat.le_refl _)
        rwa [drop_length] at hdrop
      | false =>
        exact ⟨b, removePacket_of_none hstored _, hstored, fun _ _ _ => rfl, hdistinct⟩
    refine ⟨b', hkeeps, ?_⟩
    have hhere : retrievePacket b' userId nSocket = none := hkeeps.here
    simp only [hremove, hhere]
  · have hmore : c.bytes.length < (c.bytes ++ t).length := by
      have htpos := length_pos_iff.mpr ht
      rw [length_append]
      omega
    simp only [hmore, true_and, if_true, take_left, ht, if_false]
    obtain ⟨b₁, hb₁, hstore⟩ : ∃ b₁, (if bStored = false then
        storePacket b ⟨userId, c.bytes ++ t⟩ nSocket else b) = b₁ ∧
        Keeps b b₁ userId nSocket (c.bytes ++ t) := by
      have hne : c.bytes ++ t ≠ [] := append_ne_nil_of_right_ne_nil _ ht
      cases bStored with
      | true =>
        refine ⟨b, rfl, ?_, fun _ _ _ => rfl, hdistinct⟩
        rw [hstored, if_pos rfl, if_neg hne]
      | false => exact ⟨_, rfl, keeps_store hdistinct hstored hne⟩
    have hhere : retrievePacket b₁ userId nSocket = some ⟨userId, c.bytes ++ t⟩ := by
      rw [hstore.here, if_neg (append_ne_nil_of_right_ne_nil _ ht)]
    obtain ⟨b', hremove, hkeeps⟩ := keeps_remove hstore.distinct hhere (Nat.ne_of_gt hpos)
      (Nat.le_of_lt hmore)
    rw [drop_left] at hkeeps
    refine ⟨b', hstore.trans hkeeps, ?_⟩
    have hleft : retrievePacket b' userId nSocket = some ⟨userId, t⟩ := by
      rw [hkeeps.here, if_neg ht]
    simp only [hb₁, hremove, hleft]

/-- **The loop dispatches the commands in the data**, and keeps what is behind them. -/
theorem handleLoop_commands {nSocket : ℕ} {userId : UserId} {cs : List Command} {q : List UInt8}
    (hzero : ∀ c ∈ cs, 0 ∉ c.text) {rounds : ℕ} (hrounds : cs.length < rounds)
    {behind : List (List UInt8)} (hwaits : ∀ m, m = [] ∨ m ∈ behind → q ≠ [] → fullSize q m = none)
    {b : Buckets} (hdistinct : Distinct b) (hne : streamBytes cs ++ q ≠ []) (bStored : Bool)
    (hstored : retrievePacket b userId nSocket =
      if bStored then some ⟨userId, streamBytes cs ++ q⟩ else none) :
    ∃ b', handleLoop nSocket userId rounds behind b (streamBytes cs ++ q) bStored
        = (cs.map Command.bytes, some b') ∧ Keeps b b' userId nSocket q := by
  induction cs generalizing rounds behind b bStored with
  | nil =>
    obtain ⟨rounds, rfl⟩ := Nat.exists_eq_succ_of_ne_zero (show rounds ≠ 0 by omega)
    have hnone : fullSize q behind.headI = none := by
      refine hwaits _ ?_ hne
      cases behind with
      | nil => exact .inl rfl
      | cons m behind => exact .inr mem_cons_self
    change retrievePacket b userId nSocket = if bStored then some ⟨userId, q⟩ else none at hstored
    change ∃ b', handleLoop nSocket userId (rounds + 1) behind b q bStored = ([], some b') ∧ _
    rw [handleLoop, hnone]
    cases bStored with
    | true =>
      refine ⟨b, rfl, ?_, fun _ _ _ => rfl, hdistinct⟩
      have hq : q ≠ [] := hne
      rw [hstored, if_pos rfl, if_neg hq]
    | false => exact ⟨_, rfl, keeps_store hdistinct hstored hne⟩
  | cons c cs ih =>
    obtain ⟨rounds, rfl⟩ := Nat.exists_eq_succ_of_ne_zero (show rounds ≠ 0 by omega)
    obtain ⟨hc, hrest⟩ := forall_mem_cons.mp hzero
    have hdata : streamBytes (c :: cs) ++ q = c.bytes ++ (streamBytes cs ++ q) := by
      rw [streamBytes, flatMap_cons, append_assoc]
      rfl
    rw [hdata] at hstored ⊢
    obtain ⟨b₁, hkeeps, hround⟩ := handleLoop_round hc (streamBytes cs ++ q) rounds behind hdistinct
      hstored
    rw [hround]
    by_cases ht : streamBytes cs ++ q = []
    · obtain ⟨hcs, rfl⟩ := append_eq_nil_iff.mp ht
      obtain rfl : cs = [] := by
        have hle := length_le_streamBytes cs
        rw [hcs] at hle
        exact eq_nil_of_length_eq_zero (Nat.le_zero.mp hle)
      exact ⟨b₁, if_pos ht, hkeeps⟩
    · have hleft := hkeeps.here
      rw [if_neg ht] at hleft
      obtain ⟨b', hloop, hkept⟩ := @ih hrest rounds (by rw [length_cons] at hrounds; omega) _
        (fun m hm => hwaits m (hm.imp_right mem_of_mem_tail)) _ hkeeps.distinct ht true
        hleft
      refine ⟨b', ?_, hkeeps.trans hkept⟩
      rw [if_neg ht, hloop]
      rfl

/-- **A packet**, behind what is kept of its connection, is cut into the commands that are complete
then. -/
theorem handlePacket_commands {nSocket : ℕ} {userId : UserId} {behind : List (List UInt8)}
    {b : Buckets} {p packet q : List UInt8} {cs : List Command} (hzero : ∀ c ∈ cs, 0 ∉ c.text)
    (hwaits : ∀ m, m = [] ∨ m ∈ behind → q ≠ [] → fullSize q m = none) (hdistinct : Distinct b)
    (hkept : retrievePacket b userId nSocket = if p = [] then none else some ⟨userId, p⟩)
    (hpacket : packet ≠ []) (hdata : p ++ packet = streamBytes cs ++ q) :
    ∃ b', handlePacket nSocket userId behind b packet = (cs.map Command.bytes, some b') ∧
      Keeps b b' userId nSocket q := by
  have hne : streamBytes cs ++ q ≠ [] := by
    rw [← hdata]
    exact append_ne_nil_of_right_ne_nil _ hpacket
  have hrounds : cs.length < (streamBytes cs ++ q).length + 1 := by
    have hle := length_le_streamBytes cs
    rw [length_append]
    omega
  by_cases hp : p = []
  · rw [if_pos hp] at hkept
    rw [hp, nil_append] at hdata
    obtain ⟨b', hloop, hkeeps⟩ := handleLoop_commands hzero hrounds hwaits hdistinct hne
      false hkept
    refine ⟨b', ?_, hkeeps⟩
    rw [handlePacket, hkept, hdata]
    exact hloop
  · rw [if_neg hp] at hkept
    have hgrown : Keeps b (update b (hashValue nSocket)
        ((b (hashValue nSocket)).map fun e => if e = ⟨userId, p⟩ then ⟨userId, p ++ packet⟩ else e))
        userId nSocket (p ++ packet) := by
      refine keeps_update hdistinct ?_
      rw [if_neg (append_ne_nil_of_right_ne_nil _ hpacket)]
      exact changes_grow (hdistinct _) hkept _
    have hhere := hgrown.here
    rw [hdata, if_neg hne] at hhere
    obtain ⟨b', hloop, hkeeps⟩ := handleLoop_commands hzero hrounds hwaits
      (hdata ▸ hgrown.distinct) hne true hhere
    refine ⟨b', ?_, (hdata ▸ hgrown).trans hkeeps⟩
    rw [handlePacket, hkept]
    dsimp only
    rw [hdata]
    exact hloop

/-! ## Splitting the stream -/

/-- **The first bytes of a stream** are its complete commands and a part of the next one. -/
theorem take_streamBytes (cs : List Command) (n : ℕ) :
    (streamBytes cs).take n = streamBytes (complete cs n) ++ pending cs n := by
  induction cs generalizing n with
  | nil => rw [streamBytes, flatMap_nil, take_nil, complete, pending, next]; rfl
  | cons c cs ih =>
    have hcons : ∀ cs', streamBytes (c :: cs') = c.bytes ++ streamBytes cs' :=
      fun _ => flatMap_cons
    rw [hcons, complete, pending, next]
    by_cases hle : c.bytes.length ≤ n
    · obtain ⟨k, rfl⟩ := Nat.exists_eq_add_of_le hle
      rw [if_pos hle, if_pos hle, hcons, take_length_add_append, Nat.add_sub_cancel_left, ih,
        append_assoc]
      rfl
    · rw [if_neg hle, if_neg hle, take_append_of_le_length (by omega)]
      rfl

theorem mem_of_mem_complete {cs : List Command} {n : ℕ} {c : Command} (h : c ∈ complete cs n) :
    c ∈ cs := by
  induction cs generalizing n with
  | nil => exact h
  | cons d cs ih =>
    rw [complete] at h
    split_ifs at h
    · rcases mem_cons.mp h with rfl | h
      · exact mem_cons_self
      · exact mem_cons_of_mem d (ih h)
    · cases h

/-- **More bytes** complete more commands. -/
theorem complete_mono (cs : List Command) {n m : ℕ} (h : n ≤ m) :
    ∃ new, complete cs m = complete cs n ++ new := by
  induction cs generalizing n m with
  | nil => exact ⟨[], rfl⟩
  | cons c cs ih =>
    rw [complete, complete]
    by_cases hn : c.bytes.length ≤ n
    · obtain ⟨new, hnew⟩ := @ih (n - c.bytes.length) (m - c.bytes.length) (by omega)
      refine ⟨new, ?_⟩
      rw [if_pos hn, if_pos (by omega), hnew]
      rfl
    · rw [if_neg hn]
      exact ⟨_, rfl⟩

/-- **What a chunk completes**, and what is pending then. -/
theorem pending_append_chunk (cs : List Command) (n k : ℕ) :
    ∃ new, complete cs (n + k) = complete cs n ++ new ∧
      pending cs n ++ ((streamBytes cs).drop n).take k = streamBytes new ++ pending cs (n + k) := by
  obtain ⟨new, hnew⟩ := complete_mono cs (Nat.le_add_right n k)
  refine ⟨new, hnew, ?_⟩
  have hall := take_streamBytes cs (n + k)
  have hbytes : streamBytes (complete cs n ++ new) = streamBytes (complete cs n) ++ streamBytes new :=
    flatMap_append
  rw [take_add, take_streamBytes, hnew, hbytes, append_assoc, append_assoc] at hall
  exact append_cancel_left hall

theorem next_lt {cs : List Command} {n : ℕ} {c : Command} {j : ℕ} (h : next cs n = some (c, j)) :
    j < c.bytes.length := by
  induction cs generalizing n with
  | nil => cases h
  | cons d cs ih =>
    rw [next] at h
    split_ifs at h with hle
    · exact ih h
    · obtain ⟨rfl, rfl⟩ := Prod.mk.inj (Option.some.inj h)
      exact Nat.lt_of_not_le hle

/-! ## Runs -/

namespace Link

/-- A connection is opened for lines with no null byte, and finds nothing that is left over, and no
open connection of its user with its bucket.  The memory behind a chunk does not matter, and more
than one byte is missing of a payload that is not complete. -/
def Ok (s : Link) : Act → Prop
  | .connect sock user stream => (∀ c ∈ stream, 0 ∉ c.text) ∧
      retrievePacket s.buckets user sock = none ∧
      ∀ c ∈ s.conns, c.user = user → hashValue c.sock ≠ hashValue sock
  | .receive sock k behind => ∀ c ∈ s.conns, c.sock = sock →
      ∀ p ∈ next c.stream (c.got + k), p.2 = 0 ∨ p.1.Waits p.2 behind
  | .close _ => True

/-- Every open connection has a place of its own for what is kept. -/
structure Inv (s : Link) : Prop where
  good : Good s
  distinct : Distinct s.buckets
  apart : ∀ c ∈ s.conns, ∀ d ∈ s.conns, c.user = d.user → hashValue c.sock = hashValue d.sock → c = d
  sockets : ∀ c ∈ s.conns, ∀ d ∈ s.conns, c.sock = d.sock → c = d
  texts : ∀ c ∈ s.conns, ∀ cmd ∈ c.stream, 0 ∉ cmd.text

theorem inv_start : start.Inv where
  good := ⟨rfl, forall_mem_nil _, forall_mem_nil _⟩
  distinct := fun _ => nodup_nil
  apart := forall_mem_nil _
  sockets := forall_mem_nil _
  texts := forall_mem_nil _

theorem inv_connect {s s' : Link} {sock : ℕ} {user : UserId} {stream : List Command} (h : s.Inv)
    (hok : s.Ok (.connect sock user stream)) (hstep : s.step (.connect sock user stream) = some s') :
    s'.Inv := by
  obtain ⟨hzero, hnone, hother⟩ := hok
  rw [step] at hstep
  split_ifs at hstep with hany
  cases hstep
  have hsock : ∀ c ∈ s.conns, c.sock ≠ sock := by simpa using hany
  have hempty : complete stream 0 = [] ∧ pending stream 0 = [] := by
    cases stream with
    | nil => exact ⟨rfl, rfl⟩
    | cons c cs =>
      have hpos : ¬ c.bytes.length ≤ 0 := by
        have hlt := length_pos_iff.mpr c.bytes_ne_nil
        omega
      rw [complete, pending, next, if_neg hpos, if_neg hpos]
      exact ⟨rfl, take_zero⟩
  constructor
  · refine ⟨h.good.alive, forall_mem_cons.mpr ⟨?_, h.good.out⟩,
      forall_mem_cons.mpr ⟨?_, h.good.kept⟩⟩
    · rw [hempty.1]
      rfl
    · rw [kept, if_pos hempty.2]
      exact hnone
  · exact h.distinct
  · refine forall_mem_cons.mpr ⟨forall_mem_cons.mpr ⟨fun _ _ => rfl, ?_⟩, fun c hc =>
      forall_mem_cons.mpr ⟨?_, h.apart c hc⟩⟩
    · exact fun c hc huser hhash => absurd hhash.symm (hother c hc huser.symm)
    · exact fun huser hhash => absurd hhash (hother c hc huser)
  · refine forall_mem_cons.mpr ⟨forall_mem_cons.mpr ⟨fun _ => rfl, ?_⟩, fun c hc =>
      forall_mem_cons.mpr ⟨?_, h.sockets c hc⟩⟩
    · exact fun c hc heq => absurd heq.symm (hsock c hc)
    · exact fun heq => absurd heq (hsock c hc)
  · exact forall_mem_cons.mpr ⟨hzero, h.texts⟩

theorem inv_close {s s' : Link} {sock : ℕ} (h : s.Inv) (hstep : s.step (.close sock) = some s') :
    s'.Inv := by
  rw [step] at hstep
  split_ifs at hstep
  cases hstep
  have hmem : ∀ c, c ∈ s.conns.filter (·.sock ≠ sock) → c ∈ s.conns :=
    fun c hc => mem_of_mem_filter hc
  exact ⟨⟨h.good.alive, fun c hc => h.good.out c (hmem c hc), fun c hc => h.good.kept c (hmem c hc)⟩,
    h.distinct, fun c hc d hd => h.apart c (hmem c hc) d (hmem d hd),
    fun c hc d hd => h.sockets c (hmem c hc) d (hmem d hd), fun c hc => h.texts c (hmem c hc)⟩

/-- **A chunk** of one connection leaves the others alone. -/
theorem inv_receive {s s' : Link} {sock k : ℕ} {behind : List (List UInt8)} (h : s.Inv)
    (hok : s.Ok (.receive sock k behind)) (hstep : s.step (.receive sock k behind) = some s') :
    s'.Inv := by
  rw [step] at hstep
  cases hfind : s.conns.find? (·.sock = sock) with
  | none =>
    rw [hfind] at hstep
    cases hstep
  | some c =>
    rw [hfind] at hstep
    dsimp only at hstep
    split_ifs at hstep with hsize
    have hc : c ∈ s.conns := mem_of_find?_eq_some hfind
    have hsock : c.sock = sock := by simpa using find?_some hfind
    obtain ⟨new, hnew, hdata⟩ := pending_append_chunk c.stream c.got k
    have hzero : ∀ cmd ∈ new, 0 ∉ cmd.text := fun cmd hcmd => by
      refine h.texts c hc cmd (@mem_of_mem_complete _ (c.got + k) _ ?_)
      rw [hnew]
      exact mem_append_right _ hcmd
    have hwaits : ∀ m, m = [] ∨ m ∈ behind → pending c.stream (c.got + k) ≠ [] →
        fullSize (pending c.stream (c.got + k)) m = none := by
      intro m hm hne
      rw [pending] at hne ⊢
      cases hnext : next c.stream (c.got + k) with
      | none =>
        rw [hnext] at hne
        exact absurd rfl hne
      | some p =>
        rw [hnext] at hne
        obtain ⟨cmd, j⟩ := p
        rcases hok c hc hsock (cmd, j) hnext with hj | hwaits
        · obtain rfl : j = 0 := hj
          exact absurd take_zero hne
        · exact Command.fullSize_of_waits (next_lt hnext) hwaits hm
    have hpacket : chunk c k ≠ [] := by
      have hlength : (chunk c k).length = k := by
        rw [chunk, length_take, length_drop]
        omega
      intro hnil
      rw [hnil, length_nil] at hlength
      omega
    obtain ⟨b', hhandle, hkeeps⟩ := handlePacket_commands hzero hwaits h.distinct
      (h.good.kept c hc) hpacket hdata
    rw [hsock] at hhandle hkeeps
    rw [hhandle] at hstep
    cases hstep
    obtain ⟨f, hf⟩ : ∃ f, f = received sock k (new.map Command.bytes) := ⟨_, rfl⟩
    have hsame : ∀ d : Conn, (f d).sock = d.sock ∧ (f d).user = d.user ∧
        (f d).stream = d.stream := fun d => by
      rw [hf, received]
      split_ifs <;> exact ⟨rfl, rfl, rfl⟩
    have hother : ∀ d, d.sock ≠ sock → f d = d := fun d hd => by rw [hf, received, if_neg hd]
    have hself : f c = { c with got := c.got + k, out := c.out ++ new.map Command.bytes } := by
      rw [hf, received, if_pos hsock]
    have honly : ∀ d ∈ s.conns, d.sock = sock → d = c := fun d hd hdsock =>
      h.sockets d hd c hc (hdsock.trans hsock.symm)
    rw [← hf]
    constructor
    · refine ⟨by rw [h.good.alive]; rfl, forall_mem_map.mpr fun d hd => ?_,
        forall_mem_map.mpr fun d hd => ?_⟩
      · by_cases hd' : d.sock = sock
        · rw [honly d hd hd', hself, h.good.out c hc, hnew, map_append]
        · rw [hother d hd']
          exact h.good.out d hd
      · by_cases hd' : d.sock = sock
        · rw [honly d hd hd', hself, hsock]
          exact hkeeps.here
        · rw [hother d hd', ← h.good.kept d hd]
          refine hkeeps.others d.user d.sock ?_
          by_contra hboth
          obtain ⟨huser, hhash⟩ := not_or.mp hboth
          refine hd' (hsock ▸ congrArg Conn.sock (h.apart d hd c hc (not_not.mp huser) ?_))
          rw [hsock]
          exact not_not.mp hhash
    · exact hkeeps.distinct
    · refine forall_mem_map.mpr fun d hd => forall_mem_map.mpr fun e he => ?_
      rw [(hsame d).1, (hsame e).1, (hsame d).2.1, (hsame e).2.1]
      exact fun huser hhash => congrArg f (h.apart d hd e he huser hhash)
    · refine forall_mem_map.mpr fun d hd => forall_mem_map.mpr fun e he => ?_
      rw [(hsame d).1, (hsame e).1]
      exact fun heq => congrArg f (h.sockets d hd e he heq)
    · refine forall_mem_map.mpr fun d hd => ?_
      rw [(hsame d).2.2]
      exact h.texts d hd

theorem inv_step {s s' : Link} {a : Act} (h : s.Inv) (hok : s.Ok a) (hstep : s.step a = some s') :
    s'.Inv := by
  cases a with
  | connect sock user stream => exact inv_connect h hok hstep
  | receive sock k behind => exact inv_receive h hok hstep
  | close sock => exact inv_close h hstep

instance Ok.decidable (s : Link) : (a : Act) → Decidable (s.Ok a)
  | .connect _ _ _ => inferInstanceAs (Decidable (_ ∧ _ ∧ _))
  | .receive sock k behind => inferInstanceAs (Decidable (∀ c ∈ s.conns, c.sock = sock →
      ∀ p ∈ next c.stream (c.got + k), p.2 = 0 ∨ p.1.Waits p.2 behind))
  | .close _ => isTrue trivial

/-- **Main result.**  Every connection has the commands dispatched that it got, in every state of a
run whose steps meet the condition. -/
theorem reassembles (as : List Act) (h : Steps.Each step Ok start as) :
    Steps.Stays step Good start as :=
  Steps.Stays.mono (fun _ hinv => hinv.good)
    (Steps.stays_of_each (fun _ _ _ hinv hok hstep => inv_step hinv hok hstep) inv_start h)

/-- `ACK 1` -/
def ackOne : Command := .line
  { text := asciiBytes ['A', 'C', 'K', ' ', '1']
    size_lt := by decide
    plain := List.all_iff_forall_prop.mp (by decide)
    noPayload := by decide }

/-- `NOT 2` with two bytes. -/
def notTwo : Command := .not ⟨[0x41, 0x42], by decide⟩

/-- A user. -/
def hotmail : UserId := UserId.owner msnPpid ['a']

theorem reassembles_chunks : Steps.Stays step Good start
    [.connect 5 hotmail [ackOne, notTwo, ackOne], .receive 5 4 [[cr, lf]], .receive 5 10 [],
      .receive 5 9 [], .close 5, .connect 5 hotmail [ackOne]] :=
  reassembles _ (by decide)

/-- A payload is dispatched without its last byte, and what is left of a connection goes before what
comes on the next one. -/
theorem not_reassembles_cut :
    ¬ Steps.Stays step Good start [.connect 5 hotmail [notTwo], .receive 5 8 []] ∧
      ¬ Steps.Stays step Good start [.connect 5 hotmail [ackOne], .receive 5 3 [], .close 5,
        .connect 5 hotmail [ackOne], .receive 5 7 []] := by
  constructor
  · intro h
    have hgood := (h.2 _ rfl).2 _ rfl
    exact absurd (hgood.out _ List.mem_cons_self) (by decide)
  · intro h
    have hgood := ((((h.2 _ rfl).2 _ rfl).2 _ rfl).2 _ rfl).2 _ rfl
    exact absurd (hgood.out _ List.mem_cons_self) (by decide)

end Link

end Licq.Msn
