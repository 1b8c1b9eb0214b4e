import Licq.Msn.Buffer
import Licq.Text.Bytes
import Licq.Text.Search

/-!
# Msn/Ssl — the response of the authentication server

`CMSN::ProcessSSLServerPacket` collects the chunks of a response until one ends with a blank line, and
then reads the status line and the headers.  Whether a chunk is the first one, which is in the buffer
already, it tells by comparing its size with that of the buffer.

The **main result** `handlesWhole_iff` says for which splits the whole response is handled.
-/

namespace Licq.Msn

open Text List Option

/-! ## The response -/

/-- What comes of a response. -/
inductive Answer
  /-- `CPS_MSNSendTicket`; none where the pointers into the header leave its value. -/
  | ticket (tag : Option (List UInt8))
  /-- `MSNAuthenticate` with another server. -/
  | redirect (strHost strParam : List UInt8)
  | malformedLocation
  | invalidPassword
  | unknownError
  deriving DecidableEq

/-- The first line, up to its carriage return; none where there is no carriage return, and the loop
never ends. -/
def readFirstLine : List UInt8 → Option (List UInt8 × List UInt8)
  | [] => none
  | c :: s => if c = cr then some ([], s) else (readFirstLine s).map fun r => (c :: r.1, r.2)

/-- The ticket in the value of `Authentication-Info`, behind `from-PP='` and up to the next quote,
or the cookie. -/
def ticketTag (myCookie value : List UInt8) : Option (List UInt8) :=
  match find (asciiBytes ['f', 'r', 'o', 'm', '-', 'P', 'P', '=']) value with
  | none => some myCookie
  | some i =>
    let fromPP := value.drop (i + 9)
    if 0x27 ∈ fromPP then some (fromPP.takeWhile (· ≠ 0x27)) else none

/-- Where `Location` says that the server is. -/
def redirectTo (strLocation : List UInt8) : Answer :=
  match findFrom (asciiBytes ['/']) strLocation 9 with
  | some pos => .redirect ((strLocation.drop 8).take (pos - 8)) (strLocation.drop pos)
  | none => .malformedLocation

/-- What a response is answered with; none where the first line never ends. -/
def answer (myCookie data : List UInt8) : Option Answer := do
  let (strFirstLine, s) ← readFirstLine data
  -- skip \n as well
  let (headers, _) := parseHeaders data (readChar s).2
  if strFirstLine = asciiBytes ['H', 'T', 'T', 'P', '/', '1', '.', '1', ' ', '2', '0', '0', ' ',
      'O', 'K'] then
    some (.ticket (ticketTag myCookie (getValue headers (asciiBytes ['A', 'u', 't', 'h', 'e', 'n',
      't', 'i', 'c', 'a', 't', 'i', 'o', 'n', '-', 'I', 'n', 'f', 'o']))))
  else if strFirstLine = asciiBytes ['H', 'T', 'T', 'P', '/', '1', '.', '1', ' ', '3', '0', '2', ' ',
      'F', 'o', 'u', 'n', 'd'] then
    some (redirectTo (getValue headers (asciiBytes ['L', 'o', 'c', 'a', 't', 'i', 'o', 'n'])))
  else if strFirstLine = asciiBytes ['H', 'T', 'T', 'P', '/', '1', '.', '1', ' ', '4', '0', '1', ' ',
      'U', 'n', 'a', 'u', 't', 'h', 'o', 'r', 'i', 'z', 'e', 'd'] then some .invalidPassword
  else some .unknownError

/-! ## Collecting it -/

/-- What the plugin keeps of the authentication, and the responses it has handled. -/
structure Ssl where
  m_pSSLPacket : Option (List UInt8)
  myCookie : List UInt8
  handled : List (List UInt8 × Answer)

/-- The end of a response. -/
def blankLine : List UInt8 := [cr, lf, cr, lf]

/-- The buffer with a chunk; a buffer that is as long as the chunk is taken for its copy. -/
def collect (m_pSSLPacket : Option (List UInt8)) (packet : List UInt8) : List UInt8 :=
  let data := m_pSSLPacket.getD packet
  if data.length ≠ packet.length then data ++ packet else data

/-- The response is answered, and the buffer is given up. -/
def Ssl.handle (s : Ssl) (data : List UInt8) (a : Answer) : Ssl where
  m_pSSLPacket := none
  myCookie := match a with
    | .ticket _ => []
    | _ => s.myCookie
  handled := s.handled ++ [(data, a)]

/-- `CMSN::ProcessSSLServerPacket`; none where it reads before the start of the chunk or never
ends. -/
def processSSLServerPacket (s : Ssl) (packet : List UInt8) : Option Ssl :=
  if packet.length < 4 then none
  else
    let data := collect s.m_pSSLPacket packet
    if packet.drop (packet.length - 4) ≠ blankLine then some { s with m_pSSLPacket := some data }
    else (answer s.myCookie data).map (s.handle data)

/-- Chunks that are received one after the other. -/
def receiveAll (s : Ssl) (chunks : List (List UInt8)) : Option Ssl :=
  chunks.foldlM processSSLServerPacket s

/-- Nothing has been received. -/
def Ssl.init (myCookie : List UInt8) : Ssl := ⟨none, myCookie, []⟩

/-- A response: a status line and headers, and the blank line behind them. -/
def responseText (status : HeaderLine) (headers : List HeaderLine) : List UInt8 :=
  blockText (status :: headers) ++ [cr, lf]

/-- The response is handled when its last chunk has been received, and not before, and all of it
is. -/
structure HandlesWhole (myCookie response : List UInt8) (chunks : List (List UInt8)) : Prop where
  waits : ∀ n < chunks.length,
    (receiveAll (.init myCookie) (chunks.take n)).map Ssl.handled = some []
  handles : ∃ a, answer myCookie response = some a ∧
    (receiveAll (.init myCookie) chunks).map Ssl.handled = some [(response, a)]

/-- Behind the bytes that were received before, every chunk is long enough for the blank line, and
none is as long as all before it together. -/
def Tellable (acc : List UInt8) (chunks : List (List UInt8)) : Prop :=
  ∀ before c after, chunks = before ++ c :: after →
    4 ≤ c.length ∧ (acc ++ before.flatten).length ≠ c.length

/-! ## The end of a response -/

/-- **The blank line is nowhere but at the end** of a response. -/
theorem eq_nil_of_blankLine {lines : List HeaderLine} {q t : List UInt8}
    (h : blockText lines ++ [cr, lf] = q ++ (blankLine ++ t)) : t = [] := by
  induction lines generalizing q with
  | nil =>
    have hlength := congrArg List.length h
    simp only [blockText, flatMap_nil, length_append, length_cons, blankLine,
      length_nil] at hlength
    omega
  | cons l lines ih =>
    -- where the line ends at the blank line, there is no line behind it
    have hends : cr :: lf :: (blockText lines ++ [cr, lf]) = blankLine ++ t → t = [] := by
      intro ha
      have htail := (List.cons.inj (List.cons.inj ha).2).2
      cases lines with
      | nil => exact (List.cons.inj (List.cons.inj htail).2).2.symm
      | cons l' lines =>
        rw [blockText_cons] at htail
        obtain ⟨c, x, hx⟩ := exists_cons_of_ne_nil l'.ne_nil
        rw [hx] at htail
        refine absurd (List.cons.inj htail).1 (l'.plain c ?_).1
        rw [hx]
        exact mem_cons_self
    rw [blockText_cons, append_eq_append_iff] at h
    obtain ⟨a, rfl, ha⟩ | ⟨a, htext, ha⟩ := h
    · cases a with
      | nil => exact hends ha
      | cons c a =>
        obtain ⟨-, ha⟩ := List.cons.inj ha
        cases a with
        | nil => exact absurd (List.cons.inj ha).1 (by decide)
        | cons d a => exact ih (List.cons.inj ha).2
    · cases a with
      | nil => exact hends ha.symm
      | cons c a =>
        obtain rfl : cr = c := (List.cons.inj ha).1
        refine absurd rfl (l.plain cr ?_).1
        rw [htext]
        exact mem_append_right q mem_cons_self

theorem exists_responseText (status : HeaderLine) (headers : List HeaderLine) :
    ∃ x, responseText status headers = x ++ blankLine := by
  have hblock : ∃ x, blockText (status :: headers) = x ++ [cr, lf] := by
    induction headers generalizing status with
    | nil => exact ⟨status.text, append_nil _⟩
    | cons l headers ih =>
      obtain ⟨x, hx⟩ := ih l
      refine ⟨status.text ++ [cr, lf] ++ x, ?_⟩
      rw [append_assoc, ← hx]
      rfl
  obtain ⟨x, hx⟩ := hblock
  exact ⟨x, by rw [responseText, hx, append_assoc]; rfl⟩

/-- A chunk at the end of a response that is long enough for the blank line ends with it. -/
theorem drop_of_responseText {acc c : List UInt8} {status : HeaderLine} {headers : List HeaderLine}
    (hc : 4 ≤ c.length) (h : acc ++ c = responseText status headers) :
    c.drop (c.length - 4) = blankLine := by
  obtain ⟨x, hx⟩ := exists_responseText status headers
  rw [hx] at h
  have hlength := congrArg List.length h
  rw [length_append, length_append] at hlength
  have hfour : blankLine.length = 4 := rfl
  have hdrop := congrArg (List.drop x.length) h
  have hsum : x.length = acc.length + (c.length - 4) := by omega
  rwa [drop_left, hsum, ← drop_drop, drop_left] at hdrop

/-- **The first line of a response** ends. -/
theorem readFirstLine_append {x : List UInt8} (hx : ∀ c ∈ x, c ≠ cr) (s : List UInt8) :
    readFirstLine (x ++ cr :: s) = some (x, s) := by
  induction x with
  | nil => exact if_pos rfl
  | cons c x ih =>
    obtain ⟨hc, hx⟩ := forall_mem_cons.mp hx
    rw [cons_append, readFirstLine, if_neg hc, ih hx]
    rfl

theorem answer_isSome (myCookie : List UInt8) (status : HeaderLine) (headers : List HeaderLine) :
    ∃ a, answer myCookie (responseText status headers) = some a := by
  have hline := readFirstLine_append (fun c hc => (status.plain c hc).1)
    (lf :: (blockText headers ++ [cr, lf]))
  rw [responseText, blockText_cons, answer, hline]
  simp only [bind_eq_bind, bind_some]
  split_ifs <;> exact ⟨_, rfl⟩

/-! ## One chunk -/

section Chunks

variable {myCookie response acc c : List UInt8} {s s' : Ssl}

/-- The buffer when these bytes have been received. -/
def held (acc : List UInt8) : Option (List UInt8) := if acc = [] then none else some acc

theorem collect_held (hc : 4 ≤ c.length) :
    collect (held acc) c = if acc.length ≠ c.length then acc ++ c else acc := by
  rw [collect, held]
  by_cases hacc : acc = []
  · rw [if_pos hacc, hacc, getD_none, length_nil, if_neg (not_not_intro rfl),
      if_pos (by omega), nil_append]
  · rw [if_neg hacc, getD_some]

/-- A chunk is added where its length tells it from the buffer. -/
theorem collect_of_ne (hc : 4 ≤ c.length) (hlen : acc.length ≠ c.length) :
    collect (held acc) c = acc ++ c := by
  rw [collect_held hc, if_pos hlen]

theorem held_append (hc : 4 ≤ c.length) : held (acc ++ c) = some (acc ++ c) := by
  refine if_neg fun h => absurd (congrArg List.length (append_eq_nil_iff.mp h).2) ?_
  rw [length_nil]
  omega

/-- A chunk that does not end with the blank line. -/
theorem process_waits (hc : 4 ≤ c.length) (hend : c.drop (c.length - 4) ≠ blankLine) :
    processSSLServerPacket s c = some { s with m_pSSLPacket := some (collect s.m_pSSLPacket c) } := by
  rw [processSSLServerPacket, if_neg (by omega), if_pos hend]

/-- A chunk that ends with it. -/
theorem process_ends (hc : 4 ≤ c.length) (hend : c.drop (c.length - 4) = blankLine) :
    processSSLServerPacket s c = (answer s.myCookie (collect s.m_pSSLPacket c)).map
      (s.handle (collect s.m_pSSLPacket c)) := by
  rw [processSSLServerPacket, if_neg (by omega), if_neg (not_not_intro hend)]

/-- What is handled or kept is no longer than what was received. -/
structure Ssl.Bounded (s : Ssl) (n : ℕ) : Prop where
  packet : ∀ data ∈ s.m_pSSLPacket, data.length ≤ n
  handled : ∀ r ∈ s.handled, r.1.length ≤ n

theorem length_collect_le {n : ℕ} (h : s.Bounded n) : (collect s.m_pSSLPacket c).length ≤ n + c.length := by
  rw [collect]
  cases hpacket : s.m_pSSLPacket with
  | none =>
    rw [getD_none, if_neg (not_not_intro rfl)]
    omega
  | some data =>
    have hle := h.packet data hpacket
    rw [getD_some]
    split_ifs
    · rw [length_append]
      omega
    · omega

theorem Ssl.Bounded.process {n : ℕ} (h : s.Bounded n) (hs : processSSLServerPacket s c = some s') :
    s'.Bounded (n + c.length) := by
  have hle := length_collect_le (c := c) h
  have hold : ∀ r ∈ s.handled, r.1.length ≤ n + c.length := fun r hr =>
    (h.handled r hr).trans (Nat.le_add_right ..)
  rw [processSSLServerPacket] at hs
  split_ifs at hs with hshort hend
  · cases hs
    refine ⟨fun data hdata => ?_, hold⟩
    cases hdata
    exact hle
  · obtain ⟨a, -, rfl⟩ := map_eq_some_iff.mp hs
    refine ⟨fun data hdata => absurd hdata (not_mem_none _), fun r hr => ?_⟩
    obtain hr | hr := mem_append.mp hr
    · exact hold r hr
    · obtain rfl := mem_singleton.mp hr
      exact hle

theorem Ssl.Bounded.receiveAll {n : ℕ} (h : s.Bounded n) {chunks : List (List UInt8)}
    (hs : receiveAll s chunks = some s') : s'.Bounded (n + chunks.flatten.length) := by
  induction chunks generalizing n s with
  | nil =>
    cases hs
    exact h
  | cons c chunks ih =>
    rw [Msn.receiveAll, foldlM_cons, bind_eq_bind, bind_eq_some_iff] at hs
    obtain ⟨t, ht, hs⟩ := hs
    have ht := ih (h.process ht) hs
    rw [flatten_cons, length_append, ← Nat.add_assoc]
    exact ht

theorem receiveAll_cons {chunks : List (List UInt8)} (h : processSSLServerPacket s c = some s') :
    receiveAll s (c :: chunks) = receiveAll s' chunks := by
  rw [receiveAll, foldlM_cons, h]
  rfl

theorem receiveAll_singleton (s : Ssl) (c : List UInt8) :
    receiveAll s [c] = processSSLServerPacket s c := by
  rw [receiveAll, foldlM_cons]
  cases processSSLServerPacket s c <;> rfl

end Chunks

/-! ## All chunks -/

section Split

variable {response acc : List UInt8} {chunks : List (List UInt8)} {s : Ssl} {a : Answer}

theorem tellable_nil (acc : List UInt8) : Tellable acc [] := fun before c after h =>
  absurd h.symm (append_ne_nil_of_right_ne_nil before (cons_ne_nil c after))

theorem tellable_cons {c : List UInt8} :
    Tellable acc (c :: chunks) ↔
      (4 ≤ c.length ∧ acc.length ≠ c.length) ∧ Tellable (acc ++ c) chunks := by
  constructor
  · intro h
    refine ⟨?_, fun before d after hchunks => ?_⟩
    · have hfirst := h [] c chunks rfl
      rwa [flatten_nil, append_nil] at hfirst
    · have hrest := h (c :: before) d after (congrArg (c :: ·) hchunks)
      rwa [flatten_cons, ← append_assoc] at hrest
  · rintro ⟨hfirst, hrest⟩ before d after hchunks
    cases before with
    | nil =>
      obtain ⟨rfl, -⟩ := List.cons.inj hchunks
      rwa [flatten_nil, append_nil]
    | cons b before =>
      obtain ⟨rfl, htail⟩ := List.cons.inj hchunks
      have hd := hrest before d after htail
      rwa [flatten_cons, ← append_assoc]

/-- From a state on, the response is handled with the last of these chunks, and not before. -/
structure HandlesFrom (s : Ssl) (response : List UInt8) (chunks : List (List UInt8)) (a : Answer) :
    Prop where
  waits : ∀ n < chunks.length, (receiveAll s (chunks.take n)).map Ssl.handled = some []
  handles : (receiveAll s chunks).map Ssl.handled = some [(response, a)]

theorem HandlesFrom.tail {c : List UInt8} {t : Ssl} (h : HandlesFrom s response (c :: chunks) a)
    (ht : processSSLServerPacket s c = some t) : HandlesFrom t response chunks a where
  waits n hn := by
    have hwaits := h.waits (n + 1) (Nat.succ_lt_succ hn)
    rwa [take_succ_cons, receiveAll_cons ht] at hwaits
  handles := by
    have hhandles := h.handles
    rwa [receiveAll_cons ht] at hhandles

/-- A chunk after which something has been handled is the last one. -/
theorem HandlesFrom.eq_nil {c : List UInt8} {t : Ssl} (h : HandlesFrom s response (c :: chunks) a)
    (ht : processSSLServerPacket s c = some t) (hhandled : t.handled ≠ []) : chunks = [] := by
  by_contra hne
  have hpos : 1 < (c :: chunks).length := Nat.succ_lt_succ (length_pos_iff.mpr hne)
  have hwaits := h.waits 1 hpos
  rw [take_succ_cons, take_zero, receiveAll_singleton, ht] at hwaits
  exact hhandled (some.inj hwaits)

/-- **The chunks of a response that is handled whole** can be told from the buffer. -/
theorem HandlesFrom.tellable (h : HandlesFrom s response chunks a) (hs : s.m_pSSLPacket = held acc)
    (hnone : s.handled = []) (hresponse : acc ++ chunks.flatten = response) :
    Tellable acc chunks := by
  induction chunks generalizing acc s with
  | nil => exact tellable_nil acc
  | cons c chunks ih =>
    rw [flatten_cons] at hresponse
    obtain ⟨t, ht⟩ : ∃ t, processSSLServerPacket s c = some t := by
      cases hprocess : processSSLServerPacket s c with
      | some t => exact ⟨t, rfl⟩
      | none =>
        have hhandles := h.handles
        rw [receiveAll, foldlM_cons, hprocess] at hhandles
        cases hhandles
    have hc : 4 ≤ c.length := by
      by_contra hshort
      rw [processSSLServerPacket, if_pos (by omega)] at ht
      cases ht
    have htail := h.tail ht
    by_cases hend : c.drop (c.length - 4) = blankLine
    · -- the last chunk: what is handled is what has been collected
      rw [process_ends hc hend] at ht
      obtain ⟨b, -, rfl⟩ := map_eq_some_iff.mp ht
      obtain rfl : chunks = [] := h.eq_nil ((process_ends hc hend).trans ht)
        (append_ne_nil_of_right_ne_nil _ (cons_ne_nil _ _))
      have hdata : collect s.m_pSSLPacket c = response := by
        have hlast : s.handled ++ [(collect s.m_pSSLPacket c, b)] = [(response, a)] :=
          some.inj htail.handles
        rw [hnone, nil_append] at hlast
        exact congrArg Prod.fst (List.cons.inj hlast).1
      refine tellable_cons.mpr ⟨⟨hc, fun hlen => ?_⟩, tellable_nil _⟩
      rw [hs, collect_held hc, if_neg (not_not_intro hlen), ← hresponse] at hdata
      have hlength := congrArg List.length hdata
      simp only [length_append] at hlength
      omega
    · cases ht.symm.trans (process_waits hc hend)
      by_cases hlen : acc.length = c.length
      · -- the chunk is lost, and nothing that is handled is long enough
        exfalso
        have hcollect : collect s.m_pSSLPacket c = acc := by
          rw [hs, collect_held hc, if_neg (not_not_intro hlen)]
        have hbounded : Ssl.Bounded { s with m_pSSLPacket := some (collect s.m_pSSLPacket c) }
            acc.length := by
          refine ⟨fun data hdata => ?_, fun r hr => ?_⟩
          · rw [hcollect] at hdata
            rw [← some.inj hdata]
          · rw [hnone] at hr
            exact absurd hr not_mem_nil
        obtain ⟨s', hs', hhandled⟩ := map_eq_some_iff.mp htail.handles
        have hle := (hbounded.receiveAll hs').handled (response, a) (by simp [hhandled])
        rw [← hresponse] at hle
        simp only [length_append] at hle
        omega
      · refine tellable_cons.mpr ⟨⟨hc, hlen⟩, ih htail ?_ hnone ?_⟩
        · rw [hs, collect_of_ne hc hlen, held_append hc]
        · rw [append_assoc, hresponse]

/-- **Chunks that can be told from the buffer** are handled whole. -/
theorem Tellable.handles (h : Tellable acc chunks) (hne : chunks ≠ [])
    (hs : s.m_pSSLPacket = held acc) (hnone : s.handled = []) {status : HeaderLine}
    {headers : List HeaderLine} (hresponse : acc ++ chunks.flatten = responseText status headers)
    (ha : answer s.myCookie (responseText status headers) = some a) :
    HandlesFrom s (responseText status headers) chunks a := by
  induction chunks generalizing acc s with
  | nil => exact absurd rfl hne
  | cons c chunks ih =>
    obtain ⟨⟨hc, hlen⟩, hrest⟩ := tellable_cons.mp h
    have hcollect : collect s.m_pSSLPacket c = acc ++ c := by rw [hs, collect_of_ne hc hlen]
    have hfirst : ∀ n, n = 0 → (receiveAll s ((c :: chunks).take n)).map Ssl.handled = some [] :=
      fun n hn => by
        rw [hn]
        exact congrArg some hnone
    rw [flatten_cons] at hresponse
    by_cases hnil : chunks = []
    · subst hnil
      rw [flatten_nil, append_nil] at hresponse
      have hend := drop_of_responseText hc hresponse
      have hprocess := process_ends (s := s) hc hend
      rw [hcollect, hresponse, ha, map_some] at hprocess
      refine ⟨fun n hn => hfirst n (by rw [length_singleton] at hn; omega), ?_⟩
      rw [receiveAll_singleton, hprocess]
      exact congrArg some (congrArg (· ++ _) hnone)
    · have hend : c.drop (c.length - 4) ≠ blankLine := by
        intro hend
        rw [← take_append_drop (c.length - 4) c, hend, append_assoc,
          ← append_assoc] at hresponse
        have hflatten := eq_nil_of_blankLine hresponse.symm
        obtain ⟨d, ds, rfl⟩ := exists_cons_of_ne_nil hnil
        rw [flatten_cons, append_eq_nil_iff] at hflatten
        have hd := (tellable_cons.mp hrest).1.1
        rw [hflatten.1, length_nil] at hd
        omega
      have hprocess := process_waits (s := s) hc hend
      have htail := ih hrest hnil (s := { s with m_pSSLPacket := some (collect s.m_pSSLPacket c) })
        (by rw [hcollect, held_append hc]) hnone (by rw [append_assoc, hresponse]) ha
      refine ⟨fun n hn => ?_, ?_⟩
      · cases n with
        | zero => exact hfirst 0 rfl
        | succ n =>
          rw [take_succ_cons, receiveAll_cons hprocess]
          exact htail.waits n (Nat.lt_of_succ_lt_succ hn)
      · rw [receiveAll_cons hprocess]
        exact htail.handles

/-- **The whole response is handled** with its last chunk if and only if every chunk holds four bytes
at least and none is as long as all the chunks before it together. -/
theorem handlesWhole_iff (myCookie : List UInt8) (status : HeaderLine) (headers : List HeaderLine)
    (chunks : List (List UInt8)) (h : chunks.flatten = responseText status headers) :
    HandlesWhole myCookie (responseText status headers) chunks ↔ Tellable [] chunks := by
  obtain ⟨a, ha⟩ := answer_isSome myCookie status headers
  have hne : chunks ≠ [] := by
    rintro rfl
    obtain ⟨x, hx⟩ := exists_responseText status headers
    rw [hx] at h
    exact absurd h.symm (List.append_ne_nil_of_right_ne_nil x (List.cons_ne_nil _ _))
  constructor
  · rintro ⟨hwaits, b, -, hhandles⟩
    exact HandlesFrom.tellable ⟨hwaits, hhandles⟩ rfl rfl h
  · intro htellable
    have hhandles := @Tellable.handles [] chunks (.init myCookie) a htellable hne rfl rfl status
      headers h ha
    exact ⟨hhandles.waits, a, ha, hhandles.handles⟩

/-- The status line `HTTP`. -/
def shortStatus : HeaderLine where
  text := asciiBytes ['H', 'T', 'T', 'P']
  ne_nil := by decide
  plain := by decide +kernel

theorem handlesWhole_iff_shortStatus :
    HandlesWhole [] (responseText shortStatus []) [responseText shortStatus []] ↔
      Tellable [] [responseText shortStatus []] :=
  handlesWhole_iff [] shortStatus [] _ (by decide)

/-- The second half of a response is as long as the first one, and is left out. -/
theorem not_handlesWhole_halves :
    ¬ ∀ myCookie status headers chunks, chunks.flatten = responseText status headers →
      HandlesWhole myCookie (responseText status headers) chunks := by
  intro h
  have hwhole := h [] shortStatus [] [shortStatus.text, blankLine] (by decide)
  obtain ⟨a, -, hhandles⟩ := hwhole.handles
  have hnone : receiveAll (.init []) [shortStatus.text, blankLine] = none :=
    Option.isNone_iff_eq_none.mp (by decide +kernel)
  rw [hnone] at hhandles
  cases hhandles

end Split

end Licq.Msn
