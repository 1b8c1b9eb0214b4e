import Licq.Wire.Framing

/-!
# Daemon/Fifo — the command fifo

`Fifo::rawFileEvent` reads from the fifo into a buffer of 1024 bytes on the stack, appends what it
has read to `myInputBuffer`, and dispatches the lines that are whole: each is to be copied from
`myInputBuffer` to the buffer on the stack and taken to pieces there by `line2argv`.  The arguments
of the copy are in the wrong order (`stringCopy`), so that nothing is copied and what is dispatched
are the first bytes of the last read.

The **main result** `rawFileEvents_eq` says that the lines of the fifo are dispatched as long as
every read that ends a line (`ReadOk`) begins with that line, has no other one, and the line has
fewer than 1023 characters, no null character and a character that is not a space.  A line that is
ended by a later read than the one that began it is never dispatched (`dispatched_ne_of_split`).
-/

open Wire

namespace Licq.Fifo

open List

/-! ## Lines to arguments -/

def nl : UInt8 := 10

/-- `isspace` -/
def isspace (c : UInt8) : Bool := (9 ≤ c && c ≤ 13) || c == 32

/-- The C string at the beginning of some memory. -/
def cString (buf : List UInt8) : List UInt8 := buf.takeWhile (· != 0)

/-- `getQuotedChar` -/
def getQuotedChar (c : UInt8) : UInt8 :=
  if c = 110 then 10
  else if c = 116 then 9
  else if c = 118 then 11
  else if c = 98 then 8
  else if c = 114 then 13
  else if c = 102 then 12
  else if c = 97 then 7
  else c

/-- The first place from `p` on without a space. -/
def skipSpaces (buf : List UInt8) (p : ℕ) : ℕ := p + ((buf.drop p).takeWhile isspace).length

/-- The last place before `q` without a space; none where the memory before the buffer is read. -/
def lastNonSpace (buf : List UInt8) : ℕ → Option ℕ
  | 0 => none
  | q + 1 => if buf[q]?.any isspace then lastNonSpace buf q else some q

/-- The state of the loop that splits a line: `p` reads, `q` writes. -/
structure Split where
  buf : List UInt8
  p : ℕ
  q : ℕ
  argv : List ℕ
  bQuote : Bool

/-- The loop that splits a line in its place; `size` bounds the number of arguments.  None where
memory behind the buffer is read. -/
def split (size : ℕ) : ℕ → Split → Option Split
  | 0, _ => none
  | fuel + 1, s =>
    if s.argv.length < size then
      match s.buf[s.p]? with
      | none => none
      | some c =>
        if c = 0 then some s
        else if !s.bQuote && isspace c then
          let buf := s.buf.set s.q 0
          let next := skipSpaces buf (s.p + 1)
          match buf[next]? with
          | none => none
          | some d =>
            let argv := if d ≠ 0 then s.argv ++ [s.q + 1] else s.argv
            split size fuel { s with buf := buf, p := next, q := s.q + 1, argv := argv }
        else if c = 34 then split size fuel { s with p := s.p + 1, bQuote := !s.bQuote }
        else if s.bQuote && c == 92 then
          match s.buf[s.p + 1]? with
          | none => none
          | some d =>
            split size fuel
              { s with buf := s.buf.set s.q (getQuotedChar d), p := s.p + 2, q := s.q + 1 }
        else split size fuel { s with buf := s.buf.set s.q c, p := s.p + 1, q := s.q + 1 }
    else some s

/-- `MAX_ARGV` -/
def maxArgv : ℕ := 64

/-- `line2argv`: what it leaves of the buffer, and the arguments; none where memory outside of the
buffer is used. -/
def line2argv (buf : List UInt8) : Option (List UInt8 × List (List UInt8)) := do
  let p := skipSpaces buf 0
  let q ← lastNonSpace buf (p + (cString (buf.drop p)).length)
  let buf := buf.set (q + 1) 0
  let s ← split (maxArgv - 1) (buf.length + 1) ⟨buf, p, p, [p], false⟩
  let buf := s.buf.set s.q 0
  some (buf, s.argv.map fun i => cString (buf.drop i))

/-! ## Reading -/

/-- A line that is dispatched, and the arguments of the command in it. -/
structure Dispatch where
  line : List UInt8
  argv : List (List UInt8)

/-- `sizeof(szBuf)` -/
def bufSize : ℕ := 1024

/-- `std::string::copy`: the `n` characters from `pos` on are copied to `dest`; none where an
exception is thrown. -/
def stringCopy (s dest : List UInt8) (n pos : ℕ) : Option (List UInt8) :=
  if pos ≤ s.length then
    some ((s.drop pos).take n ++ dest.drop ((s.drop pos).take n).length)
  else none

/-- The loop over the lines in `myInputBuffer`; none where memory outside of a buffer is used. -/
def processLines : ℕ → List UInt8 → List UInt8 → Option (List UInt8 × List Dispatch)
  | 0, _, _ => none
  | fuel + 1, szBuf, myInputBuffer =>
    match myInputBuffer.findIdx? (· == nl) with
    | none => some (myInputBuffer, [])
    | some nlpos => do
      let copylen := if nlpos < bufSize then nlpos + 1 else bufSize
      let szBuf ← stringCopy myInputBuffer szBuf 0 copylen
      if copylen < szBuf.length then
        let szBuf := szBuf.set copylen 0
        let r ← line2argv szBuf
        let d ← processLines fuel r.1 (myInputBuffer.drop (nlpos + 1))
        some (d.1, ⟨cString szBuf, r.2⟩ :: d.2)
      else none

/-- A read from the fifo: what has been on the stack, and what is read; nothing on an error. -/
structure Read where
  stack : List UInt8
  data : List UInt8
  length_stack : stack.length = bufSize
  length_data : data.length ≤ bufSize

/-- `rawFileEvent` -/
def rawFileEvent (r : Read) (myInputBuffer : List UInt8) : Option (List UInt8 × List Dispatch) :=
  if r.data = [] then some (myInputBuffer, [])
  else processLines ((myInputBuffer ++ r.data).length + 1) (r.data ++ r.stack.drop r.data.length)
    (myInputBuffer ++ r.data)

/-- One read after the other. -/
def rawFileEvents : List Read → List UInt8 → Option (List UInt8 × List Dispatch)
  | [], myInputBuffer => some (myInputBuffer, [])
  | r :: reads, myInputBuffer => do
    let d ← rawFileEvent r myInputBuffer
    let d' ← rawFileEvents reads d.1
    some (d'.1, d.2 ++ d'.2)

/-! ## Lines of the fifo -/

/-- The lines of some bytes, and what is not ended. -/
def lines (bytes : List UInt8) : List (List UInt8) × List UInt8 := (Framing.terminated nl).frames bytes

/-- A line that is dispatched from a read that begins with it. -/
structure LineOk (body : List UInt8) : Prop where
  nl_notMem : nl ∉ body
  zero_notMem : 0 ∉ body
  length_lt : body.length + 1 < bufSize
  nonblank : ∃ c ∈ body, isspace c = false

/-- A read that ends no line, or begins with the only one that it ends. -/
def ReadOk (myInputBuffer data : List UInt8) : Prop :=
  nl ∉ data ∨ myInputBuffer = [] ∧ ∃ body tail, data = body ++ nl :: tail ∧ LineOk body ∧ nl ∉ tail

/-- All reads, each after those before it. -/
def ReadsOk : List UInt8 → List Read → Prop
  | _, [] => True
  | myInputBuffer, r :: reads =>
    ReadOk myInputBuffer r.data ∧ ReadsOk (lines (myInputBuffer ++ r.data)).2 reads

/-! ## A line is taken to pieces inside of the buffer -/

theorem length_takeWhile_le {α : Type*} {f : α → Bool} {l : List α} {i : ℕ} {c : α}
    (hi : l[i]? = some c) (hc : f c = false) : (l.takeWhile f).length ≤ i := by
  induction l generalizing i with
  | nil => exact Nat.zero_le i
  | cons a l ih =>
    cases i with
    | zero =>
      cases hi
      rw [takeWhile_cons_of_neg (by rw [hc]; exact Bool.false_ne_true)]
      exact Nat.le_refl 0
    | succ i =>
      rw [takeWhile_cons]
      split
      · exact Nat.succ_le_succ (ih hi)
      · exact Nat.zero_le _

theorem skipSpaces_le {buf : List UInt8} {p l : ℕ} {c : UInt8} (hp : p ≤ l)
    (hl : buf[l]? = some c) (hc : isspace c = false) : skipSpaces buf p ≤ l := by
  have hget : (buf.drop p)[l - p]? = some c := by
    rw [getElem?_drop, Nat.add_sub_cancel' hp, hl]
  have hle := length_takeWhile_le hget hc
  rw [skipSpaces]
  omega

theorem le_skipSpaces (buf : List UInt8) (p : ℕ) : p ≤ skipSpaces buf p := Nat.le_add_right _ _

/-- The loop stays before the null character at `l`: a backslash is not right before it. -/
theorem split_isSome {size fuel l : ℕ} {orig : List UInt8} {s : Split} (hl : orig[l]? = some 0)
    (hslash : ∀ k, orig[k]? = some 92 → k + 1 ≠ l) (hfuel : l - s.p < fuel) (hp : s.p ≤ l)
    (hq : s.q ≤ s.p) (hsame : ∀ k, s.p ≤ k → s.buf[k]? = orig[k]?) :
    (split size fuel s).isSome = true := by
  induction fuel generalizing s with
  | zero => exact absurd hfuel (Nat.not_lt_zero _)
  | succ fuel ih =>
    -- what is written is behind what is still to be read
    have hset : ∀ (c : UInt8) k, s.p < k → (s.buf.set s.q c)[k]? = orig[k]? := by
      intro c k hk
      rw [getElem?_set_ne (by omega), hsame k (Nat.le_of_lt hk)]
    have hlen : l < orig.length := (List.getElem?_eq_some_iff.mp hl).1
    obtain ⟨c, hc⟩ : ∃ c, orig[s.p]? = some c :=
      ⟨_, getElem?_eq_getElem (Nat.lt_of_le_of_lt hp hlen)⟩
    rw [split, hsame s.p (Nat.le_refl _), hc]
    split
    · simp only
      split
      · rfl
      · rename_i hzero
        have hlt : s.p < l := by
          refine Nat.lt_of_le_of_ne hp fun heq => hzero ?_
          rw [heq, hl] at hc
          exact (Option.some.inj hc).symm
        split
        · have hl' : (s.buf.set s.q 0)[l]? = some 0 := by rw [hset 0 l hlt, hl]
          have hle := skipSpaces_le hlt hl' rfl
          have hge := le_skipSpaces (s.buf.set s.q 0) (s.p + 1)
          have hlen' : l < (s.buf.set s.q 0).length := (List.getElem?_eq_some_iff.mp hl').1
          rw [getElem?_eq_getElem (Nat.lt_of_le_of_lt hle hlen')]
          exact ih (by simp only; omega) hle (by simp only; omega)
            fun k hk => hset 0 k (Nat.lt_of_lt_of_le hge hk)
        · split
          · exact ih (by simp only; omega) hlt (by simp only; omega)
              fun k hk => hsame k (Nat.le_of_lt hk)
          · split
            · rename_i hquoted
              have hc92 : c = 92 := by
                rw [Bool.and_eq_true, beq_iff_eq] at hquoted
                exact hquoted.2
              have hnext := hslash s.p (hc92 ▸ hc)
              rw [hsame (s.p + 1) (Nat.le_succ _), getElem?_eq_getElem (by omega)]
              exact ih (by simp only; omega) (by simp only; omega) (by simp only; omega)
                fun k hk => hset _ k (by simp only at hk; omega)
            · exact ih (by simp only; omega) hlt (by simp only; omega) fun k hk => hset c k hk
    · rfl

/-- Some character before `e` is not a space. -/
theorem exists_lastNonSpace {buf : List UInt8} {e i : ℕ} {c : UInt8} (hi : i < e)
    (hget : buf[i]? = some c) (hc : isspace c = false) :
    ∃ k, lastNonSpace buf e = some k ∧ k < e ∧ buf[k]?.any isspace = false := by
  induction e with
  | zero => exact absurd hi (Nat.not_lt_zero _)
  | succ e ih =>
    rw [lastNonSpace]
    cases hspace : buf[e]?.any isspace with
    | false => exact ⟨e, rfl, Nat.lt_succ_self e, hspace⟩
    | true =>
      have hne : i ≠ e := by
        rintro rfl
        rw [hget, Option.any_some, hc] at hspace
        cases hspace
      obtain ⟨k, hk, hke, hd⟩ := ih (by omega)
      exact ⟨k, hk, by omega, hd⟩

theorem cString_append_zero {l : List UInt8} (h : 0 ∉ l) (s : List UInt8) :
    cString (l ++ 0 :: s) = l := by
  have hne : ∀ c ∈ l, (c != 0) = true := by
    rintro c hc
    refine bne_iff_ne.mpr ?_
    rintro rfl
    exact h hc
  rw [cString, takeWhile_append_of_pos hne, takeWhile_cons_of_neg (by decide),
    append_nil]

/-- **A line is taken to pieces** without memory outside of the buffer being used. -/
theorem line2argv_isSome {body rest : List UInt8} (hbody : LineOk body) :
    (line2argv (body ++ nl :: 0 :: rest)).isSome = true := by
  let buf := body ++ nl :: 0 :: rest
  change (line2argv buf).isSome = true
  obtain ⟨c, hmem, hc⟩ := hbody.nonblank
  obtain ⟨i, hi, hget⟩ := mem_iff_getElem.mp hmem
  have hbufi : buf[i]? = some c := by
    rw [getElem?_append_left hi, getElem?_eq_getElem hi, hget]
  have hnl : buf[body.length]? = some nl := by
    rw [getElem?_append_right (Nat.le_refl _), Nat.sub_self]
    rfl
  have hzero : buf[body.length + 1]? = some 0 := by
    rw [getElem?_append_right (Nat.le_add_right _ _), Nat.add_sub_cancel_left]
    rfl
  have hp := skipSpaces_le (Nat.zero_le i) hbufi hc
  -- the string from the first character on that is not a space ends with the line
  have hend : skipSpaces buf 0 + (cString (buf.drop (skipSpaces buf 0))).length =
      body.length + 1 := by
    have hdrop : buf.drop (skipSpaces buf 0) =
        (body.drop (skipSpaces buf 0) ++ [nl]) ++ 0 :: rest := by
      rw [append_assoc]
      exact drop_append_of_le_length (by omega)
    have hnotMem : 0 ∉ body.drop (skipSpaces buf 0) ++ [nl] := by
      rw [mem_append, not_or]
      exact ⟨fun h => hbody.zero_notMem (mem_of_mem_drop h), by decide⟩
    rw [hdrop, cString_append_zero hnotMem, length_append, length_drop,
      length_singleton]
    omega
  obtain ⟨q, hq, hlt, hnonspace⟩ := exists_lastNonSpace (Nat.lt_succ_of_lt hi) hbufi hc
  have hne : q ≠ body.length := by
    rintro rfl
    rw [hnl] at hnonspace
    cases hnonspace
  have hslash : ∀ k, (buf.set (q + 1) 0)[k]? = some 92 → k + 1 ≠ body.length + 1 := by
    rintro k hk heq
    obtain rfl := Nat.succ.inj heq
    rw [getElem?_set] at hk
    split at hk
    · split at hk <;> cases hk
    · rw [hnl] at hk
      cases hk
  have hsplit : (split (maxArgv - 1) ((buf.set (q + 1) 0).length + 1)
      ⟨buf.set (q + 1) 0, skipSpaces buf 0, skipSpaces buf 0, [skipSpaces buf 0], false⟩).isSome =
        true := by
    have hlen : body.length + 1 < (buf.set (q + 1) 0).length := by
      rw [length_set]
      exact (List.getElem?_eq_some_iff.mp hzero).1
    refine split_isSome ?_ hslash (by simp only; omega)
      (by simp only; omega) (Nat.le_refl _) fun _ _ => rfl
    rw [getElem?_set_ne (by omega), hzero]
  obtain ⟨s, hs⟩ := Option.isSome_iff_exists.mp hsplit
  simp only [line2argv, hend, hq, Option.bind_eq_bind, Option.bind_some, hs]
  rfl

/-! ## Reads -/

theorem lines_of_notMem {bytes : List UInt8} (h : nl ∉ bytes) : lines bytes = ([], bytes) :=
  Framing.frames_of_none (Framing.terminated_next_of_notMem h)

theorem lines_append_nl {body : List UInt8} (h : nl ∉ body) (s : List UInt8) :
    lines (body ++ nl :: s) = ((body ++ [nl]) :: (lines s).1, (lines s).2) :=
  Framing.frames_of_some (Framing.terminated_next_append h s)

/-- What is not ended has no end of line in it. -/
theorem nl_notMem_lines (bytes : List UInt8) : nl ∉ (lines bytes).2 := by
  intro hmem
  obtain ⟨s, t, hs⟩ := append_of_mem hmem
  have hnext : (Framing.terminated nl).next (lines bytes).2 = none := Framing.next_frames bytes
  have hfind : (lines bytes).2.findIdx? (· == nl) = none := by
    simp only [Framing.terminated, Framing.nextTerminated] at hnext
    split at hnext
    · assumption
    · cases hnext
  have hall := findIdx?_eq_none_iff.mp hfind nl hmem
  cases hall

theorem stringCopy_zero {s dest : List UInt8} {pos : ℕ} (h : pos ≤ s.length) :
    stringCopy s dest 0 pos = some dest := by
  rw [stringCopy, if_pos h]
  rfl

theorem findIdx?_of_notMem {bytes : List UInt8} (h : nl ∉ bytes) :
    bytes.findIdx? (· == nl) = none :=
  findIdx?_eq_none_iff.mpr fun _ hc => beq_eq_false_iff_ne.mpr fun heq => h (heq ▸ hc)

/-- The only line, which is at the beginning of the buffer on the stack. -/
theorem processLines_line {fuel : ℕ} {szBuf body tail rest : List UInt8} (hbody : LineOk body)
    (htail : nl ∉ tail) (hlen : szBuf.length = bufSize)
    (hset : szBuf.set (body.length + 1) 0 = body ++ nl :: 0 :: rest) :
    ∃ argv, processLines (fuel + 2) szBuf (body ++ nl :: tail) =
      some (tail, [⟨body ++ [nl], argv⟩]) := by
  have hlt := hbody.length_lt
  have hcopylen : (if body.length < bufSize then body.length + 1 else bufSize) =
      body.length + 1 := if_pos (by omega)
  have hcopy : stringCopy (body ++ nl :: tail) szBuf 0 (body.length + 1) = some szBuf := by
    refine stringCopy_zero ?_
    rw [length_append, length_cons]
    omega
  have hdrop : (body ++ nl :: tail).drop (body.length + 1) = tail := by
    rw [append_cons]
    exact drop_left' (by rw [length_append]; rfl)
  have hline : cString (body ++ nl :: 0 :: rest) = body ++ [nl] := by
    rw [append_cons]
    refine cString_append_zero ?_ rest
    rw [mem_append, not_or]
    exact ⟨hbody.zero_notMem, by decide⟩
  obtain ⟨r, hr⟩ := Option.isSome_iff_exists.mp (@line2argv_isSome body rest hbody)
  have hrest : processLines (fuel + 1) r.1 tail = some (tail, []) := by
    rw [processLines, findIdx?_of_notMem htail]
  refine ⟨r.2, ?_⟩
  rw [processLines, Framing.findIdx?_terminator hbody.nl_notMem]
  simp only [hcopylen, hcopy, hlen, hlt, if_true, hset, hr, hdrop, hrest, hline,
    Option.bind_eq_bind, Option.bind_some]

/-- **One read.** -/
theorem rawFileEvent_eq {r : Read} {myInputBuffer : List UInt8} (hbuffer : nl ∉ myInputBuffer)
    (h : ReadOk myInputBuffer r.data) :
    ∃ dispatched, rawFileEvent r myInputBuffer =
        some ((lines (myInputBuffer ++ r.data)).2, dispatched) ∧
      dispatched.map Dispatch.line = (lines (myInputBuffer ++ r.data)).1 := by
  obtain hdata | ⟨rfl, body, tail, hdata, hbody, htail⟩ := h
  · have hnone : nl ∉ myInputBuffer ++ r.data := by
      rw [mem_append, not_or]
      exact ⟨hbuffer, hdata⟩
    rw [lines_of_notMem hnone, rawFileEvent]
    refine ⟨[], ?_, rfl⟩
    split
    · rename_i hnil
      rw [hnil, append_nil]
    · rw [processLines, findIdx?_of_notMem hnone]
  · have hne : r.data ≠ [] := by
      rw [hdata]
      exact append_ne_nil_of_right_ne_nil _ (cons_ne_nil _ _)
    have hlen : (r.data ++ r.stack.drop r.data.length).length = bufSize := by
      have hstack := r.length_stack
      have hread := r.length_data
      rw [length_append, length_drop]
      omega
    -- the null character is written behind the line
    obtain ⟨rest, hset⟩ : ∃ rest, (r.data ++ r.stack.drop r.data.length).set (body.length + 1) 0 =
        body ++ nl :: 0 :: rest := by
      have hlt := hbody.length_lt
      rw [hdata] at hlen ⊢
      rw [append_assoc, cons_append] at hlen ⊢
      obtain ⟨x, rest, hx⟩ :
          ∃ x rest, tail ++ r.stack.drop (body ++ nl :: tail).length = x :: rest := by
        refine exists_cons_of_ne_nil fun hnil => ?_
        rw [hnil, length_append, length_singleton] at hlen
        omega
      refine ⟨rest, ?_⟩
      rw [hx, set_append_right _ _ (Nat.le_add_right _ _), Nat.add_sub_cancel_left]
      rfl
    obtain ⟨fuel, hfuel⟩ : ∃ fuel, r.data.length = fuel + 1 :=
      Nat.exists_eq_succ_of_ne_zero (mt length_eq_zero_iff.mp hne)
    obtain ⟨argv, hprocess⟩ := @processLines_line fuel _ _ _ _ hbody htail hlen hset
    refine ⟨[⟨body ++ [nl], argv⟩], ?_, ?_⟩
    · have hfuel' : r.data.length + 1 = fuel + 2 := by omega
      rw [← hdata] at hprocess
      rw [rawFileEvent, if_neg hne, nil_append, hfuel', hprocess, hdata,
        lines_append_nl hbody.nl_notMem, lines_of_notMem htail]
    · rw [nil_append, hdata, lines_append_nl hbody.nl_notMem, lines_of_notMem htail]
      rfl

/-- **The lines of the fifo are dispatched**, each once and in order, however they are split over
reads that are not ones of those that the code does not get right; what is not ended is kept. -/
theorem rawFileEvents_eq (reads : List Read) (h : ReadsOk [] reads) :
    ∃ dispatched, rawFileEvents reads [] = some ((lines (reads.flatMap Read.data)).2, dispatched) ∧
      dispatched.map Dispatch.line = (lines (reads.flatMap Read.data)).1 := by
  -- the buffer is what has been read and not been ended
  have general : ∀ (reads : List Read) (myInputBuffer : List UInt8), nl ∉ myInputBuffer →
      ReadsOk myInputBuffer reads → ∃ dispatched, rawFileEvents reads myInputBuffer =
          some ((lines (myInputBuffer ++ reads.flatMap Read.data)).2, dispatched) ∧
        dispatched.map Dispatch.line = (lines (myInputBuffer ++ reads.flatMap Read.data)).1 := by
    intro reads
    induction reads with
    | nil =>
      intro myInputBuffer hbuffer _
      rw [List.flatMap_nil, List.append_nil, lines_of_notMem hbuffer]
      exact ⟨[], rfl, rfl⟩
    | cons r reads ih =>
      intro myInputBuffer hbuffer hok
      obtain ⟨d, hread, hlines⟩ := rawFileEvent_eq hbuffer hok.1
      obtain ⟨d', hreads, hlines'⟩ := ih _ (nl_notMem_lines (myInputBuffer ++ r.data)) hok.2
      have happend : lines (myInputBuffer ++ (r :: reads).flatMap Read.data) =
          ((lines (myInputBuffer ++ r.data)).1 ++
            (lines ((lines (myInputBuffer ++ r.data)).2 ++ reads.flatMap Read.data)).1,
          (lines ((lines (myInputBuffer ++ r.data)).2 ++ reads.flatMap Read.data)).2) := by
        rw [List.flatMap_cons, ← List.append_assoc]
        exact Framing.frames_append _ _
      refine ⟨d ++ d', ?_, ?_⟩
      · rw [happend]
        simp only [rawFileEvents, hread, hreads, Option.bind_eq_bind, Option.bind_some]
      · rw [happend, List.map_append, hlines, hlines']
  exact general reads [] List.not_mem_nil h

/-- A read into some memory. -/
def Read.of (data : List UInt8) (h : data.length ≤ bufSize) : Read :=
  ⟨List.replicate bufSize 7, data, List.length_replicate, h⟩

/-- A command, and the beginning of another one. -/
theorem rawFileEvents_twoReads : ∃ dispatched, rawFileEvents
      [.of [97, 10] (by decide), .of [98] (by decide)] [] = some ([98], dispatched) ∧
    dispatched.map Dispatch.line = [[97, 10]] := by
  have hok : LineOk [97] := ⟨by decide, by decide, by decide, 97, by decide, by decide⟩
  have h := rawFileEvents_eq [.of [97, 10] (by decide), .of [98] (by decide)]
    ⟨.inr ⟨rfl, [97], [], rfl, hok, by decide⟩, .inl (by decide), trivial⟩
  have hlines : lines [97, 10, 98] = ([[97, 10]], [98]) := by
    have hbody : nl ∉ [(97 : UInt8)] := by decide
    have happend := lines_append_nl hbody [98]
    have hrest : nl ∉ [(98 : UInt8)] := by decide
    rwa [lines_of_notMem hrest] at happend
  change ∃ dispatched, _ = some ((lines [97, 10, 98]).2, dispatched) ∧
    _ = (lines [97, 10, 98]).1 at h
  rwa [hlines] at h

/-- A command that is split over two reads. -/
theorem not_dispatched_splitCommand : ¬ ∀ reads : List Read, ∃ dispatched,
    rawFileEvents reads [] = some ((lines (reads.flatMap Read.data)).2, dispatched) ∧
      dispatched.map Dispatch.line = (lines (reads.flatMap Read.data)).1 := by
  intro h
  obtain ⟨dispatched, hrun, hlines⟩ := h [.of [97] (by decide), .of [98, 10] (by decide)]
  have hdispatched : (rawFileEvents [.of [97] (by decide), .of [98, 10] (by decide)] []).map
      (fun d => d.2.map Dispatch.line) = some [[98, 10, 7]] := by decide +kernel
  have hspec : (lines [97, 98, 10]).1 = [[97, 98, 10]] := by
    have hbody : nl ∉ [(97 : UInt8), 98] := by decide
    have happend := lines_append_nl hbody []
    rw [lines_of_notMem List.not_mem_nil] at happend
    exact congrArg Prod.fst happend
  rw [hrun, Option.map_some, hlines, Option.some.injEq] at hdispatched
  change (lines [97, 98, 10]).1 = _ at hdispatched
  rw [hspec] at hdispatched
  cases hdispatched

end Licq.Fifo
