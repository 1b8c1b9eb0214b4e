import Licq.Buffer.Reading
import Licq.Msn.Encoding
import Licq.Text.Translator

/-!
# Msn/Buffer — reading commands and headers

`CMSNBuffer` reads a packet byte by byte.  What is left to read is a list here; a read behind the
end gives 0, and a byte is un-read by the position, which needs the whole data.

`parseHeaders_block` says what the loop over the headers makes of a block of lines: it goes up to
the blank line or to the first line without a colon, and un-reads the byte behind it, or the line
feed itself where there is none.
-/

open Wire

namespace Licq.Msn

/-! ## Bytes -/

/-- `operator>>` for a `char`, which is 0 where nothing is left. -/
def readChar : List UInt8 → UInt8 × List UInt8
  | [] => (0, [])
  | c :: s => (c, s)

/-- `operator>>` for an `unsigned long`. -/
def readUInt32 (s : List UInt8) : UInt32 × List UInt8 :=
  if s.length < 4 then (0, s) else (UInt32.ofNat (valueLE (s.take 4)), s.drop 4)

/-- `setDataPosRead(getDataPosRead() - 1)`, where `s` of the data has not been read. -/
def unread (data s : List UInt8) : List UInt8 := data.drop (data.length - s.length - 1)

theorem unread_append (pre : List UInt8) (c : UInt8) (s : List UInt8) :
    unread (pre ++ c :: s) s = c :: s := by
  rw [unread]
  refine List.drop_left' ?_
  rw [List.length_append, List.length_cons]
  omega

/-! ## Loops over bytes -/

/-- `while (p(c) && !End()) *this >> c` -/
def readWhile (p : UInt8 → Bool) : UInt8 → List UInt8 → UInt8 × List UInt8
  | c, [] => (c, [])
  | c, d :: s => if p c then readWhile p d s else (c, d :: s)

/-- `while (!stop(c)) { text += c; *this >> c; }`, for loops that stop at 0. -/
def readUntil (stop : UInt8 → Bool) : UInt8 → List UInt8 → List UInt8 × UInt8 × List UInt8
  | c, [] => if stop c then ([], c, []) else ([c], 0, [])
  | c, d :: s =>
    if stop c then ([], c, d :: s)
    else (c :: (readUntil stop d s).1, (readUntil stop d s).2)

/-- Such a loop after the read of its first byte. -/
def readText (stop : UInt8 → Bool) (s : List UInt8) : List UInt8 × UInt8 × List UInt8 :=
  readUntil stop (readChar s).1 (readChar s).2

theorem readText_append {stop : UInt8 → Bool} {x : List UInt8} {d : UInt8}
    (hx : ∀ c ∈ x, stop c = false) (hd : stop d = true) (s : List UInt8) :
    readText stop (x ++ d :: s) = (x, d, s) := by
  induction x with
  | nil =>
    cases s with
    | nil => exact if_pos hd
    | cons c s => exact if_pos hd
  | cons c x ih =>
    have hc := hx c List.mem_cons_self
    have htail := ih fun c hc => hx c (List.mem_cons_of_mem _ hc)
    obtain ⟨e, t, ht⟩ : ∃ e t, x ++ d :: s = e :: t := by
      cases x with
      | nil => exact ⟨d, s, rfl⟩
      | cons e x => exact ⟨e, x ++ d :: s, rfl⟩
    rw [ht] at htail
    change readUntil stop e t = (x, d, s) at htail
    change readUntil stop c (x ++ d :: s) = _
    rw [ht, readUntil, if_neg (by rw [hc]; decide), htail]

/-- `CMSNBuffer::SkipParameter` -/
def skipParameter (s : List UInt8) : List UInt8 :=
  let c := readChar s
  let c := if asciiSpace c.1 then readWhile asciiSpace c.1 c.2 else c
  (readWhile (fun b => !asciiSpace b) c.1 c.2).2

/-- The loop of `GetParameter`. -/
def readParameter : UInt8 → List UInt8 → List UInt8 × List UInt8
  | _, [] => ([], [])
  | c, d :: s =>
    if c = 0x20 ∨ c = cr then ([], d :: s)
    else if d ≠ 0x20 ∧ d ≠ cr ∧ d ≠ lf then (d :: (readParameter d s).1, (readParameter d s).2)
    else readParameter d s

/-- `CMSNBuffer::GetParameter` -/
def getParameter (data s : List UInt8) : List UInt8 × List UInt8 :=
  let c := readChar s
  let c := if c.1 = 0x20 then readWhile (· = 0x20) c.1 c.2 else c
  readParameter c.1 (unread data c.2)

/-- `CMSNBuffer::SkipRN` -/
def skipRN (data s : List UInt8) : List UInt8 :=
  unread data (readWhile (fun c => c = cr || c = lf) (readChar s).1 (readChar s).2).2

/-- `CMSNBuffer::SkipPacket` -/
def skipPacket (s : List UInt8) : List UInt8 := (readWhile (· ≠ lf) 0 s).2

/-! ## Line ends -/

/-- `strstr` for a line end, which stops at a null byte. -/
def findLineEnd : List UInt8 → Option ℕ
  | [] => none
  | [_] => none
  | c :: d :: s =>
    if c = 0 then none
    else if c = cr ∧ d = lf then some 0
    else (findLineEnd (d :: s)).map (· + 1)

theorem findLineEnd_append {x : List UInt8} (hplain : ∀ c ∈ x, c ≠ cr) (hzero : 0 ∉ x)
    (s : List UInt8) : findLineEnd (x ++ cr :: lf :: s) = some x.length := by
  induction x with
  | nil => rw [List.nil_append, findLineEnd, if_neg (by decide), if_pos ⟨rfl, rfl⟩, List.length_nil]
  | cons c x ih =>
    obtain ⟨hc, htail⟩ := List.forall_mem_cons.mp hplain
    obtain ⟨hne, hrest⟩ := List.ne_and_not_mem_of_not_mem_cons hzero
    have hind := ih htail hrest
    obtain ⟨d, t, ht⟩ : ∃ d t, x ++ cr :: lf :: s = d :: t := by
      cases x with
      | nil => exact ⟨cr, lf :: s, rfl⟩
      | cons d x => exact ⟨d, x ++ cr :: lf :: s, rfl⟩
    rw [ht] at hind
    rw [List.cons_append, ht, findLineEnd, if_neg (Ne.symm hne), if_neg fun h => hc h.1, hind]
    rfl

theorem getElem?_findLineEnd {s : List UInt8} {z : ℕ} (h : findLineEnd s = some z) :
    s[z + 1]? = some lf := by
  induction s generalizing z with
  | nil => cases h
  | cons c s ih =>
    cases s with
    | nil => cases h
    | cons d s =>
      rw [findLineEnd] at h
      split_ifs at h with hzero hend
      · cases h
        rw [hend.2]
        rfl
      · obtain ⟨y, hy, rfl⟩ := Option.map_eq_some_iff.mp h
        exact ih hy

/-- **A line end behind data with no line feed** is behind the data, or its last byte is. -/
theorem findLineEnd_behind {q m : List UInt8} (hlf : lf ∉ q) {z : ℕ}
    (h : findLineEnd (q ++ m) = some z) : q.length < z + 2 := by
  by_contra hle
  have hget := getElem?_findLineEnd h
  rw [List.getElem?_append_left (by omega)] at hget
  exact hlf (List.mem_of_getElem? hget)

theorem findLineEnd_eq_none {q : List UInt8} (hlf : lf ∉ q) : findLineEnd q = none := by
  cases h : findLineEnd q with
  | none => rfl
  | some z => exact absurd (List.mem_of_getElem? (getElem?_findLineEnd h)) hlf

/-! ## Headers -/

/-- `SHeader` -/
structure Header where
  strHeader : List UInt8
  strValue : List UInt8
  deriving DecidableEq, Repr

/-- What ends the name of a header. -/
def endsName (c : UInt8) : Bool := c = 0x3A || c = cr || c = 0

/-- What ends the value of a header. -/
def endsValue (c : UInt8) : Bool := c = cr || c = 0

/-- What a round of `ParseHeaders` reads up to: the name, what ended it, and what is behind that. -/
def readName (s : List UInt8) : List UInt8 × UInt8 × List UInt8 := readText endsName s

/-- What is behind the name after the two bytes of a line end. -/
def afterLineEnd (s : List UInt8) : List UInt8 := (readChar (readName s).2.2).2

/-- The name ends with a line end. -/
def endsLine (s : List UInt8) : Bool :=
  (readName s).2.1 = cr &&
    ((readChar (readName s).2.2).1 = cr || (readChar (readName s).2.2).1 = lf)

/-- A round that reads a header.  A carriage return alone is skipped with the byte behind it. -/
def readHeader (s : List UInt8) : Header × List UInt8 :=
  let spaces := readText (· ≠ 0x20)
    (if (readName s).2.1 = cr then afterLineEnd s else (readName s).2.2)
  let value := readUntil endsValue spaces.2.1 spaces.2.2
  (⟨(readName s).1, value.1⟩, (readChar value.2.2).2)

/-- The loop of `ParseHeaders`.  Every round reads a byte, so that it takes no more rounds than there
are bytes.  At its end the byte behind the line end is un-read. -/
def parseHeadersLoop (data : List UInt8) : ℕ → List UInt8 → List Header × List UInt8
  | 0, s => ([], s)
  | rounds + 1, s =>
    if s = [] then ([], s)
    else if endsLine s then ([], unread data (readChar (afterLineEnd s)).2)
    else
      let rest := parseHeadersLoop data rounds (readHeader s).2
      ((readHeader s).1 :: rest.1, rest.2)

/-- `CMSNBuffer::ParseHeaders` -/
def parseHeaders (data s : List UInt8) : List Header × List UInt8 :=
  parseHeadersLoop data s.length s

/-- `CMSNBuffer::GetValue`: the last header of that name counts. -/
def getValue (headers : List Header) (strKey : List UInt8) : List UInt8 :=
  headers.foldl (fun strReturn h => if h.strHeader = strKey then h.strValue else strReturn) []

/-! ## Blocks of headers -/

/-- A line of a block of headers. -/
structure HeaderLine where
  text : List UInt8
  ne_nil : text ≠ []
  plain : ∀ c ∈ text, c ≠ cr ∧ c ≠ lf ∧ c ≠ 0

namespace HeaderLine

open List

/-- The header in a line with a colon. -/
def header (l : HeaderLine) : Header :=
  ⟨l.text.takeWhile (· ≠ 0x3A), ((l.text.dropWhile (· ≠ 0x3A)).drop 1).dropWhile (· = 0x20)⟩

end HeaderLine

/-- The lines with their line ends. -/
def blockText (lines : List HeaderLine) : List UInt8 := lines.flatMap fun l => l.text ++ [cr, lf]

/-- The lines before the first one without a colon. -/
def headerLines (lines : List HeaderLine) : List HeaderLine :=
  lines.takeWhile fun l => 0x3A ∈ l.text

/-- The lines after the first one without a colon. -/
def linesLeft (lines : List HeaderLine) : List HeaderLine :=
  (lines.dropWhile fun l => 0x3A ∈ l.text).drop 1

theorem blockText_cons (l : HeaderLine) (lines : List HeaderLine) (s : List UInt8) :
    blockText (l :: lines) ++ s = l.text ++ cr :: lf :: (blockText lines ++ s) := by
  rw [blockText, List.flatMap_cons, List.append_assoc, List.append_assoc]
  rfl

/-- What a line with a colon is made of. -/
theorem HeaderLine.exists_header {l : HeaderLine} (h : 0x3A ∈ l.text) :
    ∃ spaces, (∀ c ∈ spaces, c = 0x20) ∧ (∀ c ∈ l.header.strValue.head?, c ≠ 0x20) ∧
      0x3A ∉ l.header.strHeader ∧
      l.text = l.header.strHeader ++ 0x3A :: (spaces ++ l.header.strValue) := by
  have hsplit := @List.takeWhile_append_dropWhile _ (· ≠ 0x3A) l.text
  cases hdrop : l.text.dropWhile (· ≠ 0x3A) with
  | nil =>
    rw [hdrop, List.append_nil] at hsplit
    rw [← hsplit] at h
    exact absurd (List.mem_takeWhile_imp h) (by decide)
  | cons d v =>
    obtain rfl : d = 0x3A := by
      have hhead := List.head?_dropWhile_not (· ≠ 0x3A) l.text
      rw [hdrop] at hhead
      simpa using hhead
    have hvalue : l.header.strValue = v.dropWhile (· = 0x20) := by
      rw [header, hdrop]
      rfl
    refine ⟨v.takeWhile (· = 0x20), fun c hc => by simpa using List.mem_takeWhile_imp hc,
      fun c hc => ?_, fun hmem => absurd (List.mem_takeWhile_imp hmem) (by decide), ?_⟩
    · have hhead := List.head?_dropWhile_not (· = 0x20) v
      rw [hvalue, Option.mem_def] at hc
      rw [hc] at hhead
      simpa using hhead
    · rw [hvalue, List.takeWhile_append_dropWhile]
      rw [hdrop] at hsplit
      exact hsplit.symm

/-- A line with a colon is a round of the loop. -/
theorem parseHeadersLoop_line {data : List UInt8} {l : HeaderLine} (h : 0x3A ∈ l.text) (rounds : ℕ)
    (s : List UInt8) : parseHeadersLoop data (rounds + 1) (l.text ++ cr :: lf :: s)
      = (l.header :: (parseHeadersLoop data rounds s).1, (parseHeadersLoop data rounds s).2) := by
  obtain ⟨spaces, hspaces, hhead, hcolon, htext⟩ := HeaderLine.exists_header h
  have hplain : ∀ c ∈ l.header.strHeader ++ l.header.strValue, c ≠ cr ∧ c ≠ lf ∧ c ≠ 0 := by
    intro c hc
    refine l.plain c ?_
    rw [htext]
    rcases List.mem_append.mp hc with hc | hc
    · exact List.mem_append_left _ hc
    · exact List.mem_append_right _ (List.mem_cons_of_mem _ (List.mem_append_right _ hc))
  have hname : readName (l.text ++ cr :: lf :: s)
      = (l.header.strHeader, 0x3A, spaces ++ (l.header.strValue ++ cr :: lf :: s)) := by
    rw [htext, List.append_assoc, List.cons_append, List.append_assoc]
    refine readText_append (fun c hc => ?_) rfl _
    obtain ⟨hcr, -, hzero⟩ := hplain c (List.mem_append_left _ hc)
    rw [endsName, decide_eq_false (fun heq : c = 0x3A => hcolon (heq ▸ hc)), decide_eq_false hcr,
      decide_eq_false hzero]
    rfl
  -- what stands behind the spaces
  obtain ⟨d, t, ht, hd⟩ : ∃ d t, l.header.strValue ++ cr :: lf :: s = d :: t ∧ d ≠ 0x20 := by
    cases hvalue : l.header.strValue with
    | nil => exact ⟨cr, lf :: s, rfl, by decide⟩
    | cons d v => exact ⟨d, v ++ cr :: lf :: s, rfl, hhead d (by rw [hvalue]; rfl)⟩
  have hskip : readText (· ≠ 0x20) (spaces ++ (l.header.strValue ++ cr :: lf :: s))
      = (spaces, d, t) := by
    rw [ht]
    exact readText_append (fun c hc => by rw [hspaces c hc]; decide) (decide_eq_true hd) t
  have hread : readUntil endsValue d t = (l.header.strValue, cr, lf :: s) := by
    change readText endsValue (d :: t) = _
    rw [← ht]
    refine readText_append (fun c hc => ?_) rfl _
    obtain ⟨hcr, -, hzero⟩ := hplain c (List.mem_append_right _ hc)
    rw [endsValue, decide_eq_false hcr, decide_eq_false hzero]
    rfl
  have hne : l.text ++ cr :: lf :: s ≠ [] :=
    List.append_ne_nil_of_right_ne_nil _ (List.cons_ne_nil _ _)
  have hcr : (0x3A : UInt8) ≠ cr := by decide
  have hline : endsLine (l.text ++ cr :: lf :: s) = false := by
    rw [endsLine, hname]
    rfl
  have hheader : readHeader (l.text ++ cr :: lf :: s) = (l.header, s) := by
    rw [readHeader, hname, if_neg hcr, hskip]
    dsimp only
    rw [hread]
    rfl
  rw [parseHeadersLoop, if_neg hne, hline, hheader]
  rfl

/-- The blank line, or a line without a colon, ends the loop. -/
theorem parseHeadersLoop_end {data x : List UInt8} (hx : ∀ c ∈ x, endsName c = false)
    (rounds : ℕ) (s : List UInt8) :
    parseHeadersLoop data (rounds + 1) (x ++ cr :: lf :: s) = ([], unread data (readChar s).2) := by
  have hne : x ++ cr :: lf :: s ≠ [] := List.append_ne_nil_of_right_ne_nil _ (List.cons_ne_nil _ _)
  have hname : readName (x ++ cr :: lf :: s) = (x, cr, lf :: s) := readText_append hx rfl _
  rw [parseHeadersLoop, if_neg hne, endsLine, afterLineEnd, hname]
  rfl

/-- **What the loop makes of a block of headers.** -/
theorem parseHeaders_block {pre body : List UInt8} {lines : List HeaderLine} {rounds : ℕ}
    (hrounds : lines.length < rounds) :
    parseHeadersLoop (pre ++ (blockText lines ++ cr :: lf :: body)) rounds
        (blockText lines ++ cr :: lf :: body)
      = ((headerLines lines).map HeaderLine.header,
        if ∀ l ∈ lines, 0x3A ∈ l.text then if body = [] then [lf] else body
        else blockText (linesLeft lines) ++ cr :: lf :: body) := by
  induction lines generalizing pre rounds with
  | nil =>
    obtain ⟨rounds, rfl⟩ := Nat.exists_eq_succ_of_ne_zero (show rounds ≠ 0 by omega)
    have hend := @parseHeadersLoop_end (pre ++ cr :: lf :: body) [] (by simp) rounds body
    rw [if_pos (List.forall_mem_nil _)]
    refine hend.trans (Prod.ext rfl ?_)
    cases body with
    | nil =>
      have hunread := unread_append (pre ++ [cr]) lf []
      rw [List.append_assoc] at hunread
      exact hunread
    | cons c body =>
      have hunread := unread_append (pre ++ [cr, lf]) c body
      rw [List.append_assoc] at hunread
      exact hunread
  | cons l lines ih =>
    obtain ⟨rounds, rfl⟩ := Nat.exists_eq_succ_of_ne_zero (show rounds ≠ 0 by omega)
    rw [blockText_cons]
    by_cases h : 0x3A ∈ l.text
    · have hpre : pre ++ (l.text ++ cr :: lf :: (blockText lines ++ cr :: lf :: body))
          = (pre ++ l.text ++ [cr, lf]) ++ (blockText lines ++ cr :: lf :: body) := by
        simp only [List.append_assoc, List.cons_append, List.nil_append]
      rw [parseHeadersLoop_line h, hpre, ih (by rw [List.length_cons] at hrounds; omega)]
      have hlines : headerLines (l :: lines) = l :: headerLines lines :=
        List.takeWhile_cons_of_pos (decide_eq_true h)
      have hleft : linesLeft (l :: lines) = linesLeft lines :=
        congrArg (List.drop 1) (List.dropWhile_cons_of_pos (decide_eq_true h))
      simp only [hlines, hleft, List.forall_mem_cons, h, true_and, List.map_cons]
    · have hends : ∀ c ∈ l.text, endsName c = false := by
        intro c hc
        obtain ⟨hcr, -, hzero⟩ := l.plain c hc
        rw [endsName, decide_eq_false (fun heq : c = 0x3A => h (heq ▸ hc)), decide_eq_false hcr,
          decide_eq_false hzero]
        rfl
      have hlines : headerLines (l :: lines) = [] :=
        List.takeWhile_cons_of_neg (by simpa using h)
      have hleft : linesLeft (l :: lines) = lines :=
        congrArg (List.drop 1) (List.dropWhile_cons_of_neg (by simpa using h))
      rw [parseHeadersLoop_end hends, hlines, hleft, if_neg fun hall => h (hall l List.mem_cons_self)]
      refine Prod.ext rfl ?_
      obtain ⟨d, t, ht⟩ : ∃ d t, blockText lines ++ cr :: lf :: body = d :: t := by
        cases hblock : blockText lines with
        | nil => exact ⟨cr, lf :: body, rfl⟩
        | cons d t => exact ⟨d, t ++ cr :: lf :: body, rfl⟩
      rw [ht]
      have hunread := unread_append (pre ++ (l.text ++ [cr, lf])) d t
      simp only [List.append_assoc, List.cons_append, List.nil_append] at hunread
      exact hunread

end Licq.Msn
