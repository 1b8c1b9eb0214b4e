import Licq.Daemon.FifoWords

/-!
# Daemon/FifoArgv — a line is split where it stands

`line2argv` for an argument vector of any size.  It reads and writes the line at two places: what is
written is never ahead of what is read (`At`), and what the loop has behind it are the words that it
has found, each with a null character.

The loop ends at the end of the line, or at the beginning of the word with which the vector would be
full, of which it takes nothing (`splitIn_ends`).  A backslash at the end of a line, between quotes,
takes the null character with it.  The **main result** `splits_words_iff` says for which lines and
sizes the arguments are the words.
-/

namespace Licq.Fifo

open List Option

/-! ## The code -/

/-- A character is written; none outside of the buffer. -/
def store (buf : List UInt8) (i : ℕ) (c : UInt8) : Option (List UInt8) :=
  if i < buf.length then some (buf.set i c) else none

/-- The loop that splits a line in its place; none where memory outside of the buffer is used. -/
def splitIn (size : ℕ) : ℕ → Split → Option Split
  | 0, _ => none
  | fuel + 1, s =>
    if s.argv.length < size then
      s.buf[s.p]?.bind fun c =>
        if c = 0 then some s
        else if !s.bQuote && isspace c then
          (store s.buf s.q 0).bind fun buf =>
            let next := skipSpaces buf (s.p + 1)
            buf[next]?.bind fun d =>
              let argv := if d ≠ 0 then s.argv ++ [s.q + 1] else s.argv
              splitIn size fuel ⟨buf, next, s.q + 1, argv, s.bQuote⟩
        else if c = 34 then splitIn size fuel ⟨s.buf, s.p + 1, s.q, s.argv, !s.bQuote⟩
        else if s.bQuote && c == 92 then
          s.buf[s.p + 1]?.bind fun d =>
            (store s.buf s.q (getQuotedChar d)).bind fun buf =>
              splitIn size fuel ⟨buf, s.p + 2, s.q + 1, s.argv, s.bQuote⟩
        else
          (store s.buf s.q c).bind fun buf =>
            splitIn size fuel ⟨buf, s.p + 1, s.q + 1, s.argv, s.bQuote⟩
    else some s

/-- `line2argv`: what is left of the buffer, and where the arguments are; none where memory outside
of the buffer or of the argument vector is used. -/
def line2argvIn (size : ℕ) (buf : List UInt8) : Option Split :=
  -- argv[(*argc)++]=p
  if size = 0 then none
  else
    let p := skipSpaces buf 0
    (lastNonSpace buf (p + (cString (buf.drop p)).length)).bind fun q =>
      (store buf (q + 1) 0).bind fun buf =>
        (splitIn (size - 1) (buf.length + 1) ⟨buf, p, p, [p], false⟩).bind fun s =>
          (store s.buf s.q 0).map fun buf => ⟨buf, s.p, s.q, s.argv, s.bQuote⟩

/-! ## What is asked of it -/

/-- The arguments. -/
def Split.arguments (s : Split) : List (List UInt8) := s.argv.map fun i => cString (s.buf.drop i)

/-- The part of a line that is not read. -/
def Split.unread (s : Split) (line : List UInt8) : List UInt8 :=
  (line.takeWhile isspace ++ trim line).drop s.p

/-- No more arguments than the size, which are words of the line, and all of them when the vector is
larger.  Each ends with a null character, before the part of the line that is not read. -/
structure SplitsWords (size : ℕ) (line : List UInt8) (s : Split) : Prop where
  length_le : s.argv.length ≤ size
  isPrefix : s.arguments <+: words line
  all : (words line).length < size → s.arguments = words line
  terminated : ∀ i ∈ s.argv, 0 ∈ s.buf.drop i
  apart : s.unread line = [] ∨ ∀ i ∈ s.argv, i + (cString (s.buf.drop i)).length < s.p

/-- Some words, each with a null character. -/
def packed (ws : List (List UInt8)) : List UInt8 := ws.flatMap (· ++ [0])

/-- The line has a word.  Its words are fewer than the arguments before the last place of the
vector, and no backslash takes the end of the line with it, which one does not when spaces were
behind it.  Or the word at which the loop ends is an empty one, and more was read than written
before it. -/
def Splittable (size : ℕ) (line : List UInt8) : Prop :=
  words line ≠ [] ∧
    (((words line).length + 1 < size ∧ (Dangling line → line.getLast?.any isspace = true)) ∨
      ((words line)[size - 2]? = some [] ∧ ∃ unread, (unreads line)[size - 2]? = some unread ∧
        (packed ((words line).take (size - 2))).length + unread.length < (trim line).length))

/-! ## The two places -/

/-- Where the words are that are packed from some place on. -/
def offsets : ℕ → List (List UInt8) → List ℕ
  | _, [] => []
  | base, w :: ws => base :: offsets (base + w.length + 1) ws

theorem packed_append (ws vs : List (List UInt8)) : packed (ws ++ vs) = packed ws ++ packed vs :=
  flatMap_append

theorem offsets_concat (base : ℕ) (ws : List (List UInt8)) (w : List UInt8) :
    offsets base (ws ++ [w]) = offsets base ws ++ [base + (packed ws).length] := by
  induction ws generalizing base with
  | nil => rfl
  | cons v ws ih =>
    have hlen : base + v.length + 1 + (packed ws).length = base + (packed (v :: ws)).length := by
      simp only [packed, flatMap_cons, length_append, length_singleton]
      omega
    rw [cons_append, offsets, offsets, ih, hlen, cons_append]

theorem length_offsets (base : ℕ) (ws : List (List UInt8)) :
    (offsets base ws).length = ws.length := by
  induction ws generalizing base with
  | nil => rfl
  | cons v ws ih => rw [offsets, length_cons, ih, length_cons]

/-- The loop is between what it has written, the finished words and a part of one, and what it has
still to read. -/
structure At (pre : List UInt8) (finished : List (List UInt8)) (w junk rest post : List UInt8)
    (s : Split) : Prop where
  buf : s.buf = pre ++ (packed finished ++ w) ++ junk ++ (rest ++ 0 :: post)
  q : s.q = pre.length + (packed finished ++ w).length
  p : s.p = s.q + junk.length
  argv : s.argv = offsets pre.length (finished ++ [w])

namespace At

variable {pre w junk rest post a : List UInt8} {finished : List (List UInt8)} {s : Split}

theorem drop_p (h : At pre finished w junk rest post s) : s.buf.drop s.p = rest ++ 0 :: post := by
  refine (congrArg₂ List.drop ?_ h.buf).trans drop_left
  rw [h.p, h.q]
  simp only [length_append]

theorem length_argv (h : At pre finished w junk rest post s) :
    s.argv.length = finished.length + 1 := by
  rw [h.argv, length_offsets, length_append]
  rfl

theorem get (h : At pre finished w junk rest post s) (i : ℕ) :
    s.buf[s.p + i]? = (rest ++ 0 :: post)[i]? := by
  rw [← h.drop_p, getElem?_drop]

/-- Some characters are read. -/
theorem skip (h : At pre finished w junk (a ++ rest) post s) (b : Bool) :
    At pre finished w (junk ++ a) rest post ⟨s.buf, s.p + a.length, s.q, s.argv, b⟩ where
  buf := by
    refine h.buf.trans ?_
    simp only [append_assoc]
  q := h.q
  p := by
    have hp := h.p
    simp only [length_append]
    omega
  argv := h.argv

/-- **Some characters are read, and one is written.** -/
theorem store (h : At pre finished w junk (a ++ rest) post s) (ha : a ≠ []) (c : UInt8) (b : Bool) :
    ∃ buf, Fifo.store s.buf s.q c = some buf ∧
      At pre finished (w ++ [c]) (junk ++ a).tail rest post
        ⟨buf, s.p + a.length, s.q + 1, s.argv, b⟩ := by
  obtain ⟨x, l, hl⟩ : ∃ x l, junk ++ a = x :: l :=
    exists_cons_of_ne_nil (append_ne_nil_of_right_ne_nil junk ha)
  have hbuf : s.buf = (pre ++ (packed finished ++ w)) ++ x :: (l ++ (rest ++ 0 :: post)) := by
    rw [h.buf, ← cons_append, ← hl]
    simp only [append_assoc]
  have hq : s.q = (pre ++ (packed finished ++ w)).length := by
    rw [h.q]
    exact length_append.symm
  have hlen := congrArg List.length hl
  rw [length_append, length_cons] at hlen
  refine ⟨_, if_pos ?_, ?_, ?_, ?_, ?_⟩
  · rw [hbuf, hq]
    simp only [length_append, length_cons]
    omega
  · rw [hbuf, hq, set_append_right _ _ le_rfl, Nat.sub_self, set_cons_zero, hl,
      tail_cons]
    simp only [append_assoc, cons_append, nil_append]
  · rw [h.q]
    simp only [length_append, length_singleton]
    omega
  · have hp := h.p
    simp only [hl, tail_cons]
    omega
  · rw [h.argv, offsets_concat, offsets_concat]

/-- A word is finished. -/
theorem finish (h : At pre finished (w ++ [0]) junk rest post s) (b : Bool) :
    At pre (finished ++ [w]) [] junk rest post ⟨s.buf, s.p, s.q, s.argv ++ [s.q], b⟩ where
  buf := by
    rw [h.buf, packed_append, append_nil]
    simp only [packed, flatMap_cons, flatMap_nil, append_nil]
  q := by
    rw [h.q, packed_append, append_nil]
    simp only [packed, flatMap_cons, flatMap_nil, append_nil]
  p := h.p
  argv := by
    have hpacked : (packed (finished ++ [w])).length =
        (packed finished ++ (w ++ [0])).length := by
      rw [packed_append]
      simp only [packed, flatMap_cons, flatMap_nil, append_nil]
    rw [h.argv, offsets_concat, offsets_concat _ (finished ++ [w]), offsets_concat, h.q, hpacked]

end At

/-! ## The loop -/

/-- A part of a word before what the rest of it is. -/
def prepend (w : List UInt8) : List (List UInt8) → List (List UInt8)
  | [] => [w]
  | v :: vs => (w ++ v) :: vs

theorem prepend_push (w : List UInt8) (c : UInt8) (ws : List (List UInt8)) :
    prepend w (push c ws) = prepend (w ++ [c]) ws := by
  cases ws with
  | nil => rfl
  | cons v vs => simp only [push, prepend, append_assoc, singleton_append]

theorem prepend_nil {ws : List (List UInt8)} (h : ws ≠ []) : prepend [] ws = ws := by
  obtain ⟨v, vs, rfl⟩ := exists_cons_of_ne_nil h
  rfl

/-- How the loop ends: with all words, or with nothing of the word at which the vector would be
full, or behind the null character at `stop`. -/
def Ends (size : ℕ) (pre post : List UInt8) (stop : ℕ) (all : List (List UInt8)) (dangling : Prop)
    (start : Option (List UInt8)) (r : Option Split) : Prop :=
  (all.length < size → dangling → post = [] → r = none) ∧
    (all.length < size → (dangling → post ≠ []) → ∃ s finished w v junk post', r = some s ∧
      At pre finished w junk [] post' s ∧ finished ++ [v] = all ∧ cString w = cString v ∧
        stop ≤ s.p) ∧
    (size ≤ all.length → ∃ s finished junk unread, r = some s ∧
      At pre finished [] junk unread post s ∧ finished.length = size - 1 ∧ finished <+: all ∧
        start = some unread ∧ s.p + unread.length = stop)

/-- The mode in which the loop is. -/
def Split.mode (s : Split) : Mode := if s.bQuote then .quoted else .plain

section Steps

variable {size fuel k p p' : ℕ} {pre w junk t rest post : List UInt8} {finished : List (List UInt8)}
  {s : Split} {m : Mode} {c : UInt8} {r : Option Split}

theorem prepend_wordsFrom (hnext : m.next c ≠ .gap) :
    prepend w (wordsFrom m (c :: t)) =
      prepend (w ++ (m.out c).toList) (wordsFrom (m.next c) t) := by
  rw [wordsFrom, if_neg fun h => hnext h.2]
  cases m.out c with
  | none => rw [toList_none, append_nil]
  | some b => exact prepend_push w b _

/-- What is at the end is told before a character that does not end a word. -/
theorem ends_cons (hm : m ≠ .gap) (hnext : m.next c ≠ .gap) (hk : k ≠ 0)
    (h : Ends size pre post (p + 1 + t.length)
      (finished ++ prepend (w ++ (m.out c).toList) (wordsFrom (m.next c) t))
      ((m.next c).final t = .escaped) ((t :: unreadsFrom (m.next c) t)[k]?) r) :
    Ends size pre post (p + (c :: t).length) (finished ++ prepend w (wordsFrom m (c :: t)))
      (m.final (c :: t) = .escaped) (((c :: t) :: unreadsFrom m (c :: t))[k]?) r := by
  obtain ⟨k, rfl⟩ := Nat.exists_eq_succ_of_ne_zero hk
  rw [prepend_wordsFrom hnext, Mode.final_cons, unreadsFrom, if_neg fun h => hm h.1,
    length_cons, Nat.add_comm t.length, ← Nat.add_assoc]
  exact h

/-- Where the loop goes on. -/
def Goes (size fuel : ℕ) (s : Split) (m : Mode) (p : ℕ) (pre : List UInt8)
    (finished : List (List UInt8)) (w rest post : List UInt8) : Prop :=
  ∃ s' junk, splitIn size (fuel + 1) s = splitIn size fuel s' ∧ s'.mode = m ∧ s'.p = p ∧
    At pre finished w junk rest post s'

theorem get_p (hat : At pre finished w junk (c :: t) post s) : s.buf[s.p]? = some c := by
  have hget := hat.get 0
  exact hget

theorem mode_plain (h : s.mode = .plain) : s.bQuote = false := by
  cases hb : s.bQuote with
  | false => rfl
  | true => rw [Split.mode, hb, if_pos rfl] at h; cases h

theorem mode_quoted (h : s.mode = .quoted) : s.bQuote = true := by
  cases hb : s.bQuote with
  | true => rfl
  | false => rw [Split.mode, hb, if_neg Bool.false_ne_true] at h; cases h

/-- A quote. -/
theorem goes_quote (fuel : ℕ) (hat : At pre finished w junk (34 :: t) post s)
    (hfull : finished.length + 1 < size) :
    Goes size fuel s (if s.bQuote then .plain else .quoted) (s.p + 1) pre finished w t post := by
  refine ⟨_, _, ?_, ?_, ?_, hat.skip (a := [34]) (!s.bQuote)⟩
  · have hspace : isspace 34 = false := rfl
    rw [splitIn, if_pos (hat.length_argv.trans_lt hfull), get_p hat, bind_some,
      if_neg (by decide), hspace, Bool.and_false, if_neg Bool.false_ne_true, if_pos rfl]
    rfl
  · cases hb : s.bQuote with
    | false => rfl
    | true => rfl
  · rfl

/-- A character that is not special. -/
theorem goes_char (fuel : ℕ) (hat : At pre finished w junk (c :: t) post s) (hc : c ≠ 0)
    (hfull : finished.length + 1 < size) (hout : s.mode.out c = some c) :
    Goes size fuel s s.mode (s.p + 1) pre finished (w ++ [c]) t post := by
  obtain ⟨buf, hstore, hat'⟩ := hat.store (a := [c]) (cons_ne_nil _ _) c s.bQuote
  refine ⟨⟨buf, s.p + 1, s.q + 1, s.argv, s.bQuote⟩, _, ?_, rfl, rfl, hat'⟩
  rw [splitIn, if_pos (hat.length_argv.trans_lt hfull), get_p hat, bind_some, if_neg hc]
  cases hb : s.bQuote with
  | false =>
    rw [Split.mode, hb, if_neg Bool.false_ne_true, Mode.out] at hout
    split_ifs at hout with hspecial
    rw [not_or, Bool.not_eq_true] at hspecial
    rw [hspecial.1, Bool.and_false, if_neg Bool.false_ne_true, if_neg hspecial.2, Bool.false_and,
      if_neg Bool.false_ne_true, hstore]
    rfl
  | true =>
    rw [Split.mode, hb, if_pos rfl, Mode.out] at hout
    split_ifs at hout with hspecial
    rw [not_or] at hspecial
    have hslash : (c == 92) = false := beq_eq_false_iff_ne.mpr hspecial.2
    rw [Bool.not_true, Bool.false_and, if_neg Bool.false_ne_true, if_neg hspecial.1, hslash,
      Bool.and_false, if_neg Bool.false_ne_true, hstore]
    rfl

/-- A backslash and another character. -/
theorem goes_escape (fuel : ℕ) {d : UInt8} (hat : At pre finished w junk (92 :: d :: t) post s)
    (hfull : finished.length + 1 < size) (hm : s.mode = .quoted) :
    Goes size fuel s .quoted (s.p + 1 + 1) pre finished (w ++ [getQuotedChar d]) t post := by
  have hb := mode_quoted hm
  have hnext : s.buf[s.p + 1]? = some d := hat.get 1
  obtain ⟨buf, hstore, hat'⟩ :=
    hat.store (a := [92, d]) (cons_ne_nil _ _) (getQuotedChar d) s.bQuote
  refine ⟨⟨buf, s.p + 2, s.q + 1, s.argv, s.bQuote⟩, _, ?_, hm, rfl, hat'⟩
  rw [splitIn, if_pos (hat.length_argv.trans_lt hfull), get_p hat, bind_some,
    if_neg (by decide), hb, Bool.not_true, Bool.false_and, if_neg Bool.false_ne_true,
    if_neg (by decide), Bool.true_and, if_pos (by decide), hnext, bind_some, hstore]
  rfl

theorem takeWhile_append_zero (t post : List UInt8) :
    (t ++ 0 :: post).takeWhile isspace = t.takeWhile isspace := by
  induction t with
  | nil => rfl
  | cons c t ih =>
    rw [cons_append, takeWhile_cons, takeWhile_cons, ih]

/-- Spaces, and the beginning of the next word. -/
theorem goes_space (fuel : ℕ) (hat : At pre finished w junk (c :: t) post s) (hc : isspace c = true)
    (hfull : finished.length + 1 < size) (hm : s.mode = .plain) (ht : 0 ∉ t)
    (hne : t.dropWhile isspace ≠ []) :
    Goes size fuel s .plain (s.p + 1 + (t.takeWhile isspace).length) pre (finished ++ [w]) []
      (t.dropWhile isspace) post := by
  have hb := mode_plain hm
  have hc0 : c ≠ 0 := by
    rintro rfl
    exact absurd hc (by decide)
  obtain ⟨buf, hstore, hat'⟩ := hat.store (a := [c]) (cons_ne_nil _ _) 0 s.bQuote
  -- the spaces behind it are looked for in what is left of the buffer
  have hskip : skipSpaces buf (s.p + 1) = s.p + 1 + (t.takeWhile isspace).length := by
    have hdrop : buf.drop (s.p + 1) = t ++ 0 :: post := hat'.drop_p
    have htake : (t ++ 0 :: post).takeWhile isspace = t.takeWhile isspace :=
      takeWhile_append_zero t post
    rw [skipSpaces, hdrop, htake]
  rw [← takeWhile_append_dropWhile (p := isspace) (l := t)] at hat'
  have hat'' := (hat'.finish s.bQuote).skip s.bQuote
  obtain ⟨d, l, hd⟩ := exists_cons_of_ne_nil hne
  have hget : buf[s.p + 1 + (t.takeWhile isspace).length]? = some d := by
    rw [hd] at hat''
    exact get_p hat''
  have hd0 : d ≠ 0 := by
    rintro rfl
    have hmem : 0 ∈ t.dropWhile isspace := hd ▸ mem_cons_self
    exact ht ((dropWhile_sublist isspace).subset hmem)
  refine ⟨_, _, ?_, ?_, ?_, hat''⟩
  · rw [splitIn, if_pos (hat.length_argv.trans_lt hfull), get_p hat, bind_some, if_neg hc0,
      hb, hc]
    simp only [Bool.not_false, Bool.and_self, if_true, hstore, bind_some, hskip, hget, ne_eq,
      hd0, not_false_eq_true]
    rfl
  · exact hm
  · rfl

/-- A backslash at the end: the null character is read and taken for a character of the word. -/
theorem goes_dangling (fuel : ℕ) {blanks : List UInt8}
    (hat : At pre finished w junk [92] (blanks ++ [0]) s)
    (hfull : finished.length + 1 < size) (hm : s.mode = .quoted) :
    Goes size fuel s .quoted (s.p + 1 + 1) pre finished (w ++ [0]) blanks [] := by
  have hb := mode_quoted hm
  have hnext : s.buf[s.p + 1]? = some 0 := hat.get 1
  have hview : At pre finished w junk ([92, 0] ++ blanks) [] s :=
    ⟨hat.buf, hat.q, hat.p, hat.argv⟩
  obtain ⟨buf, hstore, hat'⟩ := hview.store (a := [92, 0]) (cons_ne_nil _ _) 0 s.bQuote
  refine ⟨⟨buf, s.p + 2, s.q + 1, s.argv, s.bQuote⟩, _, ?_, hm, rfl, hat'⟩
  have hquoted : getQuotedChar 0 = 0 := rfl
  rw [splitIn, if_pos (hat.length_argv.trans_lt hfull), get_p hat, bind_some,
    if_neg (by decide), hb, Bool.not_true, Bool.false_and, if_neg Bool.false_ne_true,
    if_neg (by decide), Bool.true_and, if_pos (by decide), hnext, bind_some, hquoted, hstore]
  rfl

/-- A backslash at the end of the buffer: what is behind the buffer is read. -/
theorem splitIn_dangling (hat : At pre finished w junk [92] [] s)
    (hfull : finished.length + 1 < size) (hm : s.mode = .quoted) :
    splitIn size (fuel + 2) s = none := by
  have hb := mode_quoted hm
  have hnext : s.buf[s.p + 1]? = some 0 := hat.get 1
  have hlen : s.buf.length = s.p + 2 := by
    have hdrop := congrArg List.length hat.drop_p
    rw [length_drop] at hdrop
    simp only [length_append, length_cons, length_nil] at hdrop
    omega
  have hq : s.q < s.buf.length := by
    have hp := hat.p
    omega
  have hend : (s.buf.set s.q (getQuotedChar 0))[s.p + 2]? = none := by
    rw [List.getElem?_eq_none_iff, length_set, hlen]
  rw [splitIn, if_pos (hat.length_argv.trans_lt hfull), get_p hat, bind_some,
    if_neg (by decide), hb, Bool.not_true, Bool.false_and, if_neg Bool.false_ne_true,
    if_neg (by decide), Bool.true_and, if_pos (by decide), hnext, bind_some, store,
    if_pos hq, bind_some, splitIn, if_pos (hat.length_argv.trans_lt hfull), hend,
    bind_none]

theorem length_lt_prepend (finished : List (List UInt8)) (w : List UInt8) (ws : List (List UInt8)) :
    finished.length < (finished ++ prepend w ws).length := by
  rw [length_append]
  cases ws with
  | nil => exact Nat.lt_succ_self _
  | cons v vs =>
    rw [prepend, length_cons]
    omega

/-- The vector is full. -/
theorem ends_full (hat : At pre finished [] junk rest post s) (hfull : size ≤ finished.length + 1)
    (hsize : finished.length ≤ size - 1) (all : List (List UInt8)) (dangling : Prop)
    (starts : List (List UInt8)) (hall : finished.length < (finished ++ all).length) :
    Ends size pre post (s.p + rest.length) (finished ++ all) dangling
      ((rest :: starts)[size - 1 - finished.length]?) (splitIn size (fuel + 1) s) := by
  have hfull' : ¬ s.argv.length < size := by
    rw [hat.length_argv]
    omega
  have hzero : size - 1 - finished.length = 0 := by omega
  rw [splitIn, if_neg hfull', hzero]
  refine ⟨fun h => absurd h (by omega), fun h => absurd h (by omega), fun _ => ?_⟩
  exact ⟨s, finished, junk, rest, rfl, hat, by omega, prefix_append _ _, rfl, rfl⟩

/-- The end of the line. -/
theorem ends_nil (hat : At pre finished w junk [] post s) (hfull : finished.length + 1 < size)
    (hm : s.mode = m) (start : Option (List UInt8)) :
    Ends size pre post (s.p + ([] : List UInt8).length) (finished ++ prepend w (wordsFrom m []))
      (m.final [] = .escaped) start (splitIn size (fuel + 1) s) := by
  have hwords : wordsFrom m [] = [[]] := by
    rw [← hm, Split.mode]
    split_ifs <;> rfl
  have hdangling : m.final [] ≠ .escaped := by
    rw [← hm, Split.mode]
    split_ifs <;> exact Mode.noConfusion
  have hget : s.buf[s.p]? = some 0 := hat.get 0
  have hgo : splitIn size (fuel + 1) s = some s := by
    rw [splitIn, if_pos (hat.length_argv.trans_lt hfull), hget, bind_some, if_pos rfl]
  rw [hgo, hwords, prepend, append_nil]
  refine ⟨fun _ h => absurd h hdangling, fun _ _ => ?_, fun h => absurd h (by simpa using hfull)⟩
  exact ⟨s, finished, w, w, junk, post, rfl, hat, rfl, rfl, le_rfl⟩

/-- What is at the end is told before spaces. -/
theorem ends_space (hc : isspace c = true) (hfull : finished.length + 1 < size)
    (hne : t.dropWhile isspace ≠ [])
    (h : Ends size pre post (p + 1 + (t.takeWhile isspace).length + (t.dropWhile isspace).length)
      (finished ++ [w] ++ prepend [] (wordsFrom .plain (t.dropWhile isspace)))
      (Mode.plain.final (t.dropWhile isspace) = .escaped)
      ((t.dropWhile isspace :: unreadsFrom .plain (t.dropWhile isspace))[
        size - 1 - (finished ++ [w]).length]?) r) :
    Ends size pre post (p + (c :: t).length) (finished ++ prepend w (wordsFrom .plain (c :: t)))
      (Mode.plain.final (c :: t) = .escaped)
      (((c :: t) :: unreadsFrom .plain (c :: t))[size - 1 - finished.length]?) r := by
  obtain ⟨d, l, hd⟩ := exists_cons_of_ne_nil hne
  have hdspace : isspace d = false := by
    have hhead := head_dropWhile_not isspace hne
    simpa only [hd, head_cons, Bool.not_eq_true] using hhead
  have hnext : Mode.plain.next c = .gap := by rw [Mode.next, if_pos hc]
  have hwords : wordsFrom .plain (c :: t) = [] :: wordsFrom .plain (t.dropWhile isspace) := by
    have hout : Mode.plain.out c = none := by rw [Mode.out, if_pos (.inl hc)]
    rw [wordsFrom, if_pos ⟨Mode.noConfusion, hnext⟩, hout, hnext, hd, wordsFrom_plain_eq hdspace,
      ← hd, wordsFrom_gap_dropWhile]
  have hunreads : unreadsFrom .plain (c :: t) =
      t.dropWhile isspace :: unreadsFrom .plain (t.dropWhile isspace) := by
    have hplain : Mode.plain ≠ .gap := Mode.noConfusion
    rw [unreadsFrom, if_neg fun h => hplain h.1, hnext, ← unreadsFrom_gap_dropWhile, hd,
      unreadsFrom_gap_eq hdspace]
  have hfinal : Mode.plain.final (c :: t) = Mode.plain.final (t.dropWhile isspace) := by
    rw [Mode.final_cons, hnext, ← Mode.final_gap_dropWhile, hd]
    rfl
  have hstop : p + (c :: t).length =
      p + 1 + (t.takeWhile isspace).length + (t.dropWhile isspace).length := by
    have hlen := congrArg List.length (takeWhile_append_dropWhile (p := isspace) (l := t))
    rw [length_append] at hlen
    rw [length_cons]
    omega
  have hall : finished ++ prepend w (wordsFrom .plain (c :: t)) =
      finished ++ [w] ++ prepend [] (wordsFrom .plain (t.dropWhile isspace)) := by
    rw [hwords, prepend_nil (wordsFrom_ne_nil Mode.noConfusion _), prepend, append_nil,
      append_assoc]
    rfl
  have hindex : size - 1 - finished.length = size - 1 - (finished ++ [w]).length + 1 := by
    rw [length_append, length_singleton]
    omega
  rw [hstop, hall, hfinal, hunreads, hindex, getElem?_cons_succ]
  exact h

theorem next_blanks {blanks : List UInt8} (h : ∀ c ∈ blanks, isspace c = true) :
    Mode.quoted.final blanks = .quoted ∧ wordsFrom .quoted blanks = [blanks] := by
  induction blanks with
  | nil => exact ⟨rfl, rfl⟩
  | cons c blanks ih =>
    obtain ⟨hc, hblanks⟩ := forall_mem_cons.mp h
    obtain ⟨hfinal, hwords⟩ := ih hblanks
    have h34 : c ≠ 34 := by
      rintro rfl
      exact absurd hc (by decide)
    have h92 : c ≠ 92 := by
      rintro rfl
      exact absurd hc (by decide)
    have hnext : Mode.quoted.next c = .quoted := by rw [Mode.next, if_neg h34, if_neg h92]
    have hout : Mode.quoted.out c = some c := by rw [Mode.out, if_neg (not_or.mpr ⟨h34, h92⟩)]
    have hgap : Mode.quoted ≠ .gap := Mode.noConfusion
    refine ⟨by rw [Mode.final_cons, hnext, hfinal], ?_⟩
    rw [wordsFrom, hnext, hout, if_neg fun h => hgap h.2, hwords]
    rfl

theorem cString_zero (w s : List UInt8) : cString (w ++ 0 :: s) = cString w := by
  induction w with
  | nil => rfl
  | cons c w ih =>
    rw [cons_append, cString, cString, takeWhile_cons, takeWhile_cons]
    exact congrArg (fun l => if c != 0 then c :: l else []) ih

/-- A backslash at the end of the line. -/
theorem ends_dangling (hat : At pre finished w junk [92] post s)
    (hfull : finished.length + 1 < size) (hm : s.mode = .quoted)
    (hpost : post = [] ∨ ∃ blanks : List UInt8, (∀ c ∈ blanks, isspace c = true) ∧
      post = blanks ++ [0])
    (hblanks : ∀ {w junk blanks : List UInt8} {s' : Split}, At pre finished w junk blanks [] s' →
      s'.mode = .quoted → (∀ c ∈ blanks, isspace c = true) → blanks.length + 1 < post.length + 1 →
      Ends size pre [] (s'.p + blanks.length) (finished ++ prepend w (wordsFrom .quoted blanks))
        (Mode.quoted.final blanks = .escaped)
        ((blanks :: unreadsFrom .quoted blanks)[size - 1 - finished.length]?)
        (splitIn size (fuel + 1) s')) (start : Option (List UInt8)) :
    Ends size pre post (s.p + [(92 : UInt8)].length)
      (finished ++ prepend w (wordsFrom .quoted [92])) (Mode.quoted.final [92] = .escaped) start
      (splitIn size (fuel + 2) s) := by
  have hall : finished ++ prepend w (wordsFrom .quoted [92]) = finished ++ [w] := by
    have hwords : wordsFrom .quoted [92] = [[]] := rfl
    rw [hwords, prepend, append_nil]
  have hlen : (finished ++ [w]).length = finished.length + 1 := length_append
  rw [hall]
  refine ⟨?_, ?_, fun h => absurd h (by omega)⟩
  · rintro - - rfl
    exact splitIn_dangling hat hfull hm
  · intro _ hne
    obtain ⟨blanks, hspaces, rfl⟩ := hpost.resolve_left (hne rfl)
    obtain ⟨s', junk', hgo, hmode, hp, hat'⟩ := goes_dangling (fuel + 1) hat hfull hm
    obtain ⟨hfinal, hwords⟩ := next_blanks hspaces
    have hlen'' : (blanks ++ [(0 : UInt8)]).length = blanks.length + 1 := length_append
    have hends := hblanks hat' hmode hspaces (by omega)
    rw [hwords, prepend, hfinal] at hends
    have hlen' : (finished ++ [w ++ [0] ++ blanks]).length < size := by
      rw [length_append]
      exact hfull
    obtain ⟨s'', finished', w', v, junk'', post', hs, hat'', hv, hcstring, hstop⟩ :=
      hends.2.1 hlen' fun h => absurd h Mode.noConfusion
    obtain ⟨hfinished, hlast⟩ := append_inj' hv rfl
    rw [singleton_inj] at hlast
    refine ⟨s'', finished', w', w, junk'', post', hgo.trans hs, hat'', by rw [hfinished], ?_, ?_⟩
    · rw [hcstring, hlast, append_assoc]
      exact cString_zero w blanks
    · rw [length_singleton]
      omega

end Steps

/-- **How the loop ends**, from any place of the line. -/
theorem splitIn_ends {size fuel : ℕ} {pre finished w junk rest post s} {m : Mode}
    (hat : At pre finished w junk rest post s) (hm : s.mode = m) (hrest : 0 ∉ rest)
    (hgap : m.final rest ≠ .gap) (hsize : finished.length ≤ size - 1)
    (hw : size ≤ finished.length + 1 → w = [])
    (hpost : post = [] ∨ ∃ blanks : List UInt8, (∀ c ∈ blanks, isspace c = true) ∧
      post = blanks ++ [0])
    (hfuel : rest.length + post.length + 1 < fuel) :
    Ends size pre post (s.p + rest.length) (finished ++ prepend w (wordsFrom m rest))
      (m.final rest = .escaped) ((rest :: unreadsFrom m rest)[size - 1 - finished.length]?)
      (splitIn size fuel s) := by
  induction fuel generalizing finished w junk rest post s m with
  | zero => exact absurd hfuel (Nat.not_lt_zero _)
  | succ fuel ih =>
    have hmgap : m ≠ .gap := by
      rw [← hm, Split.mode]
      split_ifs <;> exact Mode.noConfusion
    by_cases hfull : size ≤ finished.length + 1
    · obtain rfl := hw hfull
      exact ends_full hat hfull hsize _ _ _ (length_lt_prepend _ _ _)
    have hlt : finished.length + 1 < size := Nat.lt_of_not_le hfull
    have hk : size - 1 - finished.length ≠ 0 := by omega
    cases rest with
    | nil => exact ends_nil hat hlt hm _
    | cons c t =>
      rw [mem_cons, not_or] at hrest
      rw [Mode.final_cons] at hgap
      rw [length_cons] at hfuel
      -- a character that does not end a word
      have goes : ∀ w', w' = w ++ (m.out c).toList → m.next c ≠ .gap →
          Goes size fuel s (m.next c) (s.p + 1) pre finished w' t post →
          Ends size pre post (s.p + (c :: t).length) (finished ++ prepend w (wordsFrom m (c :: t)))
            (m.final (c :: t) = .escaped)
            (((c :: t) :: unreadsFrom m (c :: t))[size - 1 - finished.length]?)
            (splitIn size (fuel + 1) s) := by
        rintro w' rfl hnext ⟨s', junk', hgo, hmode, hp, hat'⟩
        rw [hgo]
        refine ends_cons hmgap hnext hk ?_
        rw [← hp]
        exact ih hat' hmode hrest.2 hgap hsize (fun h => absurd h hfull) hpost (by omega)
      cases hb : s.bQuote with
      | false =>
        obtain rfl : Mode.plain = m := by rw [← hm, Split.mode, hb, if_neg Bool.false_ne_true]
        cases hspace : isspace c with
        | true =>
          have hnext : Mode.plain.next c = .gap := by rw [Mode.next, if_pos hspace]
          rw [hnext, ← Mode.final_gap_dropWhile] at hgap
          have hne : t.dropWhile isspace ≠ [] := fun h => by
            rw [h] at hgap
            exact hgap rfl
          obtain ⟨s', junk', hgo, hmode, hp, hat'⟩ :=
            goes_space fuel hat hspace hlt hm (fun h => hrest.2 h) hne
          have hlen : (t.dropWhile isspace).length ≤ t.length :=
            (dropWhile_sublist isspace).length_le
          have hfinal : Mode.plain.final (t.dropWhile isspace) =
              Mode.gap.final (t.dropWhile isspace) := by
            obtain ⟨d, l, hd⟩ := exists_cons_of_ne_nil hne
            rw [hd]
            rfl
          rw [hgo]
          refine ends_space hspace hlt hne ?_
          rw [← hp]
          refine ih hat' hmode (fun h => hrest.2 ((dropWhile_sublist isspace).subset h))
            (hfinal ▸ hgap) ?_ (fun _ => rfl) hpost (by omega)
          rw [length_append, length_singleton]
          omega
        | false =>
          have hnext : Mode.plain.next c ≠ .gap := Mode.next_ne_gap hspace
          by_cases hquote : c = 34
          · subst hquote
            refine goes w (append_nil w).symm hnext ?_
            have hgo := goes_quote fuel hat hlt
            rwa [hb, if_neg Bool.false_ne_true] at hgo
          · have hout : Mode.plain.out c = some c := by
              rw [Mode.out, hspace]
              exact if_neg (not_or.mpr ⟨Bool.false_ne_true, hquote⟩)
            have hstay : Mode.plain.next c = .plain := by
              rw [Mode.next, hspace, if_neg Bool.false_ne_true, if_neg hquote]
            refine goes (w ++ [c]) (by rw [hout]; rfl) hnext ?_
            have hgo := goes_char fuel hat (Ne.symm hrest.1) hlt (hm ▸ hout)
            rwa [hm, ← hstay] at hgo
      | true =>
        obtain rfl : Mode.quoted = m := by rw [← hm, Split.mode, hb, if_pos rfl]
        by_cases hquote : c = 34
        · subst hquote
          refine goes w (append_nil w).symm Mode.noConfusion ?_
          have hgo := goes_quote fuel hat hlt
          rwa [hb, if_pos rfl] at hgo
        by_cases hslash : c = 92
        · subst hslash
          cases t with
          | nil =>
            rw [length_nil] at hfuel
            obtain ⟨fuel, rfl⟩ : ∃ fuel', fuel = fuel' + 1 := ⟨fuel - 1, by omega⟩
            refine ends_dangling hat hlt hm hpost ?_ _
            intro w' junk' blanks s' hat' hmode hspaces hlen
            have hzero : 0 ∉ blanks := fun h => absurd (hspaces 0 h) (by decide)
            have hfinal : Mode.quoted.final blanks ≠ .gap := by
              rw [(next_blanks hspaces).1]
              exact Mode.noConfusion
            refine ih hat' hmode hzero hfinal hsize (fun h => absurd h hfull) (.inl rfl) ?_
            rw [length_nil]
            omega
          | cons d t =>
            have hnext : Mode.quoted.next 92 = .escaped := rfl
            have hout : Mode.quoted.out 92 = none := rfl
            obtain ⟨s', junk', hgo, hmode, hp, hat'⟩ := goes_escape fuel hat hlt hm
            rw [mem_cons, not_or] at hrest
            rw [length_cons] at hfuel
            rw [hgo]
            refine ends_cons hmgap Mode.noConfusion hk ?_
            rw [hnext, hout, toList_none, append_nil]
            refine ends_cons Mode.noConfusion Mode.noConfusion hk ?_
            rw [← hp]
            exact ih hat' hmode hrest.2.2 hgap hsize (fun h => absurd h hfull) hpost (by omega)
        · have hout : Mode.quoted.out c = some c := by
            rw [Mode.out, if_neg (not_or.mpr ⟨hquote, hslash⟩)]
          have hstay : Mode.quoted.next c = .quoted := by
            rw [Mode.next, if_neg hquote, if_neg hslash]
          refine goes (w ++ [c]) (by rw [hout]; rfl) (by rw [hstay]; exact Mode.noConfusion) ?_
          have hgo := goes_char fuel hat (Ne.symm hrest.1) hlt (hm ▸ hout)
          rwa [hm, ← hstay] at hgo

/-! ## The spaces around the line -/

theorem lastNonSpace_add {buf : List UInt8} {lo n : ℕ}
    (h : ∀ i, lo ≤ i → i < lo + n → buf[i]?.any isspace = true) :
    lastNonSpace buf (lo + n) = lastNonSpace buf lo := by
  induction n with
  | zero => rfl
  | succ n ih =>
    rw [← Nat.add_assoc, lastNonSpace, if_pos (h _ (Nat.le_add_right _ _) (Nat.lt_succ_self _))]
    exact ih fun i hi hlt => h i hi (Nat.lt_succ_of_lt hlt)

theorem getElem?_any_space {l : List UInt8} (h : ∀ c ∈ l, isspace c = true) {i : ℕ}
    (hi : i < l.length) (s : List UInt8) : (l ++ s)[i]?.any isspace = true := by
  rw [getElem?_append_left hi, getElem?_eq_getElem hi, any_some]
  exact h _ (getElem_mem hi)

theorem skipSpaces_zero (line : List UInt8) :
    skipSpaces (line ++ [0]) 0 = (line.takeWhile isspace).length := by
  rw [skipSpaces, drop_zero, takeWhile_append_zero, Nat.zero_add]

theorem cString_line {line : List UInt8} (h : 0 ∉ line) : cString (line ++ [0]) = line :=
  cString_append_zero h []

/-- For a line of spaces, what is before the buffer is read. -/
theorem line2argvIn_spaces {line : List UInt8} (h : ∀ c ∈ line, isspace c = true) (size : ℕ) :
    line2argvIn size (line ++ [0]) = none := by
  have htake : line.takeWhile isspace = line := takeWhile_eq_self_iff.mpr h
  have hend : (cString ((line ++ [0]).drop line.length)).length = 0 := by
    rw [drop_left]
    rfl
  have hlast : lastNonSpace (line ++ [0]) (0 + line.length) = none := by
    rw [lastNonSpace_add fun i _ hi => getElem?_any_space h (by omega) [0]]
    rfl
  rw [Nat.zero_add] at hlast
  rw [line2argvIn]
  split_ifs
  · rfl
  · simp only [skipSpaces_zero, htake, hend, Nat.add_zero, hlast, bind_none]

section Start

variable {line lead text trail : List UInt8} {size : ℕ}

/-- What the trimming makes of the line. -/
theorem line2argvIn_trimmed (ht : Trimmed line lead text trail) (h0 : 0 ∉ line)
    (hsize : size ≠ 0) :
    line2argvIn size (line ++ [0]) =
      (splitIn (size - 1) (line.length + 2)
        ⟨lead ++ (text ++ 0 :: (trail ++ [0]).tail), lead.length, lead.length, [lead.length],
          false⟩).bind fun s =>
        (store s.buf s.q 0).map fun buf => ⟨buf, s.p, s.q, s.argv, s.bQuote⟩ := by
  obtain ⟨t, c, htext, hc⟩ := ht.last
  have hbuf : line ++ [0] = (lead ++ t ++ [c]) ++ (trail ++ [0]) := by
    rw [ht.eq, htext]
    simp only [append_assoc]
  have hlen : lead.length + text.length = lead.length + t.length + 1 := by
    rw [htext, length_append, length_singleton, Nat.add_assoc]
  have hp : skipSpaces (line ++ [0]) 0 = lead.length := by
    rw [skipSpaces_zero, ht.lead_eq]
  have hend : (cString ((line ++ [0]).drop lead.length)).length = text.length + trail.length := by
    have hdrop : (line ++ [0]).drop lead.length = (text ++ trail) ++ [0] := by
      rw [ht.eq, append_assoc, drop_left]
    have hzero : 0 ∉ text ++ trail := fun h => h0 (ht.eq ▸ mem_append_right lead h)
    rw [hdrop, cString_line hzero, length_append]
  have hlast : lastNonSpace (line ++ [0]) (lead.length + (text.length + trail.length)) =
      some (lead.length + t.length) := by
    have hfront : (lead ++ t ++ [c]).length = lead.length + text.length := by
      simp only [length_append, length_singleton, hlen]
    have hspace : ∀ i, lead.length + text.length ≤ i →
        i < lead.length + text.length + trail.length →
        (line ++ [0])[i]?.any isspace = true := by
      intro i hi hlt
      rw [hbuf, getElem?_append_right (by omega)]
      exact getElem?_any_space ht.trail_space (by omega) [0]
    rw [← Nat.add_assoc, lastNonSpace_add hspace, hlen, lastNonSpace, if_neg]
    rw [hbuf, getElem?_append_left (by simp), getElem?_append_right (by simp)]
    simpa using hc
  have hstore : store (line ++ [0]) (lead.length + t.length + 1) 0 =
      some (lead ++ (text ++ 0 :: (trail ++ [0]).tail)) := by
    obtain ⟨x, l, hl⟩ : ∃ x l, trail ++ [0] = x :: l :=
      exists_cons_of_ne_nil (append_ne_nil_of_right_ne_nil trail (cons_ne_nil _ _))
    have hfront : (lead ++ t ++ [c]).length = lead.length + t.length + 1 := by
      simp only [length_append, length_singleton]
    have hlt : (lead ++ t ++ [c]).length < (lead ++ t ++ [c] ++ x :: l).length := by
      simp only [length_append, length_cons]
      omega
    rw [store, hbuf, hl, ← hfront, if_pos hlt, set_append_right _ _ le_rfl, Nat.sub_self,
      set_cons_zero, tail_cons, htext]
    simp only [append_assoc]
  have hfuel : (lead ++ (text ++ (0 : UInt8) :: (trail ++ [0]).tail)).length + 1 =
      line.length + 2 := by
    rw [ht.eq]
    simp only [length_append, length_cons, length_tail, length_nil]
    omega
  rw [line2argvIn, if_neg hsize]
  simp only [hp, hend, hlast, bind_some, hstore, hfuel]

theorem unreads_eq (ht : Trimmed line lead text trail) :
    unreads line = text :: unreadsFrom .plain text := by
  obtain ⟨c, t, htext, hc⟩ := ht.head
  rw [unreads, ht.trim_eq, htext, unreadsFrom_gap_eq hc]

/-- How the loop ends that begins with the line. -/
theorem ends_line (size : ℕ) (ht : Trimmed line lead text trail) (h0 : 0 ∉ line) :
    Ends (size - 1) lead (trail ++ [0]).tail (lead.length + text.length) (words line)
      (Dangling line) ((unreads line)[size - 2]?)
      (splitIn (size - 1) (line.length + 2)
        ⟨lead ++ (text ++ 0 :: (trail ++ [0]).tail), lead.length, lead.length, [lead.length],
          false⟩) := by
  obtain ⟨c, t, htext, hc⟩ := ht.head
  have hat : At lead [] [] [] text (trail ++ [0]).tail
      ⟨lead ++ (text ++ 0 :: (trail ++ [0]).tail), lead.length, lead.length, [lead.length],
        false⟩ := by
    refine ⟨?_, rfl, rfl, rfl⟩
    simp only [packed, flatMap_nil, append_nil]
  have hzero : 0 ∉ text := by
    rw [ht.eq, mem_append, mem_append] at h0
    exact fun h => h0 (.inr (.inl h))
  have hpost : (trail ++ [0]).tail = [] ∨ ∃ blanks : List UInt8,
      (∀ c ∈ blanks, isspace c = true) ∧ (trail ++ [0]).tail = blanks ++ [0] := by
    cases htrail : trail with
    | nil => exact .inl rfl
    | cons x blanks =>
      refine .inr ⟨blanks, fun c hc => ht.trail_space c ?_, rfl⟩
      rw [htrail]
      exact mem_cons_of_mem x hc
  have hlen := congrArg List.length ht.eq
  rw [length_append, length_append] at hlen
  have hends := @splitIn_ends (size - 1) (line.length + 2) _ _ _ _ _ _ _ .plain hat rfl hzero
    ht.final_ne_gap (Nat.zero_le _) (fun _ => rfl) hpost (by
      rw [length_tail, length_append, length_singleton]
      omega)
  have hwords : words line = wordsFrom .plain text := by
    rw [words, ht.trim_eq, htext, wordsFrom_plain_eq hc]
  have hdangling : Dangling line ↔ Mode.plain.final text = .escaped := by
    rw [Dangling, ht.trim_eq, htext]
    rfl
  rw [nil_append, prepend_nil (wordsFrom_ne_nil Mode.noConfusion _), ← hwords, ← unreads_eq ht,
    ← propext hdangling] at hends
  exact hends

end Start

/-! ## The arguments -/

section Arguments

variable {pre w junk rest post tail buf : List UInt8} {finished : List (List UInt8)} {s : Split}

/-- The arguments are the finished words and the last part of one. -/
theorem map_offsets (hzero : ∀ v ∈ finished, 0 ∉ v)
    (hbuf : buf = pre ++ (packed finished ++ w) ++ 0 :: tail) :
    (offsets pre.length (finished ++ [w])).map (fun i => cString (buf.drop i)) =
      finished ++ [cString w] := by
  induction finished generalizing pre with
  | nil =>
    rw [nil_append, offsets, offsets, map_cons, map_nil, hbuf, append_assoc,
      drop_left]
    exact congrArg (fun l => [l]) (cString_zero w tail)
  | cons v finished ih =>
    obtain ⟨hv, hfinished⟩ := forall_mem_cons.mp hzero
    have hpre : pre.length + v.length + 1 = (pre ++ (v ++ [0])).length := by
      simp only [length_append, length_singleton, Nat.add_assoc]
    have hbuf' : buf = (pre ++ (v ++ [0])) ++ (packed finished ++ w) ++ 0 :: tail := by
      rw [hbuf, packed, flatMap_cons]
      simp only [packed, append_assoc]
    have hdrop : buf.drop pre.length = v ++ 0 :: (packed finished ++ w ++ 0 :: tail) := by
      rw [hbuf']
      simp only [append_assoc, drop_left, cons_append, nil_append]
    rw [cons_append, offsets, map_cons, hdrop, cString_append_zero hv, hpre,
      ih hfinished hbuf', cons_append]

theorem le_of_mem_offsets {base i : ℕ} (hi : i ∈ offsets base (finished ++ [w])) :
    i ≤ base + (packed finished).length := by
  induction finished generalizing base with
  | nil => exact (mem_singleton.mp hi).le
  | cons v finished ih =>
    rw [packed, flatMap_cons, length_append, length_append, length_singleton]
    rcases mem_cons.mp hi with rfl | hi
    · exact Nat.le_add_right _ _
    · have hle := ih hi
      rw [packed] at hle
      omega

/-- An argument ends at the place where it is written, or before. -/
theorem add_length_cString_le {i q : ℕ} (hq : buf[q]? = some 0) (hi : i ≤ q) :
    0 ∈ buf.drop i ∧ i + (cString (buf.drop i)).length ≤ q := by
  have hget : (buf.drop i)[q - i]? = some 0 := by
    rw [getElem?_drop, Nat.add_sub_cancel' hi, hq]
  have hle := length_takeWhile_le (f := (· != 0)) hget rfl
  rw [cString]
  exact ⟨mem_of_getElem? hget, by omega⟩

/-- The buffer with the null character at the place where it is written. -/
theorem At.store_zero (h : At pre finished w junk rest post s) :
    ∃ tail, Fifo.store s.buf s.q 0 = some (pre ++ (packed finished ++ w) ++ 0 :: tail) := by
  obtain ⟨x, l, hl⟩ : ∃ x l, junk ++ (rest ++ 0 :: post) = x :: l :=
    exists_cons_of_ne_nil (append_ne_nil_of_right_ne_nil junk
      (append_ne_nil_of_right_ne_nil rest (cons_ne_nil _ _)))
  have hbuf : s.buf = (pre ++ (packed finished ++ w)) ++ x :: l := by
    rw [h.buf, ← hl]
    simp only [append_assoc]
  have hq : s.q = (pre ++ (packed finished ++ w)).length := by
    rw [h.q]
    exact length_append.symm
  refine ⟨l, ?_⟩
  rw [Fifo.store, hbuf, hq, if_pos (by simp only [length_append, length_cons]; omega),
    set_append_right _ _ le_rfl, Nat.sub_self, set_cons_zero]

/-- What the arguments are, and where. -/
theorem At.arguments_eq (h : At pre finished w junk rest post s) (hzero : ∀ v ∈ finished, 0 ∉ v) :
    ∃ buf, Fifo.store s.buf s.q 0 = some buf ∧
      (Split.mk buf s.p s.q s.argv s.bQuote).arguments = finished ++ [cString w] ∧
      ∀ i ∈ s.argv, 0 ∈ buf.drop i ∧ i + (cString (buf.drop i)).length ≤ s.q := by
  obtain ⟨tail, hstore⟩ := h.store_zero
  have hget : (pre ++ (packed finished ++ w) ++ 0 :: tail)[s.q]? = some 0 := by
    rw [h.q, ← length_append, getElem?_append_right le_rfl, Nat.sub_self]
    rfl
  refine ⟨_, hstore, ?_, fun i hi => ?_⟩
  · rw [Split.arguments, h.argv]
    exact map_offsets hzero rfl
  · refine add_length_cString_le hget ?_
    rw [h.argv] at hi
    have hle := le_of_mem_offsets hi
    rw [h.q, length_append]
    omega

end Arguments

/-! ## When the line is split into its words -/

section Main

variable {line lead text trail : List UInt8} {size : ℕ}

theorem zero_notMem_words (h0 : 0 ∉ line) : ∀ w ∈ words line, 0 ∉ w :=
  zero_notMem_wordsFrom fun h => h0 ((dropWhile_sublist isspace).subset
    ((List.rdropWhile_prefix isspace _).subset h))

/-- The first place of an unread part. -/
theorem unread_eq (ht : Trimmed line lead text trail) (s : Split) :
    s.unread line = [] ↔ lead.length + text.length ≤ s.p := by
  rw [Split.unread, ht.lead_eq, ht.trim_eq, drop_eq_nil_iff, length_append]

/-- All words are found. -/
theorem splitsWords_of_lt (ht : Trimmed line lead text trail) (h0 : 0 ∉ line)
    (hsize : (words line).length + 1 < size)
    (hdangling : Dangling line → trail ≠ []) :
    ∃ s, line2argvIn size (line ++ [0]) = some s ∧ SplitsWords size line s := by
  have hpost : Dangling line → (trail ++ [0]).tail ≠ [] := by
    intro h
    obtain ⟨x, l, hl⟩ := exists_cons_of_ne_nil (hdangling h)
    rw [hl]
    exact append_ne_nil_of_right_ne_nil l (cons_ne_nil _ _)
  obtain ⟨s, finished, w, v, junk, post, hs, hat, hall, hlast, hstop⟩ :=
    (ends_line size ht h0).2.1 (by omega) hpost
  have hzero : ∀ u ∈ finished ++ [v], 0 ∉ u := fun u hu => zero_notMem_words h0 u (hall ▸ hu)
  obtain ⟨buf, hstore, harguments, hbounds⟩ :=
    hat.arguments_eq fun u hu => hzero u (mem_append_left [v] hu)
  have hv : cString v = v := by
    have hv0 := cString_line (hzero v (mem_append_right finished mem_cons_self))
    rwa [cString_zero] at hv0
  rw [hlast, hv, hall] at harguments
  have hargc : s.argv.length = (words line).length := by
    rw [hat.length_argv, ← hall, length_append, length_singleton]
  refine ⟨⟨buf, s.p, s.q, s.argv, s.bQuote⟩, ?_, ?_⟩
  · rw [line2argvIn_trimmed ht h0 (by omega), hs, bind_some, hstore, map_some]
  · refine ⟨?_, ?_, fun _ => harguments, fun i hi => (hbounds i hi).1, .inl ?_⟩
    · exact hargc.trans_le (by omega)
    · exact ⟨[], by rw [append_nil, harguments]⟩
    · exact (unread_eq ht _).mpr hstop

/-- The vector is full before the last word. -/
theorem splitsWords_iff_of_le (ht : Trimmed line lead text trail) (h0 : 0 ∉ line)
    (hsize : size ≠ 0) (hle : size ≤ (words line).length + 1) :
    (∃ s, line2argvIn size (line ++ [0]) = some s ∧ SplitsWords size line s) ↔
      (words line)[size - 2]? = some [] ∧ ∃ unread, (unreads line)[size - 2]? = some unread ∧
        (packed ((words line).take (size - 2))).length + unread.length < (trim line).length := by
  obtain ⟨s, finished, junk, unread, hs, hat, hlen, hfinished, hunread, hstop⟩ :=
    (ends_line size ht h0).2.2 (by omega)
  have htake : finished = (words line).take (size - 2) := by
    have heq := prefix_iff_eq_take.mp hfinished
    rwa [hlen, Nat.sub_sub] at heq
  have hzero : ∀ u ∈ finished, 0 ∉ u := fun u hu => zero_notMem_words h0 u (hfinished.subset hu)
  obtain ⟨buf, hstore, harguments, hbounds⟩ := hat.arguments_eq hzero
  have hrun : line2argvIn size (line ++ [0]) = some ⟨buf, s.p, s.q, s.argv, s.bQuote⟩ := by
    rw [line2argvIn_trimmed ht h0 hsize, hs, bind_some, hstore, map_some]
  have hq : s.q = lead.length + (packed finished).length := by
    rw [hat.q, append_nil]
  have hp := hat.p
  have hnil : cString [] = [] := rfl
  rw [hnil] at harguments
  constructor
  · rintro ⟨s', hs', hright⟩
    cases hrun.symm.trans hs'
    refine ⟨?_, unread, hunread, ?_⟩
    · obtain ⟨more, hmore⟩ := harguments ▸ hright.isPrefix
      have hindex : size - 2 - finished.length = 0 := by omega
      rw [← hmore, append_assoc, getElem?_append_right (by omega), hindex]
      rfl
    · have hmem : s.q ∈ s.argv := by
        rw [hat.argv, offsets_concat, hq]
        exact mem_append_right _ mem_cons_self
      have hlt : s.q < s.p := by
        rcases hright.apart with hnone | hapart
        · have hle := (unread_eq ht _).mp hnone
          have hne := ne_nil_of_mem_unreadsFrom (mem_of_getElem? hunread)
          have hpos := length_pos_iff.mpr hne
          simp only at hle
          omega
        · exact lt_of_le_of_lt (Nat.le_add_right _ _) (hapart _ hmem)
      rw [← htake, ht.trim_eq]
      omega
  · rintro ⟨hempty, unread', hunread', hlt⟩
    cases hunread.symm.trans hunread'
    have hprefix : finished ++ [[]] <+: words line := by
      have htake' : (words line).take (size - 2 + 1) = finished ++ [[]] := by
        rw [take_add_one, hempty, ← htake]
        rfl
      exact htake' ▸ take_prefix _ _
    have hlt' : size - 2 < (words line).length := (List.getElem?_eq_some_iff.mp hempty).1
    have hargc := hat.length_argv
    refine ⟨_, hrun, ?_, ?_, ?_, fun i hi => (hbounds i hi).1, .inr fun i hi => ?_⟩
    · simp only
      omega
    · rw [harguments]
      exact hprefix
    · intro hfew
      rw [harguments]
      refine hprefix.eq_of_length ?_
      rw [length_append, length_singleton]
      omega
    · have hle := (hbounds i hi).2
      rw [← htake, ht.trim_eq] at hlt
      simp only
      omega

theorem getLast?_any_space (ht : Trimmed line lead text trail) :
    line.getLast?.any isspace = true ↔ trail ≠ [] := by
  constructor
  · rintro h rfl
    obtain ⟨t, c, htext, hc⟩ := ht.last
    rw [ht.eq, htext, append_nil, ← append_assoc, getLast?_concat, any_some,
      hc] at h
    cases h
  · intro hne
    have hlast : line.getLast? = some (trail.getLast hne) := by
      rw [ht.eq, ← append_assoc, getLast?_append_of_ne_nil _ hne,
        getLast?_eq_some_getLast hne]
    rw [hlast, any_some]
    exact ht.trail_space _ (getLast_mem hne)

/-- **A line is split into its words**, without memory outside of it being used, just when it is
splittable. -/
theorem splits_words_iff (size : ℕ) (line : List UInt8) (h0 : 0 ∉ line) :
    (∃ s, line2argvIn size (line ++ [0]) = some s ∧ SplitsWords size line s) ↔
      Splittable size line := by
  by_cases hblank : trim line = []
  · refine iff_of_false ?_ fun h => h.1 (words_eq_nil_iff.mpr hblank)
    rintro ⟨s, hs, -⟩
    rw [line2argvIn_spaces (trim_eq_nil_iff.mp hblank)] at hs
    cases hs
  obtain ⟨lead, text, trail, ht⟩ := exists_trimmed hblank
  have hne : words line ≠ [] := fun h => hblank (words_eq_nil_iff.mp h)
  rw [Splittable, and_iff_right hne, getLast?_any_space ht]
  rcases Nat.eq_zero_or_pos size with rfl | hpos
  · have hnone : line2argvIn 0 (line ++ [0]) = none := if_pos rfl
    refine iff_of_false ?_ ?_
    · rintro ⟨s, hs, -⟩
      rw [hnone] at hs
      cases hs
    · rintro (⟨hlt, -⟩ | ⟨-, unread, hunread, hlt⟩)
      · exact absurd hlt (Nat.not_lt_zero _)
      · rw [unreads_eq ht, List.getElem?_cons_zero] at hunread
        cases hunread
        rw [ht.trim_eq] at hlt
        omega
  rcases Nat.lt_or_ge ((words line).length + 1) size with hlt | hge
  · have hout : (words line)[size - 2]? = none := List.getElem?_eq_none (by omega)
    constructor
    · rintro ⟨s, hs, hright⟩
      refine .inl ⟨hlt, fun hdangling => ?_⟩
      rintro rfl
      have hnone := (ends_line size ht h0).1 (by omega) hdangling rfl
      rw [line2argvIn_trimmed ht h0 hpos.ne', hnone] at hs
      cases hs
    · rintro (⟨-, hdangling⟩ | ⟨hempty, -⟩)
      · exact splitsWords_of_lt ht h0 hlt hdangling
      · rw [hout] at hempty
        cases hempty
  · rw [splitsWords_iff_of_le ht h0 hpos.ne' hge]
    exact (or_iff_right fun h => absurd h.1 (by omega)).symm

/-- A line of one letter. -/
theorem splits_words_letter : (0 ∉ [(97 : UInt8)]) ∧
    ∃ s, line2argvIn maxArgv ([97] ++ [0]) = some s ∧ SplitsWords maxArgv [97] s := by
  have h0 : 0 ∉ [(97 : UInt8)] := by decide
  exact ⟨h0, (splits_words_iff maxArgv [97] h0).mpr ⟨by decide, .inl ⟨by decide, by decide⟩⟩⟩

/-- The empty line. -/
theorem not_splits_words : ¬ ∀ (size : ℕ) (line : List UInt8), 0 ∉ line →
    ∃ s, line2argvIn size (line ++ [0]) = some s ∧ SplitsWords size line s := by
  intro h
  obtain ⟨s, hs, -⟩ := h maxArgv [] List.not_mem_nil
  have hnone := @line2argvIn_spaces [] (nofun) maxArgv
  rw [hnone] at hs
  cases hs

end Main

end Licq.Fifo
