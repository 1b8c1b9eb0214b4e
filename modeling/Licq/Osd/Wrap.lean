import Mathlib.Data.List.Basic
import Mathlib.Data.List.TakeWhile
import Mathlib.Tactic.Tauto

/-!
# Osd/Wrap — how a message is wrapped on the screen

`my_xosd_display` takes one word after the other from a message and puts it on the line, with a blank
behind it, or on the next line where it does not fit.  The lines begin with the name of the user or as
many blanks.

The words and line ends of a message are its `tokens`, and `Place.puts` says on which line, and how
far on it, some of them end.  The message is shown as it should be (`Wraps`) exactly when no word as
long as the room of a line is come to while another line is left (`wraps_iff`): such a word makes a
line too long by its blank, and a longer one loses a character as well.
-/

namespace Licq.Osd

open List Option

/-! ## Words -/

/-- `(unsigned char)c > ' '` -/
def printable (c : UInt8) : Bool := c > 32

def newline : UInt8 := 10

/-- `getWord`: the word at a position and the position behind it; a blank stands for a line end. -/
def getWord (message : List UInt8) (pos maxlen : ℕ) : List UInt8 × ℕ :=
  let word := (message.drop pos).takeWhile printable
  let pos := pos + word.length
  let (word, pos) :=
    if word = [] ∧ message[pos]? = some newline then ([32], pos + 1)
    else if message[pos]?.isSome ∧ message[pos]? ≠ some newline then (word, pos + 1)
    else (word, pos)
  if word.length > maxlen then (word.take maxlen, pos - (word.length - maxlen)) else (word, pos)

/-! ## The display -/

/-- `Lines`, `Linelen`, `Timeout` and `DelayPerCharacter`. -/
structure Settings where
  lines : ℕ
  linelen : ℕ
  timeout : ℕ
  delayPerCharacter : ℕ

/-- The output lines, the line that is written and the position in the message. -/
structure Display where
  text : List (List UInt8)
  line : ℕ
  pos : ℕ

/-- One round of the loop; nothing where it would access a line that there is not. -/
def Display.round (s : Settings) (maxlen : ℕ) (message : List UInt8) (d : Display) :
    Option Display :=
  let (word, pos) := getWord message d.pos maxlen
  if word = [32] then some { d with line := d.line + 1, pos }
  else
    d.text[d.line]?.bind fun l =>
      if l.length + word.length < s.linelen then
        some { d with text := d.text.set d.line (l ++ word ++ [32]), pos }
      -- line too short: start new line
      else if d.line + 1 < s.lines then
        d.text[d.line + 1]?.map fun l =>
          { text := d.text.set (d.line + 1) (l ++ word ++ [32]), line := d.line + 1, pos }
      else some { d with line := d.line + 1, pos }

def Display.loop (s : Settings) (maxlen : ℕ) (message : List UInt8) : ℕ → Display → Option Display
  | 0, _ => none
  | fuel + 1, d =>
    if d.line < s.lines ∧ d.pos < message.length then
      (d.round s maxlen message).bind (Display.loop s maxlen message fuel)
    else some d

/-- The first line begins with the name of the user, and the others are indented. -/
def Display.start (s : Settings) (username : List UInt8) : Display where
  text := (username ++ [58, 32]) :: List.replicate (s.lines - 1) (List.replicate (username.length + 2) 32)
  line := 0
  pos := 0

/-- What is shown, and for how long. -/
structure Shown where
  display : Display
  timeout : ℕ

def Shown.of (s : Settings) (display : Display) : Shown :=
  ⟨display, s.timeout + s.delayPerCharacter * display.text.foldl (fun n l => n + l.length) 0 / 1000⟩

def autoresponse : List UInt8 := [97, 117, 116, 111, 114, 101, 115, 112, 111, 110, 115, 101]

/-- `my_xosd_display` without `NEWXOSD`: `some none` where it returns without showing anything.
`ready` says that there is a display, the old message has timed out and the colour could be set. -/
def my_xosd_display (s : Settings) (ready : Bool) (fuel : ℕ) (username message : List UInt8) :
    Option (Option Shown) :=
  if s.lines = 0 ∨ s.lines > 50 ∨ s.linelen = 0 ∨ s.linelen > 500 ∨
      s.linelen ≤ username.length + 2 ∨ ready = false then some none
  else if username ≠ [] ∧ username ≠ autoresponse then
    ((Display.start s username).loop s (s.linelen - username.length - 2) message fuel).map fun d =>
      some (Shown.of s d)
  else some (some (Shown.of s ⟨message :: List.replicate (s.lines - 1) [], 0, 0⟩))

/-! ## Tokens -/

/-- The words and line ends (`none`) of a message, behind the characters of a word that has begun. -/
def tokensFrom : List UInt8 → List UInt8 → List (Option (List UInt8))
  | [], [] => []
  | word, [] => [some word]
  | word, c :: s =>
    if printable c then tokensFrom (word ++ [c]) s
    else if c = newline then (if word = [] then [] else [some word]) ++ none :: tokensFrom [] s
    else some word :: tokensFrom [] s

def tokens (message : List UInt8) : List (Option (List UInt8)) := tokensFrom [] message

/-- Where the words end so far: the line, and the number of its characters. -/
structure Place where
  line : ℕ
  column : ℕ

/-- A word is put on the line with a blank behind it, or where the line is too short on the next. -/
def Place.put (indent linelen : ℕ) (p : Place) : Option (List UInt8) → Place
  | none => ⟨p.line + 1, indent⟩
  | some word =>
    if p.column + word.length < linelen then ⟨p.line, p.column + word.length + 1⟩
    else ⟨p.line + 1, indent + word.length + 1⟩

def Place.puts (indent linelen : ℕ) (p : Place) (ts : List (Option (List UInt8))) : Place :=
  ts.foldl (Place.put indent linelen) p

/-- The characters that are words on the lines. -/
def shown (indent : ℕ) (text : List (List UInt8)) : List UInt8 :=
  (text.flatMap (List.drop indent)).filter printable

/-- **What the claim is**: the loop ends without an access outside of the lines, no line is too long,
and the words on the lines are the first of the message, and all of them where lines are left. -/
def Wraps (s : Settings) (username message : List UInt8) : Prop :=
  ∀ fuel > message.length, ∃ out, my_xosd_display s true fuel username message = some (some out) ∧
    out.display.text.length = s.lines ∧
    (∀ l ∈ out.display.text, l.length ≤ s.linelen) ∧
    shown (username.length + 2) out.display.text <+: message.filter printable ∧
    (out.display.line < s.lines →
      shown (username.length + 2) out.display.text = message.filter printable)

/-- No word as long as the room of a line is come to while another line is left. -/
def Short (s : Settings) (username message : List UInt8) : Prop :=
  ∀ before word after, tokens message = before ++ some word :: after →
    s.linelen ≤ username.length + 2 + word.length →
    s.lines ≤ ((⟨0, username.length + 2⟩ : Place).puts (username.length + 2) s.linelen before).line + 1

/-! ## The tokens of a message -/

theorem tokensFrom_append {w : List UInt8} (hw : ∀ c ∈ w, printable c = true)
    (word rest : List UInt8) : tokensFrom word (w ++ rest) = tokensFrom (word ++ w) rest := by
  induction w generalizing word with
  | nil => rw [nil_append, append_nil]
  | cons c w ih =>
    rw [cons_append, tokensFrom, if_pos (hw c mem_cons_self),
      ih (fun d hd => hw d (mem_cons_of_mem c hd)), append_assoc, singleton_append]

/-- What a word takes of a message. -/
inductive Read (maxlen : ℕ) (message : List UInt8) (pos : ℕ) : Prop
  | newline (rest : List UInt8) (pos' : ℕ) (htokens : tokens (message.drop pos) = none :: tokens rest)
    (hget : getWord message pos maxlen = ([32], pos')) (hrest : message.drop pos' = rest)
    (hpos : pos < pos')
    (hprint : (message.drop pos).filter printable = rest.filter printable)
  | word (w rest : List UInt8) (pos' : ℕ) (hw : ∀ c ∈ w, printable c = true)
    (htokens : tokens (message.drop pos) = some w :: tokens rest)
    (hget : w.length ≤ maxlen → getWord message pos maxlen = (w, pos') ∧ message.drop pos' = rest ∧
      pos < pos')
    (hlong : maxlen < w.length → (getWord message pos maxlen).1 = w.take maxlen)
    (hprint : (message.drop pos).filter printable = w ++ rest.filter printable)

theorem tokens_word {w : List UInt8} (hw : ∀ c ∈ w, printable c = true) (rest : List UInt8) :
    tokens (w ++ rest) = tokensFrom w rest := by
  rw [tokens, tokensFrom_append hw, nil_append]

theorem filter_word {w : List UInt8} (hw : ∀ c ∈ w, printable c = true) : w.filter printable = w :=
  filter_eq_self.mpr hw

/-- **One word**: a line end, or the characters up to the next blank; the character behind it is
taken too unless it is a line end. -/
theorem read_message {maxlen pos : ℕ} {message : List UInt8} (hmax : 0 < maxlen)
    (hpos : pos < message.length) : Read maxlen message pos := by
  obtain ⟨w, r, hsplit, hw, hr, htake⟩ : ∃ w r, message.drop pos = w ++ r ∧
      (∀ c ∈ w, printable c = true) ∧ (∀ c, r.head? = some c → printable c = false) ∧
      (message.drop pos).takeWhile printable = w := by
    refine ⟨_, _, takeWhile_append_dropWhile.symm, fun c hc => mem_takeWhile_imp hc,
      fun c hc => ?_, rfl⟩
    have hdrop := head?_dropWhile_not printable (message.drop pos)
    rw [hc] at hdrop
    simpa using hdrop
  have hdrop : message.drop (pos + w.length) = r := by
    rw [← drop_drop, hsplit, drop_left]
  have hnext : message[pos + w.length]? = r.head? := by
    rw [← hdrop, head?_drop]
  have hprint : (message.drop pos).filter printable = w ++ r.filter printable := by
    rw [hsplit, filter_append, filter_word hw]
  have htokens : tokens (message.drop pos) = tokensFrom w r := by rw [hsplit, tokens_word hw]
  cases r with
  | nil =>
    have hne : w ≠ [] := by
      rintro rfl
      have hlen := congrArg List.length hsplit
      simp only [length_drop, append_nil, length_nil] at hlen
      omega
    refine .word w [] (pos + w.length) hw ?_ (fun hle => ⟨?_, hdrop, ?_⟩) (fun hlt => ?_) hprint
    · rw [htokens]
      cases w with
      | nil => exact absurd rfl hne
      | cons c w => rfl
    · simp [getWord, htake, hnext, hne, hle.not_gt]
    · have := length_pos_iff.mpr hne
      omega
    · simp [getWord, htake, hnext, hne, hlt]
  | cons c r =>
    have hc := hr c rfl
    have hdrop' : message.drop (pos + w.length + 1) = r := by
      rw [← drop_drop, hdrop]
      rfl
    rw [filter_cons_of_neg (by simp [hc])] at hprint
    by_cases hline : c = newline
    · subst hline
      by_cases hne : w = []
      · subst hne
        refine .newline r (pos + 1) ?_ ?_ hdrop' (by omega) hprint
        · rw [htokens, tokensFrom, if_neg (by simp [hc]), if_pos rfl, if_pos rfl]
          rfl
        · have hlt : ¬maxlen < 1 := by omega
          simp only [length_nil, Nat.add_zero] at hnext
          simp [getWord, htake, hnext, hlt]
      · refine .word w (newline :: r) (pos + w.length) hw ?_ (fun hle => ⟨?_, hdrop, ?_⟩)
          (fun hlt => ?_) ?_
        · rw [htokens, tokensFrom, if_neg (by simp [hc]), if_pos rfl, if_neg hne, tokens, tokensFrom,
            if_neg (by simp [hc]), if_pos rfl, if_pos rfl]
          rfl
        · simp [getWord, htake, hnext, hne, hle.not_gt]
        · have := length_pos_iff.mpr hne
          omega
        · simp [getWord, htake, hnext, hne, hlt]
        · rw [hprint, filter_cons_of_neg (by simp [hc])]
    · refine .word w r (pos + w.length + 1) hw ?_ (fun hle => ⟨?_, hdrop', by omega⟩) (fun hlt => ?_)
        hprint
      · rw [htokens, tokensFrom, if_neg (by simp [hc]), if_neg hline]
        rfl
      · simp [getWord, htake, hnext, hline, hle.not_gt]
      · simp [getWord, htake, hnext, hline, hlt]

/-! ## The lines -/

section Lines

variable {s : Settings} {indent : ℕ} {message w : List UInt8} {d d' : Display} {p : Place}
  {done : List UInt8} {pos : ℕ}

/-- The display has got to a place, and shows some characters. -/
structure At (s : Settings) (indent : ℕ) (d : Display) (p : Place) (done : List UInt8) : Prop where
  size : d.text.length = s.lines
  line : d.line = p.line
  column : ∀ l, d.text[d.line]? = some l → l.length = p.column
  wide : indent ≤ p.column
  fresh : ∀ j l, d.line < j → d.text[j]? = some l → l.length = indent
  narrow : ∀ l ∈ d.text, l.length ≤ s.linelen
  shown : shown indent d.text = done

/-- What is added to the last line that is not fresh is shown behind everything else. -/
theorem shown_set {text : List (List UInt8)} {k : ℕ} {l : List UInt8} (hl : text[k]? = some l)
    (hwide : indent ≤ l.length) (hfresh : ∀ j l, k < j → text[j]? = some l → l.length = indent) :
    shown indent (text.set k (l ++ w ++ [32])) = shown indent text ++ w.filter printable := by
  obtain ⟨hk, hget⟩ := List.getElem?_eq_some_iff.mp hl
  have hlater : (text.drop (k + 1)).flatMap (List.drop indent) = [] := by
    rw [flatMap_eq_nil_iff]
    intro l' hl'
    obtain ⟨j, hj⟩ := mem_iff_getElem?.mp hl'
    rw [getElem?_drop] at hj
    exact drop_eq_nil_of_le (hfresh _ _ (by omega) hj).le
  have hsplit : text = text.take k ++ l :: text.drop (k + 1) := by
    rw [← hget, ← drop_eq_getElem_cons hk, take_append_drop]
  have hblank : [(32 : UInt8)].filter printable = [] := by decide
  rw [set_eq_take_append_cons_drop, if_pos hk, shown, flatMap_append, flatMap_cons,
    hlater, append_nil, append_assoc, drop_append_of_le_length hwide, filter_append,
    filter_append, filter_append, hblank, append_nil]
  conv_rhs => rw [hsplit, shown, flatMap_append, flatMap_cons, hlater, append_nil,
    filter_append]
  rw [append_assoc]

/-- A word that fits is put on a line with nothing behind it. -/
theorem At.put (h : At s indent d p done) (hw : ∀ c ∈ w, printable c = true) {k column : ℕ}
    {l : List UInt8} (hl : d.text[k]? = some l) (hcolumn : l.length = column)
    (hwide : indent ≤ column) (hfit : column + w.length < s.linelen)
    (hfresh : ∀ j l, k < j → d.text[j]? = some l → l.length = indent) :
    At s indent ⟨d.text.set k (l ++ w ++ [32]), k, pos⟩ ⟨k, column + w.length + 1⟩ (done ++ w) := by
  have hlen : (l ++ w ++ [32]).length = column + w.length + 1 := by
    simp only [length_append, length_cons, length_nil, hcolumn]
  have hlt : k < d.text.length := (List.getElem?_eq_some_iff.mp hl).1
  refine ⟨?_, rfl, ?_, ?_, ?_, ?_, ?_⟩
  · rw [length_set, h.size]
  · intro l' hl'
    rw [getElem?_set_self hlt] at hl'
    rw [← some.inj hl', hlen]
  · exact hwide.trans (by rw [Nat.add_assoc]; exact Nat.le_add_right _ _)
  · intro j l' hj hl'
    rw [getElem?_set_ne hj.ne] at hl'
    exact hfresh j l' hj hl'
  · intro l' hl'
    obtain hl' | rfl := mem_or_eq_of_mem_set hl'
    · exact h.narrow l' hl'
    · rw [hlen]
      exact hfit
  · rw [shown_set hl (by omega) hfresh, h.shown, filter_word hw]

/-- A line end. -/
theorem At.newline (h : At s indent d p done) :
    At s indent { d with line := d.line + 1, pos } (p.put indent s.linelen none) done := by
  refine ⟨h.size, ?_, fun l hl => h.fresh _ l (Nat.lt_succ_self _) hl, le_rfl, fun j l hj hl =>
    h.fresh j l (Nat.lt_of_succ_lt hj) hl, h.narrow, h.shown⟩
  rw [Place.put, h.line]

variable {maxlen : ℕ}

/-- A word that fits on the line. -/
theorem At.round_here (h : At s indent d p done) (hline : d.line < s.lines)
    (hget : getWord message d.pos maxlen = (w, pos)) (hw : ∀ c ∈ w, printable c = true)
    (hfit : p.column + w.length < s.linelen) :
    ∃ d', d.round s maxlen message = some d' ∧ d'.pos = pos ∧
      At s indent d' (p.put indent s.linelen (some w)) (done ++ w) := by
  have hblank : w ≠ [32] := by
    rintro rfl
    exact absurd (hw 32 mem_cons_self) (by decide)
  obtain ⟨l, hl⟩ : ∃ l, d.text[d.line]? = some l :=
    ⟨_, getElem?_eq_getElem (by rw [h.size]; exact hline)⟩
  have hcolumn := h.column l hl
  refine ⟨⟨d.text.set d.line (l ++ w ++ [32]), d.line, pos⟩, ?_, rfl, ?_⟩
  · simp only [Display.round, hget, hblank, if_false, hl, bind_some, hcolumn, hfit, if_true]
  · rw [Place.put, if_pos hfit, ← h.line]
    exact h.put hw hl hcolumn h.wide hfit h.fresh

/-- A word that does not fit, and another line. -/
theorem At.round_next (h : At s indent d p done) (hline : d.line + 1 < s.lines)
    (hget : getWord message d.pos maxlen = (w, pos)) (hw : ∀ c ∈ w, printable c = true)
    (hfit : ¬p.column + w.length < s.linelen) :
    ∃ d', d.round s maxlen message = some d' ∧ d'.pos = pos ∧
      (∃ l ∈ d'.text, l.length = indent + w.length + 1) ∧
      (indent + w.length < s.linelen → At s indent d' (p.put indent s.linelen (some w)) (done ++ w)) := by
  have hblank : w ≠ [32] := by
    rintro rfl
    exact absurd (hw 32 mem_cons_self) (by decide)
  have hlt : d.line + 1 < d.text.length := by rw [h.size]; exact hline
  obtain ⟨l, hl⟩ : ∃ l, d.text[d.line]? = some l := ⟨_, getElem?_eq_getElem (by omega)⟩
  obtain ⟨l', hl'⟩ : ∃ l', d.text[d.line + 1]? = some l' := ⟨_, getElem?_eq_getElem hlt⟩
  have hcolumn := h.column l hl
  have hfresh := h.fresh _ l' (Nat.lt_succ_self _) hl'
  refine ⟨⟨d.text.set (d.line + 1) (l' ++ w ++ [32]), d.line + 1, pos⟩, ?_, rfl, ?_, fun hroom => ?_⟩
  · simp only [Display.round, hget, hblank, if_false, hl, bind_some, hcolumn, hfit, hline,
      if_true, hl', map_some]
  · refine ⟨l' ++ w ++ [32], mem_set hlt _, ?_⟩
    simp only [length_append, length_cons, length_nil, hfresh]
  · rw [Place.put, if_neg hfit, ← h.line]
    exact h.put hw hl' hfresh le_rfl hroom
      fun j l hj hl => h.fresh j l (Nat.lt_of_succ_lt hj) hl

/-- A word that does not fit on the last line. -/
theorem At.round_last (h : At s indent d p done) (hline : d.line < s.lines)
    (hlast : ¬d.line + 1 < s.lines) (hget : getWord message d.pos maxlen = (w, pos))
    (hw : ∀ c ∈ w, printable c = true) (hfit : ¬p.column + w.length < s.linelen) :
    d.round s maxlen message = some { d with line := d.line + 1, pos } := by
  have hblank : w ≠ [32] := by
    rintro rfl
    exact absurd (hw 32 mem_cons_self) (by decide)
  obtain ⟨l, hl⟩ : ∃ l, d.text[d.line]? = some l :=
    ⟨_, getElem?_eq_getElem (by rw [h.size]; exact hline)⟩
  simp only [Display.round, hget, hblank, if_false, hl, bind_some, h.column l hl, hfit, hlast]

theorem Place.line_le_puts (p : Place) (ts : List (Option (List UInt8))) :
    p.line ≤ (p.puts indent s.linelen ts).line := by
  induction ts generalizing p with
  | nil => exact le_rfl
  | cons t ts ih =>
    refine le_trans ?_ (ih (p.put indent s.linelen t))
    cases t with
    | none => exact Nat.le_succ _
    | some w =>
      rw [Place.put]
      split_ifs
      · exact le_rfl
      · exact Nat.le_succ _

/-- A word as long as the room of a line, or longer: as many characters as there is room for. -/
theorem getWord_long (hlen : maxlen ≤ w.length) (hw : ∀ c ∈ w, printable c = true)
    (hget : w.length ≤ maxlen → getWord message d.pos maxlen = (w, pos))
    (hlong : maxlen < w.length → (getWord message d.pos maxlen).1 = w.take maxlen) :
    ∃ w' pos', getWord message d.pos maxlen = (w', pos') ∧ (∀ c ∈ w', printable c = true) ∧
      w'.length = maxlen := by
  rcases Nat.lt_or_ge maxlen w.length with hlt | hle
  · refine ⟨(getWord message d.pos maxlen).1, (getWord message d.pos maxlen).2, rfl,
      fun c hc => ?_, ?_⟩
    · rw [hlong hlt] at hc
      exact hw c (mem_of_mem_take hc)
    · rw [hlong hlt, length_take_of_le hlen]
  · exact ⟨w, pos, hget hle, hw, le_antisymm hle hlen⟩

/-! ## Runs -/

/-- Behind the last line the loop ends. -/
theorem At.loop_last {fuel : ℕ} (h : At s indent d p done) (hlast : ¬d.line + 1 < s.lines)
    (hfuel : 0 < fuel) {rest : List UInt8} :
    ∃ d', Display.loop s maxlen message fuel { d with line := d.line + 1, pos } = some d' ∧
      d'.text.length = s.lines ∧ (∀ l ∈ d'.text, l.length ≤ s.linelen) ∧
      Osd.shown indent d'.text <+: done ++ rest ∧
      (d'.line < s.lines → Osd.shown indent d'.text = done ++ rest) := by
  obtain ⟨n, rfl⟩ := Nat.exists_eq_succ_of_ne_zero hfuel.ne'
  refine ⟨{ d with line := d.line + 1, pos }, ?_, h.size, h.narrow, ?_, fun hline => absurd hline hlast⟩
  · exact if_neg fun hgo => hlast hgo.1
  · exact h.shown ▸ prefix_append _ _

/-- **A message without long words** is wrapped as it should be, from any place on. -/
theorem At.loop_short (fuel : ℕ) (h : At s indent d p done) (hroom : indent < s.linelen)
    (hinside : d.line ≤ s.lines) (hfuel : message.length - d.pos < fuel)
    (hshort : ∀ before word after, tokens (message.drop d.pos) = before ++ some word :: after →
      s.linelen ≤ indent + word.length → s.lines ≤ (p.puts indent s.linelen before).line + 1) :
    ∃ d', d.loop s (s.linelen - indent) message fuel = some d' ∧ d'.text.length = s.lines ∧
      (∀ l ∈ d'.text, l.length ≤ s.linelen) ∧
      Osd.shown indent d'.text <+: done ++ (message.drop d.pos).filter printable ∧
      (d'.line < s.lines →
        Osd.shown indent d'.text = done ++ (message.drop d.pos).filter printable) := by
  induction fuel generalizing d p done with
  | zero => omega
  | succ fuel ih =>
    rw [Display.loop]
    by_cases hgo : d.line < s.lines ∧ d.pos < message.length
    · rw [if_pos hgo]
      obtain ⟨hline, hpos⟩ := hgo
      -- what is left of the tokens is short as well
      have hrest : ∀ {t rest}, tokens (message.drop d.pos) = t :: tokens rest →
          ∀ before word after, tokens rest = before ++ some word :: after →
            s.linelen ≤ indent + word.length →
            s.lines ≤ ((p.put indent s.linelen t).puts indent s.linelen before).line + 1 := by
        intro t rest htokens before word after hbefore hlong
        exact hshort (t :: before) word after (by rw [htokens, hbefore, cons_append]) hlong
      obtain ⟨rest, pos', htokens, hget, hdrop, hlt, hprint⟩ |
        ⟨w, rest, pos', hw, htokens, hget, hlong, hprint⟩ :=
        read_message (show 0 < s.linelen - indent by omega) hpos
      · have hround : d.round s (s.linelen - indent) message =
            some { d with line := d.line + 1, pos := pos' } := by
          simp only [Display.round, hget, if_true]
        rw [hround, bind_some, hprint, ← hdrop]
        rw [← hdrop] at htokens
        exact ih h.newline hline (by simp only; omega) (hrest htokens)
      · by_cases hroom' : indent + w.length < s.linelen
        · obtain ⟨hget, hdrop, hlt⟩ := hget (by omega)
          rw [← hdrop] at htokens
          by_cases hfit : p.column + w.length < s.linelen
          · obtain ⟨d', hround, hpos', hat⟩ := h.round_here hline hget hw hfit
            have hline' : d'.line ≤ s.lines := by
              rw [hat.line, Place.put, if_pos hfit, ← h.line]
              exact hline.le
            rw [hround, bind_some, hprint, ← hdrop, ← append_assoc, ← hpos']
            exact ih hat hline' (by omega) (by rw [hpos']; exact hrest htokens)
          · by_cases hnext : d.line + 1 < s.lines
            · obtain ⟨d', hround, hpos', -, hat⟩ := h.round_next hnext hget hw hfit
              have hat := hat hroom'
              have hline' : d'.line ≤ s.lines := by
                rw [hat.line, Place.put, if_neg hfit, ← h.line]
                exact hnext.le
              rw [hround, bind_some, hprint, ← hdrop, ← append_assoc, ← hpos']
              exact ih hat hline' (by omega) (by rw [hpos']; exact hrest htokens)
            · rw [h.round_last hline hnext hget hw hfit, bind_some]
              exact h.loop_last hnext (by omega)
        · obtain ⟨w', pos'', hget', hw', hlen⟩ := getWord_long (show s.linelen - indent ≤ w.length by omega)
            hw (fun hle => (hget hle).1) hlong
          have hlast := hshort [] w _ htokens (by omega)
          have hnext : ¬d.line + 1 < s.lines := by
            rw [Place.puts, foldl_nil, ← h.line] at hlast
            omega
          have hwide := h.wide
          rw [h.round_last hline hnext hget' hw' (by omega), bind_some]
          exact h.loop_last hnext (by omega)
    · rw [if_neg hgo]
      refine ⟨d, rfl, h.size, h.narrow, ?_, fun hline => ?_⟩
      · rw [h.shown]
        exact prefix_append _ _
      · have hend : message.length ≤ d.pos := by
          by_contra hlt
          exact hgo ⟨hline, Nat.lt_of_not_le hlt⟩
        rw [h.shown, drop_eq_nil_of_le hend, filter_nil, append_nil]

/-- A line that is too long stays too long. -/
theorem round_too_long (h : ∃ l ∈ d.text, s.linelen < l.length)
    (hround : d.round s maxlen message = some d') : ∃ l ∈ d'.text, s.linelen < l.length := by
  have hset : ∀ (k : ℕ) (l w : List UInt8), d.text[k]? = some l →
      ∃ l' ∈ d.text.set k (l ++ w), s.linelen < l'.length := by
    intro k l w hl
    obtain ⟨l', hl', hlong⟩ := h
    obtain ⟨j, hj⟩ := mem_iff_getElem?.mp hl'
    obtain ⟨hk, -⟩ := List.getElem?_eq_some_iff.mp hl
    rcases eq_or_ne k j with rfl | hne
    · cases hl.symm.trans hj
      exact ⟨l ++ w, mem_set hk _, hlong.trans_le (by simp)⟩
    · exact ⟨l', mem_of_getElem? ((getElem?_set_ne hne).trans hj), hlong⟩
  rw [Display.round] at hround
  generalize getWord message d.pos maxlen = g at hround
  obtain ⟨word, pos'⟩ := g
  simp only at hround
  split at hround
  · cases hround
    exact h
  · obtain ⟨l, hl, hround⟩ := bind_eq_some_iff.mp hround
    split_ifs at hround
    · cases hround
      rw [append_assoc]
      exact hset _ l _ hl
    · obtain ⟨l', hl', rfl⟩ := map_eq_some_iff.mp hround
      rw [append_assoc]
      exact hset _ l' _ hl'
    · cases hround
      exact h

theorem loop_too_long {fuel : ℕ} (h : ∃ l ∈ d.text, s.linelen < l.length)
    (hloop : d.loop s maxlen message fuel = some d') : ∃ l ∈ d'.text, s.linelen < l.length := by
  induction fuel generalizing d with
  | zero => cases hloop
  | succ fuel ih =>
    rw [Display.loop] at hloop
    split_ifs at hloop
    · obtain ⟨d₁, hround, hloop⟩ := bind_eq_some_iff.mp hloop
      exact ih (round_too_long h hround) hloop
    · cases hloop
      exact h

/-- **A long word** that is come to while another line is left makes that line too long. -/
theorem At.loop_long {fuel : ℕ} (h : At s indent d p done) (hroom : indent < s.linelen)
    {before after : List (Option (List UInt8))} {word : List UInt8}
    (htokens : tokens (message.drop d.pos) = before ++ some word :: after)
    (hlong : s.linelen ≤ indent + word.length)
    (hleft : (p.puts indent s.linelen before).line + 1 < s.lines)
    (hloop : d.loop s (s.linelen - indent) message fuel = some d') :
    ∃ l ∈ d'.text, s.linelen < l.length := by
  induction fuel generalizing d p done before with
  | zero => cases hloop
  | succ fuel ih =>
    have hline : d.line + 1 < s.lines := by
      have hle : p.line ≤ (p.puts indent s.linelen before).line := p.line_le_puts before
      rw [h.line]
      omega
    have hpos : d.pos < message.length := by
      by_contra hge
      rw [drop_eq_nil_of_le (Nat.not_lt.mp hge)] at htokens
      cases before <;> cases htokens
    rw [Display.loop, if_pos ⟨Nat.lt_of_succ_lt hline, hpos⟩] at hloop
    obtain ⟨d₁, hround, hloop⟩ := bind_eq_some_iff.mp hloop
    -- a long word goes to the next line and does not fit there
    have hput : ∀ {w' pos'}, getWord message d.pos (s.linelen - indent) = (w', pos') →
        (∀ c ∈ w', printable c = true) → w'.length = s.linelen - indent →
        ∃ l ∈ d'.text, s.linelen < l.length := by
      intro w' pos' hget hw hlen
      have hwide := h.wide
      obtain ⟨d₂, hround₂, -, ⟨l, hl, hlen'⟩, -⟩ := h.round_next hline hget hw (by omega)
      cases hround.symm.trans hround₂
      exact loop_too_long ⟨l, hl, by omega⟩ hloop
    obtain ⟨rest, pos', hhead, hget, hdrop, hlt, hprint⟩ |
      ⟨w, rest, pos', hw, hhead, hget, hlong', hprint⟩ :=
      read_message (show 0 < s.linelen - indent by omega) hpos
    · have hround' : d.round s (s.linelen - indent) message =
          some { d with line := d.line + 1, pos := pos' } := by
        simp only [Display.round, hget, if_true]
      cases hround.symm.trans hround'
      cases before with
      | nil => cases hhead.symm.trans htokens
      | cons t before =>
        obtain ⟨rfl, hrest⟩ := List.cons.inj (hhead.symm.trans htokens)
        exact ih h.newline (by rw [hdrop]; exact hrest) hleft hloop
    · by_cases hroom' : indent + w.length < s.linelen
      · obtain ⟨hget, hdrop, -⟩ := hget (by omega)
        cases before with
        | nil =>
          obtain ⟨heq, -⟩ := List.cons.inj (hhead.symm.trans htokens)
          cases heq
          omega
        | cons t before =>
          obtain ⟨rfl, hrest⟩ := List.cons.inj (hhead.symm.trans htokens)
          by_cases hfit : p.column + w.length < s.linelen
          · obtain ⟨d₂, hround₂, hpos', hat⟩ := h.round_here (Nat.lt_of_succ_lt hline) hget hw hfit
            cases hround.symm.trans hround₂
            exact ih hat (by rw [hpos', hdrop]; exact hrest) hleft hloop
          · obtain ⟨d₂, hround₂, hpos', -, hat⟩ := h.round_next hline hget hw hfit
            cases hround.symm.trans hround₂
            exact ih (hat hroom') (by rw [hpos', hdrop]; exact hrest) hleft hloop
      · obtain ⟨w', pos'', hget', hw', hlen⟩ :=
          getWord_long (show s.linelen - indent ≤ w.length by omega) hw (fun hle => (hget hle).1) hlong'
        exact hput hget' hw' hlen

end Lines

/-! ## When a message is wrapped as it should be -/

theorem at_start {s : Settings} {username : List UInt8} (hlines : 1 ≤ s.lines)
    (hlinelen : username.length + 2 < s.linelen) :
    At s (username.length + 2) (.start s username) ⟨0, username.length + 2⟩ [] := by
  have hname : (username ++ [58, 32]).length = username.length + 2 := by simp
  have hindent : ∀ (j : ℕ) (l : List UInt8), (Display.start s username).text[j]? = some l →
      l.length = username.length + 2 := by
    intro j l hl
    have hmem := mem_of_getElem? hl
    obtain rfl | hmem := mem_cons.mp hmem
    · exact hname
    · rw [eq_of_mem_replicate hmem, length_replicate]
  have hmem : ∀ l ∈ (Display.start s username).text, l.length = username.length + 2 := by
    intro l hl
    obtain ⟨j, hj⟩ := mem_iff_getElem?.mp hl
    exact hindent j l hj
  refine ⟨?_, rfl, fun l hl => hindent _ l hl, le_rfl, fun j l _ hl => hindent j l hl,
    fun l hl => by rw [hmem l hl]; exact hlinelen.le, ?_⟩
  · simp only [Display.start, length_cons, length_replicate]
    omega
  · rw [shown, filter_eq_nil_iff]
    intro c hc
    obtain ⟨l, hl, hcl⟩ := mem_flatMap.mp hc
    rw [drop_eq_nil_of_le (hmem l hl).le] at hcl
    exact absurd hcl not_mem_nil

/-- **The message is wrapped as it should be** exactly when no word as long as the room of a line is
come to while another line is left. -/
theorem wraps_iff (s : Settings) (username message : List UInt8) (hname : username ≠ [])
    (hauto : username ≠ autoresponse) (hlines : 1 ≤ s.lines ∧ s.lines ≤ 50)
    (hlinelen : s.linelen ≤ 500) (hroom : username.length + 2 < s.linelen) :
    Wraps s username message ↔ Short s username message := by
  have hdisplay : ∀ fuel, my_xosd_display s true fuel username message =
      ((Display.start s username).loop s (s.linelen - (username.length + 2)) message fuel).map
        fun d => some (Shown.of s d) := by
    intro fuel
    have hguard : ¬(s.lines = 0 ∨ s.lines > 50 ∨ s.linelen = 0 ∨ s.linelen > 500 ∨
        s.linelen ≤ username.length + 2 ∨ true = false) := by
      simp only [Bool.true_eq_false, or_false]
      omega
    rw [my_xosd_display, if_neg hguard, if_pos ⟨hname, hauto⟩, Nat.sub_sub]
  have hat := at_start hlines.1 hroom
  constructor
  · intro hwraps before word after htokens hlong
    by_contra hleft
    obtain ⟨out, hout, -, hnarrow, -, -⟩ := hwraps (message.length + 1) (Nat.lt_succ_self _)
    rw [hdisplay] at hout
    obtain ⟨d, hloop, hd⟩ := Option.map_eq_some_iff.mp hout
    cases hd
    obtain ⟨l, hl, htoo⟩ := hat.loop_long hroom htokens hlong (by omega) hloop
    have := hnarrow l hl
    omega
  · intro hshort fuel hfuel
    obtain ⟨d, hloop, hsize, hnarrow, hprefix, hall⟩ := hat.loop_short fuel hroom
      (Nat.zero_le _) (by simpa [Display.start] using hfuel) hshort
    refine ⟨Shown.of s d, ?_, hsize, hnarrow, hprefix, hall⟩
    rw [hdisplay, hloop, Option.map_some]

/-- Three lines of twenty characters for the words "hi you". -/
theorem wraps_hi : Wraps ⟨3, 20, 0, 0⟩ [97, 98] [104, 105, 32, 121, 111, 117] := by
  refine (wraps_iff ⟨3, 20, 0, 0⟩ [97, 98] [104, 105, 32, 121, 111, 117] (by decide) (by decide)
    (by decide) (by decide) (by decide)).mpr fun before word after htokens hlong => ?_
  have hwords : ∀ t ∈ tokens [104, 105, 32, 121, 111, 117], ∀ w ∈ t, w.length < 16 := by
    decide +kernel
  have hshort := hwords (some word) (by rw [htokens]; simp) word rfl
  simp only [List.length_cons, List.length_nil] at hlong
  omega

/-- Three lines of eight characters for "abcdef g": the first word loses its fifth character, and
its line gets a character too long. -/
theorem not_wraps_abcdef : ¬Wraps ⟨3, 8, 0, 0⟩ [97, 98] [97, 98, 99, 100, 101, 102, 32, 103] := by
  intro h
  obtain ⟨out, hout, -, hnarrow, -⟩ := h 9 (by decide)
  have htext : (my_xosd_display ⟨3, 8, 0, 0⟩ true 9 [97, 98]
      [97, 98, 99, 100, 101, 102, 32, 103]).map (Option.map fun o => o.display.text) =
        some (some [[97, 98, 58, 32], [32, 32, 32, 32, 97, 98, 99, 100, 32],
          [32, 32, 32, 32, 102, 32, 103, 32]]) := by
    decide +kernel
  rw [hout, Option.map_some, Option.map_some] at htext
  have hlines := Option.some.inj (Option.some.inj htext)
  have hlong := hnarrow [32, 32, 32, 32, 97, 98, 99, 100, 32] (by rw [hlines]; simp)
  exact absurd hlong (by decide)

end Licq.Osd
