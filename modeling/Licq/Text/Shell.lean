import Mathlib.Data.List.Basic

/-!
# Text/Shell — how a POSIX shell reads quotes

`Shell.read` goes through a command line and says of each character whether the shell takes it as it
stands, as quoted, or as part of a comment: the escape character, single quotes, double quotes,
comments and backquotes.  A text written between single quotes, with each quote in it escaped, is
read as that text, all of it quoted (`read_singleQuote`).
-/

namespace Shell

open List

/-- What the characters before have left the shell in. -/
inductive Mode where
  /-- Between words. -/
  | blank
  | word
  | single
  | double
  /-- After a backslash, outside or inside of a word. -/
  | escape (inWord : Bool)
  | doubleEscape
  | comment
  | command
  | commandEscape
  deriving DecidableEq, Repr

/-- How a character is taken. -/
inductive Tag where
  | plain | quoted | comment
  deriving DecidableEq, Repr

def backQuote : Char := Char.ofNat 96

/-- Blanks, line ends and operator characters: they end a word. -/
def endsWord (c : Char) : Bool :=
  c ∈ [' ', '\t', '\n', '|', '&', ';', '<', '>', '(', ')']

/-- Outside of quotes, with whether a word has begun. -/
def nextUnquoted (inWord : Bool) (c : Char) : Mode :=
  if c = '\'' then .single
  else if c = '"' then .double
  else if c = '\\' then .escape inWord
  else if c = backQuote then .command
  else if c = '#' ∧ inWord = false then .comment
  else if endsWord c then .blank
  else .word

def next : Mode → Char → Mode
  | .blank, c => nextUnquoted false c
  | .word, c => nextUnquoted true c
  | .single, c => if c = '\'' then .word else .single
  | .double, c => if c = '"' then .word else if c = '\\' then .doubleEscape else .double
  | .escape inWord, c => if c = '\n' ∧ inWord = false then .blank else .word
  | .doubleEscape, _ => .double
  | .comment, c => if c = '\n' then .blank else .comment
  | .command, c => if c = backQuote then .word else if c = '\\' then .commandEscape else .command
  | .commandEscape, _ => .command

def emitUnquoted (inWord : Bool) (c : Char) : List (Char × Tag) :=
  if c = '\'' ∨ c = '"' ∨ c = '\\' then []
  else if c = '#' ∧ inWord = false then [(c, .comment)]
  else [(c, .plain)]

def emit : Mode → Char → List (Char × Tag)
  | .blank, c => emitUnquoted false c
  | .word, c => emitUnquoted true c
  | .single, c => if c = '\'' then [] else [(c, .quoted)]
  | .double, c =>
    if c = '"' ∨ c = '\\' then []
    else if c = '$' ∨ c = backQuote then [(c, .plain)] else [(c, .quoted)]
  | .escape _, c => if c = '\n' then [] else [(c, .quoted)]
  | .doubleEscape, c =>
    if c = '\n' then []
    else if c ∈ ['$', backQuote, '"', '\\'] then [(c, .quoted)]
    else [('\\', .quoted), (c, .quoted)]
  | .comment, c => if c = '\n' then [(c, .plain)] else [(c, .comment)]
  | .command, c => [(c, .plain)]
  | .commandEscape, c => [(c, .plain)]

/-- The text ends inside of quotes, or after a backslash. -/
def Mode.IsOpen : Mode → Prop
  | .single => True
  | .double => True
  | .escape _ => True
  | .doubleEscape => True
  | _ => False

instance (m : Mode) : Decidable m.IsOpen := by
  cases m <;> unfold Mode.IsOpen <;> infer_instance

/-- **What the shell reads**; nothing if the text ends inside of quotes. -/
def readFrom : Mode → List Char → Option (List (Char × Tag))
  | m, [] => if m.IsOpen then none else some []
  | m, c :: s => (readFrom (next m c) s).map (emit m c ++ ·)

def read (s : List Char) : Option (List (Char × Tag)) := readFrom .blank s

/-- What a text leaves the shell in. -/
def Mode.after (m : Mode) (s : List Char) : Mode := s.foldl next m

/-- Outside of all quotes, and not after a backslash. -/
def Mode.IsText (m : Mode) : Prop := m = .blank ∨ m = .word ∨ m = .comment ∨ m = .command

variable {m : Mode} {c : Char} {s : List Char}

/-- Without quoting characters a text is read as it stands. -/
theorem isText_next (hm : m.IsText)
    (hc : c ≠ '\'' ∧ c ≠ '"' ∧ c ≠ '\\') :
    (next m c).IsText ∧ ∃ tag, tag ≠ Tag.quoted ∧ emit m c = [(c, tag)] := by
  obtain ⟨h1, h2, h3⟩ := hc
  obtain rfl | rfl | rfl | rfl := hm
  · simp only [next, nextUnquoted, emit, emitUnquoted, h1, h2, h3, if_false, or_self]
    constructor
    · split_ifs <;> simp [Mode.IsText]
    · split_ifs <;> simp
  · simp only [next, nextUnquoted, emit, emitUnquoted, h1, h2, h3, if_false, or_self]
    constructor
    · split_ifs <;> simp [Mode.IsText]
    · split_ifs <;> simp
  · simp only [next, emit]
    constructor
    · split_ifs <;> simp [Mode.IsText]
    · split_ifs <;> simp
  · simp only [next, emit, h3, if_false]
    constructor
    · split_ifs <;> simp [Mode.IsText]
    · simp

/-- **A text without quoting characters** is read as it stands. -/
theorem readFrom_text (hs : ∀ c ∈ s, c ≠ '\'' ∧ c ≠ '"' ∧ c ≠ '\\')
    (hm : m.IsText) :
    (m.after s).IsText ∧ ∃ a : List (Char × Tag), (∀ x ∈ a, x.2 ≠ Tag.quoted) ∧
      a.map Prod.fst = s ∧
      ∀ rest, readFrom m (s ++ rest) = (readFrom (m.after s) rest).map (a ++ ·) := by
  induction s generalizing m with
  | nil => exact ⟨hm, [], nofun, rfl, fun rest => by
      simp [Mode.after]⟩
  | cons c s ih =>
    obtain ⟨hnext, tag, htag, hemit⟩ := isText_next hm (hs c mem_cons_self)
    obtain ⟨hafter, a, ha, hmap, hread⟩ := ih (fun d hd => hs d (mem_cons_of_mem c hd)) hnext
    refine ⟨hafter, (c, tag) :: a, fun x hx => ?_, by rw [map_cons, hmap], fun rest => ?_⟩
    · exact (mem_cons.mp hx).elim (fun h => h ▸ htag) (ha x)
    · rw [cons_append, readFrom, hread rest, hemit, Option.map_map]
      rfl

/-! ## Single quotes -/

/-- How a character is written between single quotes. -/
def escapeQuote (c : Char) : List Char := if c = '\'' then ['\'', '\\', '\'', '\''] else [c]

/-- A text between single quotes. -/
def singleQuote (s : List Char) : List Char := '\'' :: (s.flatMap escapeQuote ++ ['\''])

theorem flatMap_escapeQuote_of_notMem {l : List Char} (h : '\'' ∉ l) :
    l.flatMap escapeQuote = l := by
  induction l with
  | nil => rfl
  | cons c l ih =>
    rw [mem_cons, not_or] at h
    rw [flatMap_cons, ih h.2, escapeQuote, if_neg (Ne.symm h.1), singleton_append]

theorem mem_singleQuote (h : c ∈ singleQuote s) : c = '\'' ∨ c = '\\' ∨ c ∈ s := by
  rw [singleQuote, mem_cons, mem_append, mem_singleton, mem_flatMap] at h
  obtain rfl | ⟨d, hd, hc⟩ | rfl := h
  · exact .inl rfl
  · rw [escapeQuote] at hc
    split at hc
    · simp only [mem_cons, not_mem_nil, or_false] at hc
      tauto
    · rw [mem_singleton] at hc
      exact .inr (.inr (hc ▸ hd))
  · exact .inl rfl

/-- A single quote between single quotes. -/
theorem readFrom_escapedQuote (s : List Char) :
    readFrom .single ('\'' :: '\\' :: '\'' :: '\'' :: s) =
      (readFrom .single s).map (('\'', Tag.quoted) :: ·) := by
  have hclose : next .single '\'' = .word ∧ emit .single '\'' = [] := by decide
  have hescape : next .word '\\' = .escape true ∧ emit .word '\\' = [] := by decide
  have hquote : next (.escape true) '\'' = .word ∧
      emit (.escape true) '\'' = [('\'', .quoted)] := by decide
  have hopen : next .word '\'' = .single ∧ emit .word '\'' = [] := by decide
  rw [readFrom, hclose.1, hclose.2, readFrom, hescape.1, hescape.2, readFrom, hquote.1, hquote.2,
    readFrom, hopen.1, hopen.2]
  simp only [nil_append, singleton_append, Option.map_map]
  rfl

theorem readFrom_single (s rest : List Char) :
    readFrom .single (s.flatMap escapeQuote ++ '\'' :: rest) =
      (readFrom .word rest).map (s.map (·, Tag.quoted) ++ ·) := by
  induction s with
  | nil =>
    simp only [flatMap_nil, nil_append, map_nil, readFrom, next, emit, if_true]
  | cons c s ih =>
    rw [flatMap_cons, escapeQuote]
    by_cases hc : c = '\''
    · subst hc
      rw [if_pos rfl]
      simp only [cons_append, nil_append]
      rw [readFrom_escapedQuote, ih, Option.map_map]
      rfl
    · rw [if_neg hc, singleton_append, cons_append, readFrom, next, emit, if_neg hc,
        if_neg hc, ih, Option.map_map]
      rfl

/-- **A text between single quotes** is read as that text, all of it quoted. -/
theorem readFrom_singleQuote (hm : m = .blank ∨ m = .word) (s rest : List Char) :
    readFrom m (singleQuote s ++ rest) =
      (readFrom .word rest).map (s.map (·, Tag.quoted) ++ ·) := by
  have hstart : readFrom m (singleQuote s ++ rest) =
      readFrom .single (s.flatMap escapeQuote ++ '\'' :: rest) := by
    rw [singleQuote, cons_append, append_assoc, singleton_append, readFrom]
    obtain rfl | rfl := hm
    · simp [next, nextUnquoted, emit, emitUnquoted]
    · simp [next, nextUnquoted, emit, emitUnquoted]
  rw [hstart, readFrom_single]

/-- The characters that are read are those of the text. -/
theorem mem_of_mem_emit {x : Char × Tag} (h : x ∈ emit m c) : x.1 = c ∨ x.1 = '\\' := by
  cases m <;> simp only [emit, emitUnquoted] at h <;> (repeat' split at h) <;>
    simp only [mem_cons, not_mem_nil, or_false] at h <;>
    rcases h with rfl | rfl <;> simp

theorem mem_of_mem_readFrom {out : List (Char × Tag)}
    (h : readFrom m s = some out) {x : Char × Tag} (hx : x ∈ out) : x.1 ∈ s ∨ x.1 = '\\' := by
  induction s generalizing m out with
  | nil =>
    rw [readFrom] at h
    split at h
    · cases h
    · cases h
      cases hx
  | cons c s ih =>
    obtain ⟨rest, hrest, rfl⟩ := Option.map_eq_some_iff.mp h
    rcases mem_append.mp hx with hx | hx
    · refine (mem_of_mem_emit hx).imp_left fun hc => ?_
      rw [hc]
      exact mem_cons_self
    · exact (ih hrest hx).imp_left (mem_cons_of_mem c)

end Shell
