import Licq.Text.Shell
import Mathlib.Data.List.Count

/-!
# Text/ShellWords — the words of a command line

`Shell.argv` gives the words of a command line in which the shell finds one simple command and
nothing else: no operator, no end of a line, no expansion and no comment.  A line without quoting
characters is such a command exactly when each of its blank-separated words is `Ordinary`
(`words_eq_some_iff`), and a line whose quoting characters are all in its words has none
(`not_isQuote_of_words`).
-/

namespace Shell

open List Option

/-! ## Characters -/

def isBlank (c : Char) : Bool := c == ' ' || c == '\t'

/-- The characters that quote. -/
def isQuote (c : Char) : Bool := c == '\'' || c == '"' || c == '\\'

/-- Outside of quotes these are no characters of a word: operators, the end of a line, and what an
expansion begins with. -/
def isActive (c : Char) : Bool :=
  c == '\n' || c == '|' || c == '&' || c == ';' || c == '<' || c == '>' || c == '(' || c == ')' ||
    c == '$' || c == backQuote || c == '*' || c == '?' || c == '['

/-- A word that the shell takes as it stands: the beginning of a comment and of the name of a home
directory stand at the beginning of a word. -/
def Ordinary (word : List Char) : Prop :=
  (∀ c ∈ word, isQuote c = false ∧ isActive c = false) ∧
    word.head? ≠ some '#' ∧ word.head? ≠ some '~'

instance (word : List Char) : Decidable (Ordinary word) := inferInstanceAs (Decidable (_ ∧ _ ∧ _))

/-! ## Words -/

/-- The end of a word, where there is one. -/
def endWord {α : Type*} (word : List α) (words : List (List α)) : List (List α) :=
  if word = [] then words else word :: words

/-- The words of what the shell reads, behind the characters of one that has begun. -/
def wordsFrom : List Char → List (Char × Tag) → Option (List (List Char))
  | word, [] => some (endWord word [])
  | _, (_, .comment) :: _ => none
  | word, (c, .quoted) :: out => wordsFrom (word ++ [c]) out
  | word, (c, .plain) :: out =>
    if isBlank c then (wordsFrom [] out).map (endWord word)
    else if isActive c ∨ (c = '~' ∧ word = []) then none
    else wordsFrom (word ++ [c]) out

def words (line : List Char) : Option (List (List Char)) := (read line).bind (wordsFrom [])

/-- The words that are no name of a command where they stand first. -/
def reserved : List (List Char) :=
  [['!'], ['\x7b'], ['\x7d'], ['c', 'a', 's', 'e'], ['d', 'o'], ['d', 'o', 'n', 'e'],
    ['e', 'l', 'i', 'f'], ['e', 'l', 's', 'e'], ['e', 's', 'a', 'c'], ['f', 'i'], ['f', 'o', 'r'],
    ['i', 'f'], ['i', 'n'], ['t', 'h', 'e', 'n'], ['u', 'n', 't', 'i', 'l'],
    ['w', 'h', 'i', 'l', 'e']]

/-- A name and an equal sign. -/
def isAssignment (word : List Char) : Bool :=
  let name := word.takeWhile fun c => c.isAlphanum || c == '_'
  !name.isEmpty && !(name.headD '0').isDigit && (word.drop name.length).head? == some '='

def IsCommandName (word : List Char) : Prop := word ∉ reserved ∧ isAssignment word = false

instance (word : List Char) : Decidable (IsCommandName word) := inferInstanceAs (Decidable (_ ∧ _))

/-- **The words of a simple command**, of which the first is the name of the command. -/
def argv (line : List Char) : Option (List (List Char)) :=
  match words line with
  | some (name :: arguments) => if IsCommandName name then some (name :: arguments) else none
  | _ => none

variable {line word : List Char} {c : Char} {ws : List (List Char)}

theorem argv_eq_some_iff {name : List Char} {arguments : List (List Char)} :
    argv line = some (name :: arguments) ↔
      words line = some (name :: arguments) ∧ IsCommandName name := by
  rw [argv]
  split
  · rename_i name' arguments' hwords
    rw [hwords]
    by_cases hname : IsCommandName name'
    · rw [if_pos hname]
      refine ⟨fun h => ⟨h, ?_⟩, And.left⟩
      rwa [← (List.cons.inj (some.inj h)).1]
    · rw [if_neg hname]
      refine iff_of_false (by simp) fun h => hname ?_
      rw [(List.cons.inj (some.inj h.1)).1]
      exact h.2
  · rename_i hwords
    exact iff_of_false (by simp) fun h => hwords _ _ h.1

/-! ## Splitting -/

section Split

variable {α : Type*} {p : α → Bool}

/-- The words of a text between the separators, behind the entries of one that has begun. -/
def splitFrom (p : α → Bool) : List α → List α → List (List α)
  | word, [] => endWord word []
  | word, c :: s =>
    if p c then endWord word (splitFrom p [] s) else splitFrom p (word ++ [c]) s

theorem endWord_append (word : List α) (ws ws' : List (List α)) :
    endWord word (ws ++ ws') = endWord word ws ++ ws' := by
  rw [endWord, endWord]
  split_ifs
  · rfl
  · rfl

theorem flatten_endWord (word : List α) (ws : List (List α)) :
    (endWord word ws).flatten = word ++ ws.flatten := by
  rw [endWord]
  split_ifs with h
  · rw [h, nil_append]
  · rfl

theorem splitFrom_append_sep {c : α} (hc : p c = true) (word a b : List α) :
    splitFrom p word (a ++ c :: b) = splitFrom p word a ++ splitFrom p [] b := by
  induction a generalizing word with
  | nil =>
    simp only [nil_append, splitFrom, hc, if_true]
    rw [← endWord_append, nil_append]
  | cons d a ih =>
    rw [cons_append, splitFrom, splitFrom, ih, ih]
    split_ifs
    · rw [endWord_append]
    · rfl

/-- The words are the text without its separators. -/
theorem flatten_splitFrom (word s : List α) :
    (splitFrom p word s).flatten = word ++ s.filter fun c => !p c := by
  induction s generalizing word with
  | nil => exact flatten_endWord word []
  | cons c s ih =>
    rw [splitFrom]
    by_cases hc : p c = true
    · rw [if_pos hc, flatten_endWord, ih, nil_append, filter_cons_of_neg (by simp [hc])]
    · rw [if_neg hc, ih, filter_cons_of_pos (by simp [hc]), append_assoc,
        singleton_append]

theorem nil_notMem_endWord {word : List α} {ws : List (List α)} (h : [] ∉ ws) :
    [] ∉ endWord word ws := by
  rw [endWord]
  split_ifs with hword
  · exact h
  · simpa [h] using Ne.symm hword

theorem nil_notMem_splitFrom (word s : List α) : [] ∉ splitFrom p word s := by
  induction s generalizing word with
  | nil => exact nil_notMem_endWord not_mem_nil
  | cons c s ih =>
    rw [splitFrom]
    split_ifs
    · exact nil_notMem_endWord (ih [])
    · exact ih _

/-- A word that has begun goes on. -/
theorem exists_splitFrom {word : List α} (hword : word ≠ []) (s : List α) :
    ∃ rest ws, splitFrom p word s = (word ++ rest) :: ws := by
  induction s generalizing word with
  | nil => exact ⟨[], [], by rw [splitFrom, endWord, if_neg hword, append_nil]⟩
  | cons c s ih =>
    rw [splitFrom]
    split_ifs
    · exact ⟨[], splitFrom p [] s, by rw [endWord, if_neg hword, append_nil]⟩
    · obtain ⟨rest, ws, hsplit⟩ := @ih (word ++ [c]) (by simp)
      exact ⟨c :: rest, ws, by rw [hsplit, append_assoc, singleton_append]⟩

/-- **Words of words**: a text whose entries are spelled out, a separator as one, has the words of
what its words spell. -/
theorem splitFrom_flatMap {β : Type*} {q : β → Bool} {f : α → List β}
    (hsep : ∀ a, p a = true → ∃ c, q c = true ∧ f a = [c]) (word s : List α) :
    splitFrom q [] (word.flatMap f ++ s.flatMap f) =
      (splitFrom p word s).flatMap fun w => splitFrom q [] (w.flatMap f) := by
  have hend : ∀ (word : List α) (ws : List (List α)),
      ((endWord word ws).flatMap fun w => splitFrom q [] (w.flatMap f)) =
        splitFrom q [] (word.flatMap f) ++ ws.flatMap fun w => splitFrom q [] (w.flatMap f) := by
    intro word ws
    rw [endWord]
    split_ifs with hnil
    · rw [hnil]
      rfl
    · rfl
  induction s generalizing word with
  | nil =>
    rw [splitFrom, hend, flatMap_nil, flatMap_nil, append_nil, append_nil]
  | cons a s ih =>
    rw [splitFrom, flatMap_cons]
    by_cases ha : p a = true
    · obtain ⟨c, hc, hfa⟩ := hsep a ha
      rw [if_pos ha, hend, ← ih, hfa, singleton_append, splitFrom_append_sep hc,
        flatMap_nil, nil_append]
    · rw [if_neg ha, ← ih, flatMap_append, flatMap_singleton, append_assoc]

/-- Parts that keep what is no separator of them are the words exactly when each of them is one. -/
theorem flatMap_split_eq_map_iff {β : Type*} {text contents : β → List α} {parts : List β}
    (hkeep : ∀ g ∈ parts, ((text g).filter fun c => !p c) = (contents g).filter fun c => !p c) :
    (parts.flatMap fun g => splitFrom p [] (text g)) = parts.map contents ↔
      ∀ g ∈ parts, splitFrom p [] (text g) = [contents g] := by
  constructor
  · intro heq
    have hword : ∀ w ∈ parts.map contents, w ≠ [] ∧ ∀ c ∈ w, p c = false := by
      intro w hw
      rw [← heq] at hw
      obtain ⟨g, -, hw⟩ := mem_flatMap.mp hw
      refine ⟨fun hnil => nil_notMem_splitFrom _ _ (hnil ▸ hw), fun c hc => ?_⟩
      have hmem := mem_flatten_of_mem hw hc
      rw [flatten_splitFrom] at hmem
      simpa using (mem_filter.mp hmem).2
    induction parts with
    | nil => exact nofun
    | cons g parts ih =>
      obtain ⟨hne, hblank⟩ := hword (contents g) mem_cons_self
      have hflat : (splitFrom p [] (text g)).flatten = contents g := by
        rw [flatten_splitFrom, nil_append, hkeep g mem_cons_self]
        exact filter_eq_self.mpr fun c hc => by simp [hblank c hc]
      have hone : splitFrom p [] (text g) = [contents g] := by
        rw [flatMap_cons, map_cons] at heq
        have hnil := @nil_notMem_splitFrom α p [] (text g)
        cases hws : splitFrom p [] (text g) with
        | nil =>
          rw [hws] at hflat
          exact absurd hflat.symm hne
        | cons w ws =>
          rw [hws] at heq hflat hnil
          obtain ⟨rfl, -⟩ := List.cons.inj heq
          have hrest : ws.flatten = [] :=
            append_right_eq_self.mp (by rwa [flatten_cons] at hflat)
          cases ws with
          | nil => rfl
          | cons w' ws =>
            obtain rfl := (append_eq_nil_iff.mp hrest).1
            exact absurd (mem_cons_of_mem _ mem_cons_self) hnil
      rw [flatMap_cons, map_cons, hone, singleton_append] at heq
      refine forall_mem_cons.mpr ⟨hone, ?_⟩
      exact ih (fun g hg => hkeep g (mem_cons_of_mem _ hg)) (List.cons.inj heq).2
        fun w hw => hword w (mem_cons_of_mem _ hw)
  · intro hone
    rw [flatMap_congr hone, map_eq_flatMap]

end Split

/-- The blank-separated words of a text. -/
def split (s : List Char) : List (List Char) := splitFrom isBlank [] s

theorem flatten_split (s : List Char) : (split s).flatten = s.filter fun c => !isBlank c :=
  flatten_splitFrom [] s

/-! ## Lines without quoting characters -/

theorem ordinary_nil : Ordinary [] := ⟨nofun, by simp, by simp⟩

theorem not_ordinary_append {rest : List Char} (hc : isActive c = true) :
    ¬Ordinary (word ++ [c] ++ rest) := by
  intro h
  have hact := (h.1 c (by simp)).2
  rw [hc] at hact
  cases hact

/-- What a character of a word that is neither blank nor active leaves the shell in. -/
theorem next_emit_word {c : Char} {inWord : Bool} (hquote : isQuote c = false)
    (hblank : isBlank c = false) (hactive : isActive c = false) (hcomment : c = '#' → inWord = true) :
    nextUnquoted inWord c = .word ∧ emitUnquoted inWord c = [(c, .plain)] := by
  simp only [isQuote, isBlank, isActive, Bool.or_eq_false_iff, beq_eq_false_iff_ne] at *
  have hends : endsWord c = false := by
    simp only [endsWord, mem_cons, not_mem_nil, decide_eq_false_iff_not]
    tauto
  have hhash : ¬(c = '#' ∧ inWord = false) := fun h => by simp [hcomment h.1] at h
  simp [nextUnquoted, emitUnquoted, hquote, hactive, hends, hhash]

theorem next_emit_blank (hblank : isBlank c = true) (inWord : Bool) :
    nextUnquoted inWord c = .blank ∧ emitUnquoted inWord c = [(c, .plain)] := by
  rw [isBlank, Bool.or_eq_true, beq_iff_eq, beq_iff_eq] at hblank
  obtain rfl | rfl := hblank
  · cases inWord <;> decide
  · cases inWord <;> decide

/-- An active character is read as it stands. -/
theorem emit_active (hactive : isActive c = true) (inWord : Bool) :
    emitUnquoted inWord c = [(c, .plain)] ∧ isBlank c = false := by
  simp only [isActive, Bool.or_eq_true, beq_iff_eq] at hactive
  obtain ((((((((((((rfl | rfl) | rfl) | rfl) | rfl) | rfl) | rfl) | rfl) | rfl) | rfl) | rfl) |
    rfl) | rfl) := hactive <;> cases inWord <;> decide

theorem forall_mem_endWord (hword : Ordinary word) :
    (∀ w ∈ endWord word ws, Ordinary w) ↔ ∀ w ∈ ws, Ordinary w := by
  rw [endWord]
  split_ifs
  · rfl
  · rw [forall_mem_cons]
    exact and_iff_right hword

theorem ordinary_concat (hword : Ordinary word)
    (hquote : isQuote c = false) (hactive : isActive c = false)
    (hfirst : word = [] → c ≠ '#' ∧ c ≠ '~') : Ordinary (word ++ [c]) := by
  refine ⟨fun d hd => ?_, ?_⟩
  · rcases mem_append.mp hd with hd | hd
    · exact hword.1 d hd
    · obtain rfl := mem_singleton.mp hd
      exact ⟨hquote, hactive⟩
  · cases word with
    | nil => simpa using hfirst rfl
    | cons d word => exact hword.2

/-- The words of a text without quoting characters, behind the characters of one that has begun. -/
theorem wordsFrom_eq_some_iff {s : List Char} (hs : ∀ c ∈ s, isQuote c = false) {word : List Char}
    (hword : Ordinary word) {ws : List (List Char)} :
    (readFrom (if word = [] then .blank else .word) s).bind (wordsFrom word) = some ws ↔
      (∀ w ∈ splitFrom isBlank word s, Ordinary w) ∧ ws = splitFrom isBlank word s := by
  induction s generalizing word ws with
  | nil =>
    have hread : readFrom (if word = [] then .blank else .word) [] = some [] := by
      split_ifs <;> rfl
    have hall : ∀ w ∈ endWord word [], Ordinary w := by
      rw [endWord]
      split_ifs
      · exact nofun
      · exact fun w hw => mem_singleton.mp hw ▸ hword
    rw [hread, bind_some, wordsFrom, splitFrom, some_inj, and_iff_right hall]
    exact eq_comm
  | cons c s ih =>
    have hquote := hs c mem_cons_self
    have ih := fun {word : List Char} (hword : Ordinary word) {ws : List (List Char)} =>
      @ih (fun d hd => hs d (mem_cons_of_mem c hd)) word hword ws
    have hmode : ∀ (t : List Char), readFrom (if word = [] then .blank else .word) (c :: t) =
        (readFrom (nextUnquoted (!decide (word = [])) c) t).map
          (emitUnquoted (!decide (word = [])) c ++ ·) := by
      intro t
      by_cases hnil : word = []
      · rw [if_pos hnil, readFrom, next, emit, decide_eq_true hnil, Bool.not_true]
      · rw [if_neg hnil, readFrom, next, emit, decide_eq_false hnil, Bool.not_false]
    rw [hmode, splitFrom]
    by_cases hblank : isBlank c = true
    · obtain ⟨hnext, hemit⟩ := next_emit_blank hblank (!decide (word = []))
      have hbind : ((readFrom .blank s).map ([(c, .plain)] ++ ·)).bind (wordsFrom word) =
          ((readFrom .blank s).bind (wordsFrom [])).map (endWord word) := by
        cases readFrom .blank s with
        | none => rfl
        | some out => simp [wordsFrom, hblank]
      have hrest := fun {ws : List (List Char)} => @ih [] ordinary_nil ws
      rw [if_pos rfl] at hrest
      rw [hnext, hemit, if_pos hblank, hbind, forall_mem_endWord hword, map_eq_some_iff]
      constructor
      · rintro ⟨ws', hws', rfl⟩
        obtain ⟨hall, rfl⟩ := hrest.mp hws'
        exact ⟨hall, rfl⟩
      · rintro ⟨hall, rfl⟩
        exact ⟨_, hrest.mpr ⟨hall, rfl⟩, rfl⟩
    · rw [if_neg hblank]
      by_cases hactive : isActive c = true
      · obtain ⟨hemit, -⟩ := emit_active hactive (!decide (word = []))
        obtain ⟨rest, ws', hsplit⟩ := exists_splitFrom (show word ++ [c] ≠ [] by simp) s
        refine iff_of_false ?_ fun h => ?_
        · rw [hemit, bind_eq_some_iff]
          rintro ⟨out, hout, hwords⟩
          obtain ⟨out', -, rfl⟩ := map_eq_some_iff.mp hout
          simp [wordsFrom, hblank, hactive] at hwords
        · rw [hsplit] at h
          exact not_ordinary_append hactive (h.1 _ mem_cons_self)
      · simp only [Bool.not_eq_true] at hblank hactive
        by_cases hfirst : word = [] ∧ (c = '#' ∨ c = '~')
        · obtain ⟨rfl, hfirst⟩ := hfirst
          obtain ⟨rest, ws', hsplit⟩ := exists_splitFrom (show [] ++ [c] ≠ [] by simp) s
          refine iff_of_false ?_ fun h => ?_
          · rw [bind_eq_some_iff]
            rintro ⟨out, hout, hwords⟩
            obtain ⟨out', -, rfl⟩ := map_eq_some_iff.mp hout
            obtain rfl | rfl := hfirst
            · simp [emitUnquoted, wordsFrom] at hwords
            · simp [emitUnquoted, wordsFrom, hblank] at hwords
          · rw [hsplit] at h
            have hhead := (h.1 _ mem_cons_self).2
            obtain rfl | rfl := hfirst
            · exact hhead.1 rfl
            · exact hhead.2 rfl
        · have hfirst' : word = [] → c ≠ '#' ∧ c ≠ '~' := fun hnil => by
            rw [← not_or]
            exact fun h => hfirst ⟨hnil, h⟩
          obtain ⟨hnext, hemit⟩ := next_emit_word hquote hblank hactive
            (show c = '#' → (!decide (word = [])) = true by
              rintro rfl
              simpa using fun hnil => (hfirst' hnil).1 rfl)
          have hbind : ((readFrom .word s).map ([(c, .plain)] ++ ·)).bind (wordsFrom word) =
              (readFrom .word s).bind (wordsFrom (word ++ [c])) := by
            have hplain : ¬(c = '~' ∧ word = []) := fun h => (hfirst' h.2).2 h.1
            cases readFrom .word s with
            | none => rfl
            | some out => simp [wordsFrom, hblank, hactive, hplain]
          have hrest := @ih (word ++ [c]) (ordinary_concat hword hquote hactive hfirst') ws
          rw [if_neg (show word ++ [c] ≠ [] by simp)] at hrest
          rw [hnext, hemit, hbind]
          exact hrest

/-- **A line without quoting characters** is nothing but words exactly when each of its
blank-separated words is ordinary. -/
theorem words_eq_some_iff (hline : ∀ c ∈ line, isQuote c = false)
    :
    words line = some ws ↔ (∀ w ∈ split line, Ordinary w) ∧ ws = split line := by
  have h := @wordsFrom_eq_some_iff line hline [] ordinary_nil ws
  rwa [if_pos rfl] at h

/-! ## Lines with quoting characters -/

/-- The quoting characters that are words are among those that are read. -/
theorem countP_flatten_of_wordsFrom {out : List (Char × Tag)}
    (h : wordsFrom word out = some ws) :
    ws.flatten.countP isQuote = word.countP isQuote + (out.map Prod.fst).countP isQuote := by
  induction out generalizing word ws with
  | nil =>
    cases h
    rw [flatten_endWord, flatten_nil, append_nil, map_nil, countP_nil,
      Nat.add_zero]
  | cons x out ih =>
    obtain ⟨c, tag⟩ := x
    have hkeep : ∀ {ws}, wordsFrom (word ++ [c]) out = some ws → ws.flatten.countP isQuote =
        word.countP isQuote + (((c, tag) :: out).map Prod.fst).countP isQuote := by
      intro ws hws
      rw [ih hws, countP_append, map_cons, countP_cons, countP_cons,
        countP_nil, Nat.zero_add, Nat.add_assoc]
      exact congrArg _ (Nat.add_comm _ _)
    cases tag with
    | comment => cases h
    | quoted => exact hkeep h
    | plain =>
      rw [wordsFrom] at h
      split_ifs at h with hblank hactive
      · obtain ⟨ws', hws', rfl⟩ := map_eq_some_iff.mp h
        have hquote : isQuote c = false := by
          rw [isBlank, Bool.or_eq_true, beq_iff_eq, beq_iff_eq] at hblank
          obtain rfl | rfl := hblank <;> decide
        rw [flatten_endWord, countP_append, ih hws', map_cons,
          countP_cons_of_neg (by simp [hquote]), countP_nil, Nat.zero_add]
      · exact hkeep h

/-- A backslash between double quotes that may still be read as itself. -/
def Mode.pending : Mode → ℕ
  | .doubleEscape => 1
  | _ => 0

/-- A quoting character is read as itself once at most. -/
theorem countP_emit_le (m : Mode) (c : Char) :
    ((emit m c).map Prod.fst).countP isQuote + (next m c).pending ≤
      m.pending + if isQuote c then 1 else 0 := by
  cases m <;> simp only [emit, next, nextUnquoted, emitUnquoted] <;> split_ifs <;>
    simp_all [Mode.pending, countP_cons, isQuote]

theorem next_emit_quote (hquote : isQuote c = true) (inWord : Bool) :
    (nextUnquoted inWord c).pending = 0 ∧ emitUnquoted inWord c = [] := by
  simp only [isQuote, Bool.or_eq_true, beq_iff_eq] at hquote
  obtain (rfl | rfl) | rfl := hquote <;> cases inWord <;> decide

theorem countP_readFrom_le {m : Mode} {s : List Char} {out : List (Char × Tag)}
    (h : readFrom m s = some out) :
    (out.map Prod.fst).countP isQuote ≤ m.pending + s.countP isQuote := by
  induction s generalizing m out with
  | nil =>
    rw [readFrom] at h
    split_ifs at h
    cases h
    exact Nat.zero_le _
  | cons c s ih =>
    obtain ⟨out', hout', rfl⟩ := map_eq_some_iff.mp h
    have hone := countP_emit_le m c
    have hrest := ih hout'
    rw [map_append, countP_append, countP_cons]
    omega

/-- Where there is nothing but words, the first quoting character is not read as itself. -/
theorem countP_readFrom_lt {inWord : Bool} {word s : List Char} {out : List (Char × Tag)}
    (h : readFrom (if inWord then .word else .blank) s = some out)
    (hwords : wordsFrom word out ≠ none) (hs : ∃ c ∈ s, isQuote c = true) :
    (out.map Prod.fst).countP isQuote < s.countP isQuote := by
  induction s generalizing inWord word out with
  | nil =>
    obtain ⟨c, hc, -⟩ := hs
    exact absurd hc not_mem_nil
  | cons c s ih =>
    have hmode : readFrom (if inWord then .word else .blank) (c :: s) =
        (readFrom (nextUnquoted inWord c) s).map (emitUnquoted inWord c ++ ·) := by
      cases inWord <;> rfl
    rw [hmode] at h
    obtain ⟨out', hout', rfl⟩ := map_eq_some_iff.mp h
    by_cases hquote : isQuote c = true
    · have hle := countP_readFrom_le hout'
      obtain ⟨hpending, hemit⟩ := next_emit_quote hquote inWord
      rw [hemit, nil_append, countP_cons_of_pos hquote]
      omega
    · simp only [Bool.not_eq_true] at hquote
      have hs' : ∃ d ∈ s, isQuote d = true := by
        obtain ⟨d, hd, hdq⟩ := hs
        rcases mem_cons.mp hd with rfl | hd
        · rw [hquote] at hdq
          cases hdq
        · exact ⟨d, hd, hdq⟩
      have hcount : ∀ tag : Tag, (([(c, tag)] ++ out').map Prod.fst).countP isQuote =
          (out'.map Prod.fst).countP isQuote := by
        intro tag
        rw [singleton_append, map_cons, countP_cons_of_neg (by simp [hquote])]
      rw [countP_cons_of_neg (by simp [hquote])]
      by_cases hblank : isBlank c = true
      · obtain ⟨hnext, hemit⟩ := next_emit_blank hblank inWord
        rw [hnext] at hout'
        rw [hemit] at hwords ⊢
        rw [hcount]
        refine @ih false [] out' hout' ?_ hs'
        intro hnone
        simp [wordsFrom, hblank, hnone] at hwords
      · simp only [Bool.not_eq_true] at hblank
        by_cases hactive : isActive c = true
        · rw [(emit_active hactive inWord).1] at hwords
          simp [wordsFrom, hblank, hactive] at hwords
        · simp only [Bool.not_eq_true] at hactive
          by_cases hcomment : c = '#' ∧ inWord = false
          · obtain ⟨rfl, rfl⟩ := hcomment
            simp [emitUnquoted, wordsFrom] at hwords
          · obtain ⟨hnext, hemit⟩ := @next_emit_word c inWord hquote hblank hactive
              fun hc => by simpa [hc] using hcomment
            rw [hnext] at hout'
            rw [hemit] at hwords ⊢
            rw [hcount]
            refine @ih true (word ++ [c]) out' hout' ?_ hs'
            intro hnone
            simp [wordsFrom, hblank, hactive, hnone] at hwords

/-- Blanks do not quote. -/
theorem countP_filter_isBlank (s : List Char) :
    (s.filter fun c => !isBlank c).countP isQuote = s.countP isQuote := by
  rw [countP_filter]
  refine countP_congr fun c _ => ?_
  rw [Bool.and_eq_true, and_iff_left_iff_imp]
  intro hquote
  simp only [isQuote, Bool.or_eq_true, beq_iff_eq] at hquote
  obtain (rfl | rfl) | rfl := hquote <;> decide

/-- **When all quoting characters of a line are in its words, there are none.** -/
theorem not_isQuote_of_words (h : words line = some ws)
    (hcount : line.countP isQuote ≤ ws.flatten.countP isQuote) : ∀ c ∈ line, isQuote c = false := by
  intro c hc
  by_contra hquote
  obtain ⟨out, hout, hwords⟩ := bind_eq_some_iff.mp h
  have hlt := @countP_readFrom_lt false [] line out hout (by rw [hwords]; simp)
    ⟨c, hc, by simpa using hquote⟩
  have heq := countP_flatten_of_wordsFrom hwords
  rw [countP_nil, Nat.zero_add] at heq
  omega

theorem mem_of_wordsFrom {out : List (Char × Tag)}
    (h : wordsFrom word out = some ws) (hc : c ∈ ws.flatten) :
    c ∈ word ∨ ∃ x ∈ out, x.1 = c := by
  induction out generalizing word ws with
  | nil =>
    cases h
    rw [flatten_endWord, flatten_nil, append_nil] at hc
    exact Or.inl hc
  | cons x out ih =>
    obtain ⟨d, tag⟩ := x
    have hlater : (∃ x ∈ out, x.1 = c) → ∃ x ∈ (d, tag) :: out, x.1 = c := by
      rintro ⟨x, hx, hxc⟩
      exact ⟨x, mem_cons_of_mem _ hx, hxc⟩
    have hkeep : ∀ {ws}, wordsFrom (word ++ [d]) out = some ws → c ∈ ws.flatten →
        c ∈ word ∨ ∃ x ∈ (d, tag) :: out, x.1 = c := by
      intro ws hws hmem
      obtain hmem | hmem := ih hws hmem
      · obtain hmem | hmem := mem_append.mp hmem
        · exact Or.inl hmem
        · exact Or.inr ⟨(d, tag), mem_cons_self, (mem_singleton.mp hmem).symm⟩
      · exact Or.inr (hlater hmem)
    cases tag with
    | comment => cases h
    | quoted => exact hkeep h hc
    | plain =>
      rw [wordsFrom] at h
      split_ifs at h with hblank hactive
      · obtain ⟨ws', hws', rfl⟩ := map_eq_some_iff.mp h
        rw [flatten_endWord] at hc
        obtain hc | hc := mem_append.mp hc
        · exact Or.inl hc
        · obtain hc | hc := ih hws' hc
          · exact absurd hc not_mem_nil
          · exact Or.inr (hlater hc)
      · exact hkeep h hc

/-- The characters of the words are those of the line, or a backslash. -/
theorem mem_of_words (h : words line = some ws) (hc : c ∈ ws.flatten) : c ∈ line ∨ c = '\\' := by
  obtain ⟨out, hout, hwords⟩ := bind_eq_some_iff.mp h
  obtain hc | ⟨x, hx, rfl⟩ := mem_of_wordsFrom hwords hc
  · exact absurd hc not_mem_nil
  · exact mem_of_mem_readFrom hout hx

end Shell
