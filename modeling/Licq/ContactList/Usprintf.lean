import Licq.Text.Decimal
import Licq.Text.Search
import Licq.Text.Shell

/-!
# ContactList/Usprintf — user data in a format string

`User::usprintf` replaces the `%` sequences of a format string by data of the user, in place, in the
string that it goes through.  `pieces` reads the format alone: characters that stay, line ends, and
fields.  **Nothing that is put in is read again** (`usprintf_eq`): the result is what the pieces of
the format render to, or an exception where a field does not fit its width.
-/

namespace Licq

open Text Shell List Cursor

/-! ## The data of a user -/

/-- What the `%` sequences show of a user; what `strftime` and `inet_ntoa` write is given. -/
structure UserData where
  ip : List Char
  port : ℕ
  /-- The name of the protocol, if its plugin is loaded. -/
  protocolName : Option (List Char)
  email1 : List Char
  email2 : List Char
  email0 : List Char
  firstName : List Char
  lastName : List Char
  myAlias : List Char
  accountId : List Char
  homepage : List Char
  phoneNumber : List Char
  cellularNumber : List Char
  statusShort : List Char
  statusFull : List Char
  /-- The time now: `%b %d %r` and `%b %d %R %Z`. -/
  time12 : List Char
  time24 : List Char
  /-- Seconds from GMT, unless unknown. -/
  timezone : Option ℤ
  /-- The time where the user is: `%R` and `%c`. -/
  localTime : List Char
  localDate : List Char
  /-- `LAST_ONLINE`, unless never. -/
  lastOnline : Option (List Char)
  /-- Online since, unless offline. -/
  onlineSince : Option (List Char)
  /-- Seconds idle, unless active. -/
  idle : Option ℤ
  newMessages : ℕ
  deriving DecidableEq

namespace UserData

def getEmail (u : UserData) : List Char :=
  if ¬ u.email1.isEmpty then u.email1 else if ¬ u.email2.isEmpty then u.email2 else u.email0

def getFullName (u : UserData) : List Char :=
  u.firstName ++ (if ¬ u.firstName.isEmpty ∧ ¬ u.lastName.isEmpty then [' '] else []) ++ u.lastName

/-- A number of days, hours or minutes, and a blank; nothing for zero. -/
def timeUnit (n : ℕ) (name : List Char) : List Char :=
  if n > 0 then decimal n ++ ' ' :: name ++ (if n = 1 then [' '] else ['s', ' ']) else []

def relativeStrTime (diff : ℤ) : List Char :=
  if diff < 30 then ['n', 'o', 'w']
  else
    -- Round to nearest minute
    let diff := (diff + 30).toNat
    -- Remove the trailing space
    (timeUnit (diff / 86400) ['d', 'a', 'y'] ++
      timeUnit (diff % 86400 / 3600) ['h', 'o', 'u', 'r'] ++
      timeUnit (diff % 3600 / 60) ['m', 'i', 'n', 'u', 't', 'e']).dropLast

def timezoneString (zone : ℤ) : List Char :=
  let minutes := (zone.tdiv 60).natAbs % 60
  ['G', 'M', 'T', if zone ≥ 0 then '+' else '-'] ++ decimal (zone.tdiv 3600).natAbs ++
    ':' :: (if minutes < 10 then ['0'] else []) ++ decimal minutes

def unknown : List Char := ['U', 'n', 'k', 'n', 'o', 'w', 'n']

/-- What a `%` sequence shows; nothing for an invalid qualifier. -/
def field (u : UserData) : Char → Option (List Char)
  | 'i' => some u.ip
  | 'p' => some (decimal u.port)
  | 'P' => u.protocolName
  | 'e' => some u.getEmail
  | 'n' => some u.getFullName
  | 'f' => some u.firstName
  | 'l' => some u.lastName
  | 'a' => some u.myAlias
  | 'u' => some u.accountId
  | 'w' => some u.homepage
  | 'h' => some u.phoneNumber
  | 'c' => some u.cellularNumber
  | 'S' => some u.statusShort
  | 's' => some u.statusFull
  | 't' => some u.time12
  | 'T' => some u.time24
  | 'z' => some ((u.timezone.map timezoneString).getD unknown)
  | 'L' => some ((u.timezone.map fun _ => u.localTime).getD unknown)
  | 'F' => some ((u.timezone.map fun _ => u.localDate).getD unknown)
  | 'o' => some (u.lastOnline.getD ['N', 'e', 'v', 'e', 'r'])
  | 'O' => some (u.onlineSince.getD unknown)
  | 'I' => some ((u.idle.map relativeStrTime).getD ['A', 'c', 't', 'i', 'v', 'e'])
  | 'm' => some (decimal u.newMessages)
  | 'M' => some (if u.newMessages ≠ 0 then decimal u.newMessages else [])
  | '%' => some ['%']
  | _ => none

/-- A user of whom only the alias is known. -/
def ofAlias (alias' : List Char) : UserData where
  ip := []
  port := 0
  protocolName := none
  email1 := []
  email2 := []
  email0 := []
  firstName := []
  lastName := []
  myAlias := alias'
  accountId := []
  homepage := []
  phoneNumber := []
  cellularNumber := []
  statusShort := []
  statusFull := []
  time12 := []
  time24 := []
  timezone := none
  localTime := []
  localDate := []
  lastOnline := none
  onlineSince := none
  idle := none
  newMessages := 0

end UserData

/-! ## One `%` sequence -/

/-- `usprintf_quotenone`, `usprintf_quotepipe` and `usprintf_quoteall`. -/
inductive UsprintfQuotes where
  | quoteNone | quotePipe | quoteAll
  deriving DecidableEq, Repr

structure UsprintfFlags where
  quotes : UsprintfQuotes
  toDos : Bool
  allowFieldWidth : Bool
  deriving DecidableEq, Repr

/-- What stands between the `%` and the end of its sequence. -/
structure Directive where
  alignLeft : Bool
  fieldWidth : ℤ
  conversion : Char
  /-- The characters after the `%`. -/
  length : ℕ
  deriving DecidableEq, Repr

def backTick : Char := Char.ofNat 96

/-- What is read past the end of a string. -/
def nul : Char := Char.ofNat 0

/-- The directive that a text starts with; the width is an `int`. -/
def directive (allowFieldWidth : Bool) (t : List Char) : Directive :=
  if allowFieldWidth then
    let alignLeft : Bool := t.head? == some '-'
    let t := if alignLeft then t.tail else t
    let digits := t.takeWhile Char.isDigit
    { alignLeft
      fieldWidth := digits.foldl (fun w d => (w * 10 + (d.toNat - 48 : ℕ)).bmod (2 ^ 32)) 0
      conversion := (t.drop digits.length).headD nul
      length := (if alignLeft then 1 else 0) + digits.length + 1 }
  else { alignLeft := false, fieldWidth := 0, conversion := t.headD nul, length := 1 }

/-- Add width and alignment; `erase` throws when a value is too long to be aligned to the right. -/
def align (alignLeft : Bool) (fieldWidth : ℤ) (sz : List Char) : Option (List Char) :=
  if fieldWidth > 0 then
    let len := (fieldWidth - sz.length).bmod (2 ^ 32)
    if alignLeft then some (sz ++ List.replicate len.toNat ' ')
    else if len < 0 then none
    else some (List.replicate len.toNat ' ' ++ sz)
  else some sz

/-- Single quotes in the string need extra handling: each is replaced, from the cursor on. -/
def quoteLoop : ℕ → List Char → ℕ → List Char
  | 0, sz, _ => sz
  | n + 1, sz, pos3 =>
    match findFrom ['\''] sz pos3 with
    | none => sz
    | some k => quoteLoop n (sz.take k ++ ['\'', '\\', '\'', '\''] ++ sz.drop (k + 1)) (k + 4)

def quoteString (sz : List Char) : List Char :=
  '\'' :: quoteLoop sz.length sz 0 ++ ['\'']

/-! ## The loop -/

/-- The string, the position in it, and whether values are quoted. -/
structure Cursor where
  s : List Char
  pos : ℕ
  addQuotes : Bool
  deriving DecidableEq, Repr

/-- If we're converting newlines, insert \r before the \n we just found. -/
def Cursor.insertReturn (toDos : Bool) (st : Cursor) : Cursor :=
  if toDos then { st with s := st.s.take st.pos ++ '\r' :: st.s.drop st.pos, pos := st.pos + 1 }
  else st

/-- The character at the position is handled. -/
def Cursor.step (u : UserData) (flags : UsprintfFlags) (st : Cursor) : Option Cursor :=
  let c := st.s.getD st.pos nul
  if c = backTick then
    -- Don't do any processing on data between back ticks
    match findFrom [backTick] st.s (st.pos + 1) with
    | some k => some { st with pos := k + 1 }
    | none => some { st with pos := st.s.length }
  else if c = '%' then
    if ¬ flags.allowFieldWidth ∧ (st.s.getD (st.pos + 1) nul).isDigit then
      some { st with pos := st.pos + 2 }
    else
      let d := directive flags.allowFieldWidth (st.s.drop (st.pos + 1))
      match u.field d.conversion with
      -- No proper replace, leave original characters and move on
      | none => some { st with pos := st.pos + 2 }
      | some sz =>
        (align d.alignLeft d.fieldWidth sz).map fun sz =>
          let sz := if st.addQuotes then quoteString sz else sz
          { st with
            s := st.s.take st.pos ++ sz ++ st.s.drop (st.pos + d.length + 1)
            pos := st.pos + sz.length }
  else if c = '\n' then
    let st := st.insertReturn flags.toDos
    -- Check if next line starts with a pipe
    if flags.quotes = .quotePipe ∧ st.pos + 1 < st.s.length then
      some { st with pos := st.pos + 1, addQuotes := st.s.getD (st.pos + 1) nul == '|' }
    else some { st with pos := st.pos + 1 }
  else some { st with pos := st.pos + 1 }

/-- The loop; what is left of the string bounds how often it goes round. -/
def Cursor.loop (u : UserData) (flags : UsprintfFlags) : ℕ → Cursor → Option Cursor
  | 0, st => some st
  | n + 1, st =>
    if st.pos < st.s.length then (st.step u flags).bind (Cursor.loop u flags n) else some st

/-- `User::usprintf`; there is no result where an exception is thrown. -/
def usprintf (u : UserData) (flags : UsprintfFlags) (format : List Char) : Option (List Char) :=
  let addQuotes := flags.quotes = .quoteAll ∨ (flags.quotes = .quotePipe ∧ format.head? = some '|')
  (Cursor.loop u flags format.length ⟨format, 0, addQuotes⟩).map Cursor.s

/-! ## The pieces of a format -/

/-- A value with its width. -/
structure Field where
  alignLeft : Bool
  fieldWidth : ℤ
  value : List Char
  deriving DecidableEq, Repr

inductive Piece where
  /-- A character that stays. -/
  | lit (c : Char)
  /-- The end of a line. -/
  | newline (toDos : Bool)
  | field (f : Field) (quoted : Bool)
  deriving DecidableEq, Repr

/-- The pieces that a character starts, the further characters they take, and whether the values
after them are quoted. -/
structure Emitted where
  pieces : List Piece
  skip : ℕ
  addQuotes : Bool

def emit (u : UserData) (flags : UsprintfFlags) (addQuotes : Bool) (c : Char) (t : List Char) :
    Emitted :=
  if c = backTick then
    match find [backTick] t with
    | some k => ⟨(c :: t.take (k + 1)).map .lit, k + 1, addQuotes⟩
    | none => ⟨(c :: t).map .lit, t.length, addQuotes⟩
  else if c = '%' then
    if ¬ flags.allowFieldWidth ∧ (t.headD nul).isDigit then
      ⟨(c :: t.take 1).map .lit, 1, addQuotes⟩
    else
      let d := directive flags.allowFieldWidth t
      match u.field d.conversion with
      | none => ⟨(c :: t.take 1).map .lit, 1, addQuotes⟩
      | some value => ⟨[.field ⟨d.alignLeft, d.fieldWidth, value⟩ addQuotes], d.length, addQuotes⟩
  else if c = '\n' then
    ⟨[.newline flags.toDos], 0,
      if flags.quotes = .quotePipe ∧ t ≠ [] then t.head? == some '|' else addQuotes⟩
  else ⟨[.lit c], 0, addQuotes⟩

/-- The pieces of a format, past what the last ones took. -/
def piecesFrom (u : UserData) (flags : UsprintfFlags) : Bool → ℕ → List Char → List Piece
  | _, _, [] => []
  | addQuotes, n + 1, _ :: t => piecesFrom u flags addQuotes n t
  | addQuotes, 0, c :: t =>
    (emit u flags addQuotes c t).pieces ++
      piecesFrom u flags (emit u flags addQuotes c t).addQuotes (emit u flags addQuotes c t).skip t

/-- The pieces of a format. -/
def pieces (u : UserData) (flags : UsprintfFlags) (format : List Char) : List Piece :=
  piecesFrom u flags
    (flags.quotes = .quoteAll ∨ (flags.quotes = .quotePipe ∧ format.head? = some '|')) 0 format

/-- A value, padded; nothing when it does not fit. -/
def Field.text (f : Field) : Option (List Char) := align f.alignLeft f.fieldWidth f.value

def Piece.render : Piece → Option (List Char)
  | .lit c => some [c]
  | .newline toDos => some (if toDos then ['\r', '\n'] else ['\n'])
  | .field f quoted => f.text.map fun sz => if quoted then quoteString sz else sz

def render : List Piece → Option (List Char)
  | [] => some []
  | p :: ps => p.render.bind fun a => (render ps).map (a ++ ·)

/-- A value is not too long to be aligned to the right. -/
def Field.Fits (f : Field) : Prop :=
  0 < f.fieldWidth → f.alignLeft = false → 0 ≤ (f.fieldWidth - f.value.length).bmod (2 ^ 32)

/-- What a piece shows. -/
def Piece.text (p : Piece) : List Char := p.render.getD []

theorem Field.text_isSome_iff (f : Field) : f.text.isSome ↔ f.Fits := by
  rw [text, align, Fits]
  by_cases hwidth : f.fieldWidth > 0
  · simp only [hwidth, if_true, true_imp_iff]
    cases f.alignLeft with
    | true => simp
    | false =>
      simp only [Bool.false_eq_true, if_false, true_imp_iff]
      by_cases hlen : (f.fieldWidth - f.value.length).bmod (2 ^ 32) < 0
      · simp only [hlen, if_true, Option.isSome_none, Bool.false_eq_true, false_iff]
        omega
      · simp only [hlen, if_false, Option.isSome_some, true_iff]
        omega
  · rw [if_neg hwidth]
    exact iff_of_true rfl fun h => absurd h hwidth

theorem Piece.render_isSome_iff {p : Piece} :
    p.render.isSome ↔ ∀ f quoted, p = .field f quoted → f.Fits := by
  cases p with
  | lit c => exact iff_of_true rfl fun f quoted h => by cases h
  | newline toDos => exact iff_of_true rfl fun f quoted h => by cases h
  | field f quoted =>
    rw [render, Option.isSome_map, Field.text_isSome_iff]
    constructor
    · rintro hfits g _ ⟨⟩
      exact hfits
    · intro h
      exact h f quoted rfl

/-- **What pieces render to**, when all values fit. -/
theorem render_eq_some_iff {ps : List Piece} {s : List Char} :
    render ps = some s ↔ (∀ p ∈ ps, p.render.isSome) ∧ s = ps.flatMap Piece.text := by
  induction ps generalizing s with
  | nil =>
    rw [render, Option.some.injEq]
    exact ⟨fun h => ⟨nofun, h.symm⟩, fun h => h.2.symm⟩
  | cons p ps ih =>
    rw [render, Option.bind_eq_some_iff]
    constructor
    · rintro ⟨a, ha, hrest⟩
      obtain ⟨b, hb, rfl⟩ := Option.map_eq_some_iff.mp hrest
      obtain ⟨hfits, rfl⟩ := ih.mp hb
      refine ⟨forall_mem_cons.mpr ⟨Option.isSome_iff_exists.mpr ⟨a, ha⟩, hfits⟩, ?_⟩
      rw [flatMap_cons, Piece.text, ha, Option.getD_some]
    · rintro ⟨hfits, rfl⟩
      obtain ⟨hp, hfits⟩ := forall_mem_cons.mp hfits
      obtain ⟨a, ha⟩ := Option.isSome_iff_exists.mp hp
      refine ⟨a, ha, ?_⟩
      rw [ih.mpr ⟨hfits, rfl⟩, Option.map_some, flatMap_cons, Piece.text, ha, Option.getD_some]

/-! ## Quoting -/

/-- The loop leaves what is before its cursor and escapes what is after it. -/
theorem quoteLoop_append (done rest : List Char) (n : ℕ) (hn : rest.length ≤ n) :
    quoteLoop n (done ++ rest) done.length = done ++ rest.flatMap escapeQuote := by
  induction n generalizing done rest with
  | zero =>
    obtain rfl := length_eq_zero_iff.mp (Nat.le_zero.mp hn)
    rfl
  | succ n ih =>
    rw [quoteLoop, findFrom_append]
    by_cases hmem : '\'' ∈ rest
    · obtain ⟨l, r, rfl, hl⟩ := eq_append_cons_of_mem hmem
      have hdone : (done ++ (l ++ '\'' :: r)).take (l.length + done.length) = done ++ l := by
        rw [← append_assoc, Nat.add_comm, ← length_append, take_left]
      have hrest : (done ++ (l ++ '\'' :: r)).drop (l.length + done.length + 1) = r := by
        rw [← append_assoc, Nat.add_comm l.length, ← length_append, ← drop_drop,
          drop_left]
        rfl
      have hlen : l.length + done.length + 4 =
          (done ++ l ++ ['\'', '\\', '\'', '\'']).length := by
        simp only [length_append, length_cons, length_nil]
        omega
      simp only [find_nl hl, Option.map_some, hdone, hrest, hlen]
      rw [ih _ r (by simp only [length_append, length_cons] at hn; omega),
        flatMap_append, flatMap_cons, flatMap_escapeQuote_of_notMem hl, escapeQuote,
        if_pos rfl]
      simp only [append_assoc]
    · have hnone : find ['\''] rest = none := by
        have hskip := find_append_of_notMem (p := []) hmem []
        rwa [append_nil] at hskip
      rw [hnone, flatMap_escapeQuote_of_notMem hmem]
      rfl

/-- **A quoted string** is the string between single quotes, with each quote in it escaped. -/
theorem quoteString_eq (sz : List Char) : quoteString sz = singleQuote sz := by
  have hloop := quoteLoop_append [] sz sz.length le_rfl
  rw [nil_append, nil_append, length_nil] at hloop
  rw [quoteString, hloop, cons_append, singleQuote]

/-! ## The cursor -/

theorem render_append (ps qs : List Piece) :
    render (ps ++ qs) = (render ps).bind fun a => (render qs).map (a ++ ·) := by
  induction ps with
  | nil => simp [render]
  | cons p ps ih =>
    rw [cons_append, render, render, ih]
    cases p.render with
    | none => rfl
    | some a =>
      cases render ps with
      | none => rfl
      | some b => simp [Option.map_map, Function.comp_def]

theorem render_lit (l : List Char) : render (l.map .lit) = some l := by
  induction l with
  | nil => rfl
  | cons c l ih => simp [render, Piece.render, ih]

theorem piecesFrom_skip (u : UserData) (flags : UsprintfFlags) (addQuotes : Bool) (n : ℕ)
    (t : List Char) :
    piecesFrom u flags addQuotes n t = piecesFrom u flags addQuotes 0 (t.drop n) := by
  induction t generalizing n with
  | nil =>
    rw [drop_nil]
    cases n <;> rfl
  | cons c t ih =>
    cases n with
    | zero => rfl
    | succ n => exact ih n

/-- What a step makes of a cursor: what it renders is added to what is before the position, and what
it takes is gone from what is after it. -/
structure Cursor.Advances (st st' : Cursor) (out t : List Char) (addQuotes : Bool) : Prop where
  before : st'.s.take st'.pos = st.s.take st.pos ++ out
  after : st'.s.drop st'.pos = t
  quotes : st'.addQuotes = addQuotes

/-- What a step gives: a cursor that advanced by what the pieces render to, or an exception. -/
def Cursor.Renders (st : Cursor) (r : Option Cursor) (e : Emitted) (t : List Char) : Prop :=
  match render e.pieces with
  | none => r = none
  | some out => ∃ st', r = some st' ∧ st.Advances st' out (t.drop e.skip) e.addQuotes

variable {st : Cursor} {t : List Char} {n : ℕ} {addQuotes : Bool}

theorem Cursor.renders_some {st' : Cursor} {ps : List Piece} {out : List Char}
    (hps : render ps = some out)
    (h : st.Advances st' out (t.drop n) addQuotes) :
    st.Renders (some st') ⟨ps, n, addQuotes⟩ t := by
  rw [Renders, hps]
  exact ⟨st', rfl, h⟩

/-- A step that only moves on. -/
theorem Cursor.advances_skip {l : List Char} (addQuotes : Bool)
    (h : st.s.drop st.pos = l ++ t) (hn : l.length = n ∨ (l.length ≤ n ∧ t = [])) :
    st.Advances { st with pos := st.pos + n, addQuotes } l t addQuotes := by
  refine ⟨?_, ?_, rfl⟩
  · rw [take_add, h]
    obtain rfl | ⟨hle, rfl⟩ := hn
    · rw [take_left]
    · rw [append_nil, take_of_length_le hle]
  · rw [← drop_drop, h]
    obtain rfl | ⟨hle, rfl⟩ := hn
    · rw [drop_left]
    · rw [append_nil, drop_of_length_le hle]

theorem getD_append_cons (done t : List Char) (c : Char) :
    (done ++ c :: t).getD done.length nul = c := by
  rw [getD_eq_getElem?_getD, getElem?_append_right le_rfl, Nat.sub_self]
  rfl

theorem getD_append_cons_succ (done t : List Char) (c : Char) :
    (done ++ c :: t).getD (done.length + 1) nul = t.headD nul := by
  rw [getD_eq_getElem?_getD, getElem?_append_right (Nat.le_add_right _ 1),
    Nat.add_sub_cancel_left, getElem?_cons_succ, headD_eq_head?_getD,
    List.head?_eq_getElem?]

theorem drop_append_cons (done t : List Char) (c : Char) (n : ℕ) :
    (done ++ c :: t).drop (done.length + n + 1) = t.drop n := by
  rw [Nat.add_assoc, ← drop_drop, drop_left]
  rfl

/-- A value is put in for its sequence. -/
theorem Cursor.advances_replace (done t sz : List Char) (c : Char) (addQuotes : Bool) (n : ℕ) :
    (Cursor.mk (done ++ c :: t) done.length addQuotes).Advances
      ⟨(done ++ c :: t).take done.length ++ sz ++ (done ++ c :: t).drop (done.length + n + 1),
        done.length + sz.length, addQuotes⟩ sz (t.drop n) addQuotes := by
  have hlen : done.length + sz.length = (done ++ sz).length := length_append.symm
  refine ⟨?_, ?_, rfl⟩
  · simp only [take_left]
    rw [hlen, take_left]
  · simp only [take_left]
    rw [hlen, drop_left, drop_append_cons]

/-- The end of a line, with a carriage return. -/
theorem Cursor.advances_newline {st' : Cursor} {done : List Char} {toDos : Bool}
    (hst : st = ⟨done ++ '\n' :: t, done.length, addQuotes⟩) (hst' : st' = st.insertReturn toDos)
    (addQuotes' : Bool) :
    (st'.pos + 1 < st'.s.length ↔ t ≠ []) ∧ st'.s.getD (st'.pos + 1) nul = t.headD nul ∧
      st.Advances { st' with pos := st'.pos + 1, addQuotes := addQuotes' }
        (if toDos then ['\r', '\n'] else ['\n']) t addQuotes' := by
  have hlt : ∀ d : List Char, d.length + 1 < (d ++ '\n' :: t).length ↔ t ≠ [] := fun d => by
    rw [length_append, length_cons, ← length_pos_iff]
    omega
  subst hst' hst
  cases toDos with
  | false =>
    refine ⟨hlt done, getD_append_cons_succ done t '\n', ?_⟩
    exact advances_skip addQuotes' (drop_left) (.inl rfl)
  | true =>
    have hs : (done ++ '\n' :: t).take done.length ++
        '\r' :: (done ++ '\n' :: t).drop done.length = (done ++ ['\r']) ++ '\n' :: t := by
      rw [take_left, drop_left, append_assoc]
      rfl
    have hpos : done.length + 1 = (done ++ ['\r']).length := by
      rw [length_append, length_singleton]
    simp only [insertReturn, if_true, hs, hpos]
    refine ⟨hlt _, getD_append_cons_succ _ t '\n', ?_, ?_, rfl⟩
    · simp only [take_left]
      rw [take_append, take_of_length_le (Nat.le_succ _), Nat.add_sub_cancel_left]
      simp
    · have hdrop := drop_append_cons (done ++ ['\r']) t '\n' 0
      exact hdrop

/-- **One step** renders the pieces that the character starts. -/
theorem Cursor.step_append (u : UserData) (flags : UsprintfFlags) (done t : List Char) (c : Char)
    (addQuotes : Bool) :
    (Cursor.mk (done ++ c :: t) done.length addQuotes).Renders
      ((Cursor.mk (done ++ c :: t) done.length addQuotes).step u flags)
      (emit u flags addQuotes c t) t := by
  have hdrop : (done ++ c :: t).drop (done.length + 1) = t := drop_append_cons done t c 0
  simp only [step, emit, getD_append_cons, getD_append_cons_succ, hdrop]
  by_cases hback : c = backTick
  · have hfind : findFrom [backTick] (done ++ c :: t) (done.length + 1) =
        (find [backTick] t).map (· + (done.length + 1)) := by
      rw [findFrom, hdrop]
    rw [if_pos hback, if_pos hback, hfind]
    cases hk : find [backTick] t with
    | none =>
      refine renders_some (render_lit _) ⟨?_, ?_, rfl⟩
      · simp only [take_left, take_length]
      · simp only [drop_length]
    | some k =>
      have hlt : k < t.length := find_lt (by simp) hk
      have hpos : k + (done.length + 1) + 1 = done.length + (k + 2) := by omega
      refine renders_some (render_lit _) ?_
      simp only [hpos]
      refine advances_skip addQuotes ?_ (.inl ?_)
      · rw [drop_left, cons_append, take_append_drop]
      · rw [length_cons, length_take, min_eq_left (by omega)]
  rw [if_neg hback, if_neg hback]
  by_cases hpercent : c = '%'
  · rw [if_pos hpercent, if_pos hpercent]
    have hskip : (mk (done ++ c :: t) done.length addQuotes).Advances
        ⟨done ++ c :: t, done.length + 2, addQuotes⟩ (c :: t.take 1) (t.drop 1) addQuotes := by
      refine advances_skip addQuotes ?_ ?_
      · rw [drop_left, cons_append, take_append_drop]
      · cases t with
        | nil => exact .inr ⟨Nat.le_succ _, rfl⟩
        | cons d t => exact .inl rfl
    by_cases hdigit : ¬ flags.allowFieldWidth ∧ (t.headD nul).isDigit
    · rw [if_pos hdigit, if_pos hdigit]
      exact renders_some (render_lit _) hskip
    · rw [if_neg hdigit, if_neg hdigit]
      cases hfield : u.field (directive flags.allowFieldWidth t).conversion with
      | none => exact renders_some (render_lit _) hskip
      | some value =>
        simp only
        cases halign : align (directive flags.allowFieldWidth t).alignLeft
            (directive flags.allowFieldWidth t).fieldWidth value with
        | none => simp [Cursor.Renders, render, Piece.render, Field.text, halign]
        | some sz =>
          have hrender : render [.field ⟨(directive flags.allowFieldWidth t).alignLeft,
              (directive flags.allowFieldWidth t).fieldWidth, value⟩ addQuotes] =
              some (if addQuotes then quoteString sz else sz) := by
            simp [render, Piece.render, Field.text, halign]
          exact renders_some hrender (advances_replace done t _ c addQuotes _)
  rw [if_neg hpercent, if_neg hpercent]
  by_cases hnl : c = '\n'
  · subst hnl
    rw [if_pos rfl, if_pos rfl]
    generalize hst : (mk (done ++ '\n' :: t) done.length addQuotes) = st
    generalize hst' : st.insertReturn flags.toDos = st'
    have hrender : render [.newline flags.toDos] =
        some (if flags.toDos then ['\r', '\n'] else ['\n']) := by
      simp [render, Piece.render]
    by_cases hquotes : flags.quotes = .quotePipe ∧ t ≠ []
    · obtain ⟨hlt, hget, hadv⟩ := advances_newline hst.symm hst'.symm (t.head? == some '|')
      obtain ⟨d, t, rfl⟩ := exists_cons_of_ne_nil hquotes.2
      rw [if_pos ⟨hquotes.1, hlt.mpr hquotes.2⟩, if_pos hquotes, hget]
      exact renders_some hrender hadv
    · obtain ⟨hlt, -, hadv⟩ := advances_newline hst.symm hst'.symm addQuotes
      have haq : st'.addQuotes = addQuotes := by
        rw [← hst', ← hst, insertReturn]
        split <;> rfl
      rw [if_neg fun h => hquotes ⟨h.1, hlt.mp h.2⟩, if_neg hquotes]
      rw [← haq] at hadv ⊢
      exact renders_some hrender hadv
  · rw [if_neg hnl, if_neg hnl]
    exact renders_some rfl (advances_skip addQuotes drop_left (.inl rfl))

theorem Cursor.eq_of_drop {c : Char}
    (h : st.s.drop st.pos = c :: t) :
    ∃ done, st.s.take st.pos = done ∧ st = ⟨done ++ c :: t, done.length, st.addQuotes⟩ := by
  have hlt : st.pos < st.s.length := by
    by_contra hge
    rw [drop_of_length_le (Nat.le_of_not_lt hge)] at h
    cases h
  refine ⟨_, rfl, ?_⟩
  rw [← h, take_append_drop, length_take, min_eq_left hlt.le]

/-- **The loop** renders the pieces of what is after the position. -/
theorem Cursor.loop_eq (u : UserData) (flags : UsprintfFlags) (n : ℕ) (st : Cursor)
    (hn : (st.s.drop st.pos).length ≤ n) :
    (Cursor.loop u flags n st).map Cursor.s =
      (render (piecesFrom u flags st.addQuotes 0 (st.s.drop st.pos))).map
        (st.s.take st.pos ++ ·) := by
  induction n generalizing st with
  | zero =>
    have hnil := length_eq_zero_iff.mp (Nat.le_zero.mp hn)
    have hs := take_append_drop st.pos st.s
    rw [hnil, append_nil] at hs
    rw [hnil, piecesFrom, render, Option.map_some, append_nil, hs]
    rfl
  | succ n ih =>
    rw [loop]
    cases hdrop : st.s.drop st.pos with
    | nil =>
      have hs := take_append_drop st.pos st.s
      rw [hdrop, append_nil] at hs
      rw [if_neg (Nat.not_lt.mpr (drop_eq_nil_iff.mp hdrop)), piecesFrom, render,
        Option.map_some, Option.map_some, append_nil, hs]
    | cons c t =>
      obtain ⟨done, htake, hst⟩ := eq_of_drop hdrop
      have hlt : st.pos < st.s.length := by
        rw [hst]
        simp
      have hstep := step_append u flags done t c st.addQuotes
      rw [← hst] at hstep
      rw [if_pos hlt, piecesFrom, piecesFrom_skip, render_append, htake]
      rw [Cursor.Renders] at hstep
      cases hrender : render (emit u flags st.addQuotes c t).pieces with
      | none =>
        rw [hrender] at hstep
        rw [show st.step u flags = none from hstep]
        rfl
      | some out =>
        rw [hrender] at hstep
        obtain ⟨st', hst', hadv⟩ := hstep
        have hlen : (st'.s.drop st'.pos).length ≤ n := by
          rw [hadv.after, length_drop]
          rw [hdrop, length_cons] at hn
          omega
        rw [hst', Option.bind_some, ih st' hlen, hadv.before, hadv.after, hadv.quotes, htake,
          Option.bind_some, Option.map_map]
        exact congrArg (fun f => Option.map f _)
          (funext fun b => (append_assoc done out b))

/-- **What `usprintf` returns** is what the pieces of the format render to: the cursor goes over the
format once, and nothing that is put in is read again. -/
theorem usprintf_eq (u : UserData) (flags : UsprintfFlags) (format : List Char) :
    usprintf u flags format = render (pieces u flags format) := by
  have hloop := Cursor.loop_eq u flags format.length ⟨format, 0, decide (flags.quotes = .quoteAll ∨
    (flags.quotes = .quotePipe ∧ format.head? = some '|'))⟩ le_rfl
  rw [usprintf, hloop]
  simp [pieces]

/-! ## Quoted values -/

/-- Where no pipe decides on it, every value is quoted as the first one is. -/
theorem quoted_of_mem_emit {u : UserData} {flags : UsprintfFlags}
    (hquotes : flags.quotes ≠ .quotePipe) {d : Char} :
    (∀ f quoted, Piece.field f quoted ∈ (emit u flags addQuotes d t).pieces → quoted = addQuotes) ∧
      (emit u flags addQuotes d t).addQuotes = addQuotes := by
  have hlit : ∀ (l : List Char) f quoted, Piece.field f quoted ∈ l.map Piece.lit →
      quoted = addQuotes := fun l f quoted hmem => by
    obtain ⟨x, -, hx⟩ := mem_map.mp hmem
    cases hx
  rw [Licq.emit]
  split
  · split
    · exact ⟨hlit _, rfl⟩
    · exact ⟨hlit _, rfl⟩
  · split
    · split
      · exact ⟨hlit _, rfl⟩
      · simp only
        split
        · exact ⟨hlit _, rfl⟩
        · exact ⟨fun f quoted hmem => (Piece.field.inj (mem_singleton.mp hmem)).2, rfl⟩
    · split
      · exact ⟨fun f quoted hmem => absurd hmem (by simp), if_neg fun h => hquotes h.1⟩
      · exact ⟨fun f quoted hmem => absurd hmem (by simp), rfl⟩

theorem quoted_of_mem_piecesFrom {u : UserData} {flags : UsprintfFlags}
    (hquotes : flags.quotes ≠ .quotePipe) {f : Field} {quoted : Bool}
    (h : Piece.field f quoted ∈ piecesFrom u flags addQuotes n t) : quoted = addQuotes := by
  induction t generalizing n with
  | nil => cases n <;> exact absurd h not_mem_nil
  | cons d t ih =>
    cases n with
    | succ n => exact ih h
    | zero =>
      rw [piecesFrom, (quoted_of_mem_emit hquotes).2] at h
      rcases mem_append.mp h with h | h
      · exact (quoted_of_mem_emit hquotes).1 f quoted h
      · exact ih h

end Licq
