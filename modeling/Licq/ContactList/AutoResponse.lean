import Licq.ContactList.Usprintf
import Licq.IniFile.File

/-!
# ContactList/AutoResponse — commands in an automatic response

`makeAutoResponse` expands the response of the owner and then runs every line of the result that
begins with a bar, in place.  `commandLines` says from the template what is to be run: its lines
that begin with a bar, expanded.  `runsTemplate_iff` says exactly when this is what is run.  The
expanded text is searched, and its lines end with `\r\n`: so a command is run as its line says only
at the very end of the text, and a value can begin a command of its own.
-/

namespace Licq

open Text IniFile List Option

/-! ## Running the lines of a text -/

/-- A command that is run, with how far from the end of the text its bar stands. -/
structure Command where
  fromEnd : ℕ
  command : List Char
  deriving DecidableEq, Repr

/-- The text, the position in it, and the commands that were run. -/
structure Expansion where
  m : List Char
  posPipe : ℕ
  executed : List Command
  deriving DecidableEq, Repr

/-- The next bar is looked at; `output` is what each command writes. -/
def Expansion.step (output : ℕ → List Char) (st : Expansion) : Option Expansion :=
  match findFrom ['|'] st.m st.posPipe with
  | none => none
  | some posPipe =>
    -- Pipe char isn't at beginning of a line, ignore it
    if posPipe ≠ 0 ∧ st.m.getD (posPipe - 1) nul ≠ '\n' then
      some { st with posPipe := posPipe + 1 }
    else
      -- Find end of command
      let posEnd := (findFrom ['\n'] st.m (posPipe + 1)).getD st.m.length
      let cmdLen := posEnd - posPipe - 1
      let command := (st.m.drop (posPipe + 1)).take cmdLen
      let out := output st.executed.length
      some
        { m := st.m.take posPipe ++ out ++ st.m.drop (posPipe + cmdLen + 2)
          posPipe := posPipe + out.length
          executed := st.executed ++ [⟨st.m.length - posPipe, cString command⟩] }

/-- The loop; what is left of the text bounds how often it goes round. -/
def Expansion.loop (output : ℕ → List Char) : ℕ → Expansion → Expansion
  | 0, st => st
  | n + 1, st =>
    match st.step output with
    | none => st
    | some st' => Expansion.loop output n st'

def runCommands (output : ℕ → List Char) (m : List Char) : Expansion :=
  Expansion.loop output (m.length + 1) ⟨m, 0, []⟩

/-! ## The response -/

def onlineStatus : ℕ := 1

/-- The owner and the user whom the response is for. -/
structure Responder where
  ownerStatus : ℕ
  statusToUser : ℕ
  autoResponse : List Char
  customAutoResponse : List Char
  deriving DecidableEq, Repr

/-- The status that the user is to see is offline. -/
def Responder.Offline (r : Responder) : Prop :=
  (if r.statusToUser ≠ 0 ∧ r.statusToUser ≠ onlineStatus then r.statusToUser else r.ownerStatus) = 0

instance (r : Responder) : Decidable r.Offline := inferInstanceAs (Decidable (_ = _))

def autoResponseFlags : UsprintfFlags := ⟨.quotePipe, true, true⟩

def separator : List Char := '\r' :: '\n' :: List.replicate 20 '-' ++ ['\r', '\n']

/-- The expanded text. -/
def autoResponseText (u : UserData) (r : Responder) : Option (List Char) :=
  (usprintf u autoResponseFlags r.autoResponse).bind fun m =>
    if r.customAutoResponse.isEmpty then some m
    else (usprintf u autoResponseFlags r.customAutoResponse).map fun c => m ++ separator ++ c

/-- `User::makeAutoResponse`: the response and the commands that were run; there is no result where
an exception is thrown. -/
def makeAutoResponse (u : UserData) (r : Responder) (output : ℕ → List Char) :
    Option (List Char × List Command) :=
  if r.Offline then some ([], [])
  else
    (autoResponseText u r).map fun m =>
      ((runCommands output m).m, (runCommands output m).executed)

/-! ## The lines of the template -/

/-- The template. -/
def templatePieces (u : UserData) (r : Responder) : List Piece :=
  pieces u autoResponseFlags r.autoResponse ++
    if r.customAutoResponse.isEmpty then []
    else .newline true :: List.replicate 20 (.lit '-') ++ .newline true ::
      pieces u autoResponseFlags r.customAutoResponse

def textOf (ps : List Piece) : List Char := ps.flatMap Piece.text

def Piece.isNewline : Piece → Bool
  | .newline _ => true
  | _ => false

/-- What is before the end of the line. -/
def lineOf (ps : List Piece) : List Piece := ps.takeWhile fun p => !p.isNewline

/-- The lines of the template that begin with a bar, expanded. -/
def commandLines : Bool → List Piece → List Command
  | _, [] => []
  | lineStart, .lit c :: ps =>
    if lineStart ∧ c = '|' then
      ⟨(textOf ps).length + 1, textOf (lineOf ps)⟩ :: commandLines false ps
    else commandLines false ps
  | _, .newline _ :: ps => commandLines true ps
  | _, .field _ _ :: ps => commandLines false ps

/-- A response is made, and the commands that are run are the lines of the template that begin with
a bar. -/
def RunsTemplate (u : UserData) (r : Responder) (output : ℕ → List Char) : Prop :=
  ∃ m, makeAutoResponse u r output =
    some (m, if r.Offline then [] else commandLines true (templatePieces u r))

/-- What comes next begins a line. -/
def LineStart (a : List Char) : Prop := a = [] ∨ a.getLast? = some '\n'

/-- All values fit; and where a bar begins a line of the expanded text, it begins a line of the
template, and there is no further line and no null byte. -/
structure OnlyLastLine (u : UserData) (r : Responder) : Prop where
  fits : ∀ f quoted, Piece.field f quoted ∈ templatePieces u r → f.Fits
  last : ∀ a b, textOf (templatePieces u r) = a ++ '|' :: b → LineStart a →
    '\n' ∉ b ∧ nul ∉ b ∧
      b.length + 1 ∈ (commandLines true (templatePieces u r)).map Command.fromEnd

/-! ## What the loop runs -/

theorem lineStart_check_iff (a b : List Char) :
    (a.length ≠ 0 ∧ (a ++ b).getD (a.length - 1) nul ≠ '\n') ↔ ¬ LineStart a := by
  rw [LineStart]
  obtain rfl | hne := eq_or_ne a []
  · simp
  · have hlen : 0 < a.length := length_pos_iff.mpr hne
    have hget : (a ++ b).getD (a.length - 1) nul = a.getLast hne := by
      rw [getD_eq_getElem?_getD, getElem?_append_left (by omega),
        ← List.getLast?_eq_getElem?, getLast?_eq_some_getLast hne, getD_some]
    rw [hget, getLast?_eq_some_getLast hne, some.injEq, not_or]
    exact and_congr_left fun _ => by simp

variable {c : Char} {done b m a : List Char} {u : UserData}

theorem find_eq_none_of_notMem {s : List Char} (h : c ∉ s) : find [c] s = none := by
  have hskip := find_append_of_notMem (p := []) h []
  rwa [append_nil] at hskip

/-- A bar in the middle of a line is skipped. -/
theorem Expansion.step_skip (output : ℕ → List Char) {y c : List Char} (hy : '|' ∉ y)
    (hline : ¬ LineStart (done ++ y)) (executed : List Command) :
    Expansion.step output ⟨done ++ (y ++ '|' :: c), done.length, executed⟩ =
      some ⟨(done ++ y ++ ['|']) ++ c, (done ++ y ++ ['|']).length, executed⟩ := by
  have hpos : y.length + done.length = (done ++ y).length := by
    rw [length_append, Nat.add_comm]
  rw [step]
  simp only [findFrom_append, find_nl hy, map_some, hpos]
  rw [← append_assoc, if_pos ((lineStart_check_iff _ _).mpr hline)]
  simp [Nat.add_assoc]

/-- The line that a text begins with, and what is after it. -/
def firstLine (b : List Char) : List Char := b.takeWhile (· ≠ '\n')

def afterLine (b : List Char) : List Char := (b.dropWhile (· ≠ '\n')).drop 1

theorem firstLine_of_notMem (h : '\n' ∉ b) : firstLine b = b ∧ afterLine b = [] := by
  have hall : ∀ c ∈ b, decide (c ≠ '\n') = true := fun c hc =>
    decide_eq_true fun heq => h (heq ▸ hc)
  refine ⟨takeWhile_eq_self_iff.mpr hall, ?_⟩
  rw [afterLine, dropWhile_eq_nil_iff.mpr hall]
  rfl

theorem firstLine_append {l : List Char} (h : '\n' ∉ l) (t : List Char) :
    firstLine (l ++ '\n' :: t) = l ∧ afterLine (l ++ '\n' :: t) = t := by
  have hall : ∀ c ∈ l, decide (c ≠ '\n') = true := fun c hc =>
    decide_eq_true fun heq => h (heq ▸ hc)
  constructor
  · rw [firstLine, takeWhile_append_of_pos hall]
    simp
  · rw [afterLine, dropWhile_append_of_pos hall]
    simp

/-- The end of the line that begins after a position. -/
theorem findFrom_newline (a b : List Char) (c : Char) :
    (findFrom ['\n'] (a ++ c :: b) (a.length + 1)).getD (a ++ c :: b).length =
      a.length + 1 + (firstLine b).length ∧
    b.take (firstLine b).length = firstLine b ∧ b.drop ((firstLine b).length + 1) = afterLine b := by
  rw [findFrom, drop_append_cons a b c 0, drop_zero]
  by_cases hmem : '\n' ∈ b
  · obtain ⟨l, t, rfl, hl⟩ := eq_append_cons_of_mem hmem
    rw [find_nl hl, (firstLine_append hl t).1, (firstLine_append hl t).2, map_some,
      getD_some, take_left, ← drop_drop, drop_left]
    exact ⟨Nat.add_comm _ _, rfl, rfl⟩
  · rw [find_eq_none_of_notMem hmem, (firstLine_of_notMem hmem).1, (firstLine_of_notMem hmem).2,
      take_length, drop_of_length_le (Nat.le_succ _)]
    refine ⟨?_, rfl, rfl⟩
    rw [map_none, getD_none, length_append, length_cons]
    omega

/-- A bar at the beginning of a line runs the line. -/
theorem Expansion.step_run (output : ℕ → List Char) {x : List Char} (hx : '|' ∉ x)
    (hline : LineStart (done ++ x)) (executed : List Command) :
    Expansion.step output ⟨done ++ (x ++ '|' :: b), done.length, executed⟩ =
      some ⟨(done ++ x ++ output executed.length) ++ afterLine b,
        (done ++ x ++ output executed.length).length,
        executed ++ [⟨b.length + 1, cString (firstLine b)⟩]⟩ := by
  have hpos : x.length + done.length = (done ++ x).length := by
    rw [length_append, Nat.add_comm]
  obtain ⟨hend, htake, hdrop⟩ := findFrom_newline (done ++ x) b '|'
  rw [step]
  simp only [findFrom_append, find_nl hx, map_some, hpos]
  rw [← append_assoc, if_neg (fun h => (lineStart_check_iff _ _).mp h hline)]
  simp only [hend]
  have hlen : (done ++ x).length + 1 + (firstLine b).length - (done ++ x).length - 1 =
      (firstLine b).length := by omega
  have hend' : (done ++ x).length + (firstLine b).length + 2 =
      (done ++ x).length + ((firstLine b).length + 1) + 1 := by omega
  have hafter : (done ++ x ++ '|' :: b).drop ((done ++ x).length + 1) = b :=
    drop_append_cons (done ++ x) b '|' 0
  have hfromEnd : (done ++ x ++ '|' :: b).length - (done ++ x).length = b.length + 1 := by
    simp only [length_append, length_cons]
    omega
  rw [hlen, hend', drop_append_cons, hdrop, take_left, hafter, htake, hfromEnd,
    ← length_append]

/-- Without a bar the loop is done. -/
theorem Expansion.step_none (output : ℕ → List Char) {rest : List Char} (h : '|' ∉ rest)
    (executed : List Command) :
    Expansion.step output ⟨done ++ rest, done.length, executed⟩ = none := by
  rw [step]
  simp only [findFrom_append, find_eq_none_of_notMem h, map_none]

/-- **No bar at the beginning of a line**: nothing is run. -/
theorem Expansion.loop_noBar (output : ℕ → List Char) (n : ℕ) {done rest : List Char}
    (h : ∀ x b, rest = x ++ '|' :: b → ¬ LineStart (done ++ x)) (executed : List Command) :
    (Expansion.loop output n ⟨done ++ rest, done.length, executed⟩).executed = executed := by
  induction n generalizing done rest with
  | zero => rfl
  | succ n ih =>
    rw [loop]
    by_cases hmem : '|' ∈ rest
    · obtain ⟨y, c, rfl, hy⟩ := eq_append_cons_of_mem hmem
      rw [step_skip output hy (h y c rfl)]
      refine ih fun x b hx => ?_
      have hline := h (y ++ '|' :: x) b (by rw [hx, append_assoc, cons_append])
      have heq : done ++ (y ++ '|' :: x) = done ++ y ++ ['|'] ++ x := by simp
      rwa [heq] at hline
    · rw [step_none output hmem]

theorem Expansion.executed_step {output : ℕ → List Char} {st st' : Expansion}
    (h : st.step output = some st') : ∃ l, st'.executed = st.executed ++ l := by
  rw [step] at h
  split at h
  · cases h
  · split at h
    · cases h
      exact ⟨[], (append_nil _).symm⟩
    · cases h
      exact ⟨_, rfl⟩

/-- What was run stays run. -/
theorem Expansion.executed_loop (output : ℕ → List Char) (n : ℕ) (st : Expansion) :
    ∃ l, (Expansion.loop output n st).executed = st.executed ++ l := by
  induction n generalizing st with
  | zero => exact ⟨[], (append_nil _).symm⟩
  | succ n ih =>
    rw [loop]
    cases hstep : st.step output with
    | none => exact ⟨[], (append_nil _).symm⟩
    | some st' =>
      obtain ⟨l, hl⟩ := executed_step hstep
      obtain ⟨l', hl'⟩ := ih st'
      exact ⟨l ++ l', by rw [hl', hl, append_assoc]⟩

/-- **The first bar at the beginning of a line**: its line is run first, and nothing else if it is
the last line. -/
theorem Expansion.loop_bar (output : ℕ → List Char) {done x b : List Char}
    (hline : LineStart (done ++ x))
    (hfirst : ∀ y c, x = y ++ '|' :: c → ¬ LineStart (done ++ y)) {n : ℕ} (hn : x.length < n)
    (executed : List Command) :
    ∃ l, (Expansion.loop output n ⟨done ++ (x ++ '|' :: b), done.length, executed⟩).executed =
      executed ++ [⟨b.length + 1, cString (firstLine b)⟩] ++ l ∧ ('\n' ∉ b → l = []) := by
  induction n generalizing done x with
  | zero => exact absurd hn (Nat.not_lt_zero _)
  | succ n ih =>
    rw [loop]
    by_cases hmem : '|' ∈ x
    · obtain ⟨y, c, rfl, hy⟩ := eq_append_cons_of_mem hmem
      rw [append_assoc, cons_append, step_skip output hy (hfirst y c rfl)]
      have heq : ∀ z, done ++ (y ++ '|' :: z) = done ++ y ++ ['|'] ++ z := fun z => by simp
      refine ih (by rwa [← heq]) (fun z d hz => ?_) ?_
      · rw [← heq]
        exact hfirst _ d (by rw [hz, append_assoc, cons_append])
      · rw [length_append, length_cons] at hn
        omega
    · rw [step_run output hmem hline]
      simp only
      by_cases hnl : '\n' ∈ b
      · obtain ⟨l, hl⟩ := executed_loop output n ⟨(done ++ x ++ output executed.length) ++ afterLine b,
          (done ++ x ++ output executed.length).length,
          executed ++ [⟨b.length + 1, cString (firstLine b)⟩]⟩
        exact ⟨l, hl, fun h => absurd hnl h⟩
      · refine ⟨[], ?_, fun _ => rfl⟩
        have hnone : ∀ y c : List Char, [] = y ++ '|' :: c →
            ¬ LineStart (done ++ x ++ output executed.length ++ y) := fun y c h =>
          absurd h.symm (by simp)
        rw [(firstLine_of_notMem hnl).2, loop_noBar output n hnone, append_nil]

/-! ## What the template wants run -/

theorem toDos_of_mem_piecesFrom {flags : UsprintfFlags} {toDos : Bool}
    {t : List Char} {addQuotes : Bool} {n : ℕ}
    (h : Piece.newline toDos ∈ piecesFrom u flags addQuotes n t) : toDos = flags.toDos := by
  induction t generalizing addQuotes n with
  | nil => cases n <;> exact absurd h not_mem_nil
  | cons d t ih =>
    cases n with
    | succ n => exact ih h
    | zero =>
      rcases mem_append.mp h with h | h
      · have hlit : ∀ l : List Char, Piece.newline toDos ∉ l.map Piece.lit := fun l hmem => by
          obtain ⟨x, -, hx⟩ := mem_map.mp hmem
          cases hx
        rw [emit] at h
        split at h
        · split at h
          · exact absurd h (hlit _)
          · exact absurd h (hlit _)
        · split at h
          · split at h
            · exact absurd h (hlit _)
            · simp only at h
              split at h
              · exact absurd h (hlit _)
              · simp at h
          · split at h
            · exact Piece.newline.inj (mem_singleton.mp h)
            · simp at h
      · exact ih h

/-- Every line of the template ends with a carriage return and a line feed. -/
theorem toDos_of_mem_templatePieces {r : Responder} {toDos : Bool}
    (h : Piece.newline toDos ∈ templatePieces u r) : toDos = true := by
  rw [templatePieces] at h
  rcases mem_append.mp h with h | h
  · exact toDos_of_mem_piecesFrom h
  · split at h
    · exact absurd h not_mem_nil
    · simp only [cons_append, mem_cons, mem_append, mem_replicate,
        Piece.newline.injEq, reduceCtorEq, and_false, false_or] at h
      obtain h | h | h := h
      · exact h
      · exact h
      · exact toDos_of_mem_piecesFrom h

/-- A line, and the end of the line if there is one. -/
theorem textOf_line {ps : List Piece} (hdos : ∀ toDos, Piece.newline toDos ∈ ps → toDos = true) :
    textOf ps = textOf (lineOf ps) ∨
      ∃ t, textOf ps = textOf (lineOf ps) ++ '\r' :: '\n' :: t := by
  induction ps with
  | nil => exact .inl rfl
  | cons p ps ih =>
    have ih := ih fun toDos h => hdos toDos (mem_cons_of_mem p h)
    cases hp : p.isNewline with
    | true =>
      cases p with
      | newline toDos =>
        obtain rfl := hdos toDos mem_cons_self
        exact .inr ⟨textOf ps, rfl⟩
      | lit c => cases hp
      | field f quoted => cases hp
    | false =>
      have hline : lineOf (p :: ps) = p :: lineOf ps := by
        rw [lineOf, takeWhile_cons, hp]
        rfl
      have hcons : ∀ qs, textOf (p :: qs) = p.text ++ textOf qs := fun qs => flatMap_cons
      rw [hline, hcons, hcons]
      obtain h | ⟨t, h⟩ := ih
      · exact .inl (by rw [← h])
      · exact .inr ⟨t, by rw [h, append_assoc]⟩

/-- Where a line of the template that is to be run stands in the text. -/
theorem exists_of_mem_commandLines {ps : List Piece} {lineStart : Bool} {command : Command}
    (h : command ∈ commandLines lineStart ps) :
    ∃ qs rest, ps = qs ++ .lit '|' :: rest ∧
      ((lineStart = true ∧ qs = []) ∨ ∃ toDos, qs.getLast? = some (.newline toDos)) ∧
      command = ⟨(textOf rest).length + 1, textOf (lineOf rest)⟩ := by
  induction ps generalizing lineStart with
  | nil => exact absurd h not_mem_nil
  | cons p ps ih =>
    have hrest : ∀ lineStart', command ∈ commandLines lineStart' ps →
        (lineStart' = true → ∃ toDos, p = .newline toDos) → ∃ qs rest, p :: ps = qs ++ .lit '|' :: rest ∧
        ((lineStart = true ∧ qs = []) ∨ ∃ toDos, qs.getLast? = some (.newline toDos)) ∧
        command = ⟨(textOf rest).length + 1, textOf (lineOf rest)⟩ := by
      intro lineStart' hmem hp
      obtain ⟨qs, rest, rfl, hqs, hcommand⟩ := ih hmem
      refine ⟨p :: qs, rest, rfl, .inr ?_, hcommand⟩
      obtain ⟨hstart, rfl⟩ | ⟨toDos, hlast⟩ := hqs
      · obtain ⟨toDos, rfl⟩ := hp hstart
        exact ⟨toDos, rfl⟩
      · refine ⟨toDos, ?_⟩
        rw [getLast?_cons, hlast, getD_some]
    cases p with
    | newline toDos => exact hrest true h fun _ => ⟨toDos, rfl⟩
    | field f quoted => exact hrest false h nofun
    | lit c =>
      rw [commandLines] at h
      split at h
      · rename_i hbar
        rcases mem_cons.mp h with rfl | h
        · exact ⟨[], ps, by rw [hbar.2]; rfl, .inl ⟨hbar.1, rfl⟩, rfl⟩
        · exact hrest false h nofun
      · exact hrest false h nofun

/-- The commands stand one after the other. -/
theorem pairwise_commandLines (lineStart : Bool) (ps : List Piece) :
    (commandLines lineStart ps).Pairwise (·.fromEnd > ·.fromEnd) ∧
      ∀ c ∈ commandLines lineStart ps, c.fromEnd ≤ (textOf ps).length := by
  induction ps generalizing lineStart with
  | nil => exact ⟨List.Pairwise.nil, nofun⟩
  | cons p ps ih =>
    have hlen : (textOf ps).length ≤ (textOf (p :: ps)).length := by
      rw [textOf, textOf, flatMap_cons, length_append]
      omega
    have hrest : ∀ lineStart', (commandLines lineStart' ps).Pairwise (·.fromEnd > ·.fromEnd) ∧
        ∀ c ∈ commandLines lineStart' ps, c.fromEnd ≤ (textOf (p :: ps)).length :=
      fun lineStart' => ⟨(ih lineStart').1, fun c hc => ((ih lineStart').2 c hc).trans hlen⟩
    cases p with
    | newline toDos => exact hrest true
    | field f quoted => exact hrest false
    | lit c =>
      rw [commandLines]
      split
      · refine ⟨pairwise_cons.mpr ⟨fun d hd => ?_, (ih false).1⟩, fun d hd => ?_⟩
        · have := (ih false).2 d hd
          simp only
          omega
        · rcases mem_cons.mp hd with rfl | hd
          · have hcons : textOf (.lit c :: ps) = c :: textOf ps := rfl
            rw [hcons, length_cons]
          · exact (hrest false).2 d hd
      · exact hrest false

/-! ## When the lines of the template are run -/

/-- The expanded text is what the template renders to. -/
theorem autoResponseText_eq (u : UserData) (r : Responder) :
    autoResponseText u r = render (templatePieces u r) := by
  rw [autoResponseText, templatePieces, render_append, usprintf_eq]
  split
  · refine Option.bind_congr fun m _ => ?_
    rw [render, Option.map_some, append_nil]
  · refine Option.bind_congr fun m _ => ?_
    have hseparator : render (.newline true :: replicate 20 (.lit '-') ++ [.newline true]) =
        some separator := by decide +kernel
    rw [append_cons, render_append, hseparator, Option.bind_some, usprintf_eq, Option.map_map]
    exact congrArg (fun f => Option.map f _) (funext fun c => append_assoc m separator c)

/-- The first of the bars that begin a line. -/
theorem exists_first_bar (n : ℕ) (hn : a.length ≤ n) (hm : m = a ++ '|' :: b)
    (hline : LineStart a) : ∃ a b, m = a ++ '|' :: b ∧ LineStart a ∧
      ∀ y c, a = y ++ '|' :: c → ¬ LineStart y := by
  induction n generalizing a b with
  | zero =>
    refine ⟨a, b, hm, hline, fun y c h => ?_⟩
    rw [length_eq_zero_iff.mp (Nat.le_zero.mp hn)] at h
    exact absurd h.symm (by simp)
  | succ n ih =>
    by_cases hfirst : ∃ y c, a = y ++ '|' :: c ∧ LineStart y
    · obtain ⟨y, c, rfl, hy⟩ := hfirst
      rw [length_append, length_cons] at hn
      exact ih (by omega) (by rw [hm, append_assoc, cons_append]) hy
    · exact ⟨a, b, hm, hline, fun y c h hy => hfirst ⟨y, c, h, hy⟩⟩

/-- If there is no line after the first bar that begins a line, it is the only one. -/
theorem bar_unique {a₀ b₀ : List Char} (h : a ++ '|' :: b = a₀ ++ '|' :: b₀)
    (hline : LineStart a) (hfirst : ∀ y c, a₀ = y ++ '|' :: c → ¬ LineStart y)
    (hnl : '\n' ∉ b₀) : b = b₀ := by
  obtain ⟨x, hx, hb⟩ | ⟨x, rfl, hb⟩ := append_eq_append_iff.mp h
  · cases x with
    | nil => exact (List.cons.inj hb).2
    | cons c x =>
      obtain ⟨rfl, -⟩ := List.cons.inj hb
      exact absurd hline (hfirst a x hx)
  · cases x with
    | nil => exact (List.cons.inj hb).2.symm
    | cons c x =>
      obtain ⟨rfl, hb'⟩ := List.cons.inj hb
      obtain hnil | hlast := hline
      · exact absurd hnil (by simp)
      · have hmem : '\n' ∈ x := by
          rw [getLast?_append_cons] at hlast
          have hmem := mem_of_getLast? hlast
          rcases mem_cons.mp hmem with h | h
          · exact absurd h (by decide)
          · exact h
        exact absurd (hb' ▸ mem_append_left _ hmem) hnl

theorem executed_noBar (output : ℕ → List Char)
    (h : ∀ a b, m = a ++ '|' :: b → ¬ LineStart a) : (runCommands output m).executed = [] := by
  have hloop := @Expansion.loop_noBar output (m.length + 1) [] m h []
  exact hloop

theorem executed_bar (output : ℕ → List Char) (hm : m = a ++ '|' :: b)
    (hline : LineStart a) (hfirst : ∀ y c, a = y ++ '|' :: c → ¬ LineStart y) :
    ∃ l, (runCommands output m).executed = ⟨b.length + 1, cString (firstLine b)⟩ :: l ∧
      ('\n' ∉ b → l = []) := by
  subst hm
  have hlen : a.length < (a ++ '|' :: b).length + 1 := by
    rw [length_append]
    omega
  have hloop := @Expansion.loop_bar output [] a b hline hfirst _ hlen []
  exact hloop

/-- A line of the template that is to be run is a line of the text. -/
theorem bar_of_mem_commandLines {r : Responder} {command : Command}
    (h : command ∈ commandLines true (templatePieces u r)) :
    ∃ a b, textOf (templatePieces u r) = a ++ '|' :: b ∧ LineStart a ∧
      command.fromEnd = b.length + 1 ∧
      (b = command.command ∨ ∃ t, b = command.command ++ '\r' :: '\n' :: t) := by
  obtain ⟨qs, rest, hps, hqs, rfl⟩ := exists_of_mem_commandLines h
  refine ⟨textOf qs, textOf rest, ?_, ?_, rfl, ?_⟩
  · rw [hps, textOf, flatMap_append, flatMap_cons]
    rfl
  · obtain ⟨-, rfl⟩ | ⟨toDos, hlast⟩ := hqs
    · exact .inl rfl
    · obtain ⟨init, rfl⟩ := getLast?_eq_some_iff.mp hlast
      refine .inr ?_
      rw [textOf, flatMap_append, flatMap_singleton]
      cases toDos with
      | true => simp [Piece.text, Piece.render]
      | false => simp [Piece.text, Piece.render]
  · exact textOf_line fun toDos hmem => toDos_of_mem_templatePieces (u := u) (r := r) (by
      rw [hps]
      exact mem_append_right _ (mem_cons_of_mem _ hmem))

theorem mem_of_mem_cString {s : List Char} (h : c ∈ cString s) : c ∈ s :=
  (takeWhile_sublist _).mem h

theorem mem_firstLine (h : c ∈ firstLine b) : c ∈ b ∧ c ≠ '\n' :=
  ⟨(takeWhile_sublist _).mem h, by simpa using mem_takeWhile_imp h⟩

/-- A line that is run as it is in the template is the last line. -/
theorem last_of_command_eq {command : List Char} (hrun : cString (firstLine b) = command)
    (hb : b = command ∨ ∃ t, b = command ++ '\r' :: '\n' :: t) : '\n' ∉ b ∧ nul ∉ b := by
  have hnl : '\n' ∉ command := fun h =>
    (mem_firstLine (mem_of_mem_cString (hrun ▸ h))).2 rfl
  have hnul : nul ∉ command := fun h => nul_notMem_cString _ (hrun ▸ h)
  obtain rfl | ⟨t, rfl⟩ := hb
  · exact ⟨hnl, hnul⟩
  · have hline : firstLine (command ++ '\r' :: '\n' :: t) = command ++ ['\r'] := by
      have happend := (firstLine_append (l := command ++ ['\r']) (by simp [hnl]) t).1
      rwa [append_assoc] at happend
    have hnul' : nul ∉ command ++ ['\r'] := fun h =>
      (mem_append.mp h).elim hnul (by decide)
    rw [hline, cString_of_notMem hnul'] at hrun
    exact absurd hrun (by simp)

/-- The lines of the template that begin with a bar are what is run from the text, exactly when a
bar begins a line of the text only as the bar of the template's last line. -/
theorem executed_eq_commandLines_iff (u : UserData) (r : Responder) (output : ℕ → List Char) :
    (runCommands output (textOf (templatePieces u r))).executed =
        commandLines true (templatePieces u r) ↔
      ∀ a b, textOf (templatePieces u r) = a ++ '|' :: b → LineStart a →
        '\n' ∉ b ∧ nul ∉ b ∧
          b.length + 1 ∈ (commandLines true (templatePieces u r)).map Command.fromEnd := by
  constructor
  · intro hrun a b hm hline
    obtain ⟨a₀, b₀, hm₀, hline₀, hfirst⟩ := exists_first_bar a.length le_rfl hm hline
    obtain ⟨l, hl, -⟩ := executed_bar output hm₀ hline₀ hfirst
    have hmem : (⟨b₀.length + 1, cString (firstLine b₀)⟩ : Command) ∈
        commandLines true (templatePieces u r) := by
      rw [← hrun, hl]
      exact mem_cons_self
    obtain ⟨a₁, b₁, hm₁, -, hlen, hcommand⟩ := bar_of_mem_commandLines hmem
    have hb : b₁ = b₀ := by
      have hlen' : ('|' :: b₁).length = ('|' :: b₀).length := hlen.symm
      exact (List.cons.inj (append_inj' (hm₁.symm.trans hm₀) hlen').2).2
    subst hb
    obtain ⟨hnl, hnul⟩ := last_of_command_eq rfl hcommand
    obtain rfl := bar_unique (hm.symm.trans hm₀) hline hfirst hnl
    exact ⟨hnl, hnul, mem_map.mpr ⟨_, hmem, rfl⟩⟩
  · intro hlast
    by_cases hbar : ∃ a b, textOf (templatePieces u r) = a ++ '|' :: b ∧ LineStart a
    · obtain ⟨a, b, hm, hline⟩ := hbar
      obtain ⟨a₀, b₀, hm₀, hline₀, hfirst⟩ := exists_first_bar a.length le_rfl hm hline
      obtain ⟨hnl, hnul, hmem⟩ := hlast a₀ b₀ hm₀ hline₀
      obtain ⟨l, hl, hnil⟩ := executed_bar output hm₀ hline₀ hfirst
      rw [hl, hnil hnl, (firstLine_of_notMem hnl).1, cString_of_notMem hnul]
      -- Every line that is to be run is the one that is run
      have hall : ∀ c ∈ commandLines true (templatePieces u r), c = ⟨b₀.length + 1, b₀⟩ := by
        intro c hc
        obtain ⟨a₁, b₁, hm₁, hline₁, hlen, hcommand⟩ := bar_of_mem_commandLines hc
        obtain rfl := bar_unique (hm₁.symm.trans hm₀) hline₁ hfirst hnl
        obtain hb | ⟨t, ht⟩ := hcommand
        · cases c
          simp only [Command.mk.injEq]
          exact ⟨hlen, hb.symm⟩
        · exact absurd (ht ▸ by simp : '\n' ∈ b₁) hnl
      obtain ⟨hpair, -⟩ := pairwise_commandLines true (templatePieces u r)
      revert hall hmem hpair
      cases commandLines true (templatePieces u r) with
      | nil => exact fun h => absurd h not_mem_nil
      | cons c cs =>
        intro _ hall hpair
        obtain rfl := hall c mem_cons_self
        cases cs with
        | nil => rfl
        | cons d cs =>
          obtain rfl := hall d (mem_cons_of_mem _ mem_cons_self)
          have hlt := (pairwise_cons.mp hpair).1 _ mem_cons_self
          exact absurd hlt (lt_irrefl _)
    · have hnone : ∀ a b, textOf (templatePieces u r) = a ++ '|' :: b → ¬ LineStart a :=
        fun a b hm hline => hbar ⟨a, b, hm, hline⟩
      rw [executed_noBar output hnone, eq_comm, eq_nil_iff_forall_not_mem]
      intro c hc
      obtain ⟨a, b, hm, hline, -⟩ := bar_of_mem_commandLines hc
      exact hnone a b hm hline

end Licq
