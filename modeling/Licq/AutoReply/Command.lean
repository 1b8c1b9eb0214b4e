import Licq.ContactList.Usprintf
import Licq.IniFile.File
import Licq.Text.ShellWords

/-!
# AutoReply/Command — the command line of the auto replyer

For an event of a contact `autoReplyEvent` appends its arguments, with the data of the contact put in,
to the name of its program, gives the line to a shell, and sends back what the program writes.

The values are put in as they are.  `RunsAsConfigured` says that the shell finds the program and its
arguments, with each value as contents of the word that names it; `runsAsConfigured_iff` says when:
no value has a character that means something to the shell, and none makes a word vanish or begin a
comment.
-/

namespace Licq.AutoReply

open Shell IniFile List

/-! ## The plugin -/

/-- `CLicqAutoReply`, as far as `autoReplyEvent` reads its settings. -/
structure CLicqAutoReply where
  myProgram : List Char
  myArguments : List Char
  failOnExitCode : Bool
  abortDeleteOnExitCode : Bool
  sendThroughServer : Bool

/-- What the handling of an event takes from the daemon: running a command with an input, which
gives its output and exit code unless an exception is thrown, the conversion of the output, and
sending a message, which gives a tag. -/
structure Daemon where
  exec : List Char → List Char → Option (List Char × ℤ)
  toUtf8 : List Char → List Char
  sendMessage : List Char → Bool → ℕ

/-- The handling of an event: the command that the shell was given, the message that was sent and
whether directly, and whether the event counts as answered. -/
structure Reply where
  command : List Char
  sent : Option (List Char × Bool)
  answered : Bool

/-- The flags that `usprintf` has by default. -/
def usprintfFlags : UsprintfFlags := ⟨.quoteNone, false, true⟩

def CLicqAutoReply.command (a : CLicqAutoReply) (u : UserData) : Option (List Char) :=
  (usprintf u usprintfFlags a.myArguments).map fun arguments => a.myProgram ++ ' ' :: arguments

/-- `CLicqAutoReply::autoReplyEvent`; there is no reply where `usprintf` throws. -/
def autoReplyEvent (d : Daemon) (a : CLicqAutoReply) (u : UserData) (text : List Char) :
    Option Reply :=
  (a.command u).map fun command =>
    match d.exec (cString command) (text ++ ['\n']) with
    | none => ⟨cString command, none, false⟩
    | some (output, r) =>
      if a.failOnExitCode ∧ r ≠ 0 then ⟨cString command, none, !a.abortDeleteOnExitCode⟩
      else
        let message := d.toUtf8 output
        ⟨cString command, some (message, !a.sendThroughServer),
          d.sendMessage message (!a.sendThroughServer) != 0⟩

/-! ## The words of the template -/

/-- A blank of the template. -/
def isSeparator : Piece → Bool
  | .lit c => isBlank c
  | _ => false

/-- What a piece stands for, without the blanks that pad a value. -/
def contents : Piece → List Char
  | .lit c => [c]
  | .newline toDos => if toDos then ['\r', '\n'] else ['\n']
  | .field f _ => f.value

/-- The words of the arguments, each as the pieces that name it. -/
def templateWords (a : CLicqAutoReply) (u : UserData) : List (List Piece) :=
  splitFrom isSeparator [] (pieces u usprintfFlags a.myArguments)

/-- **What the claim is**: the shell runs the program with the words of the template, each with the
values as its contents. -/
def RunsAsConfigured (d : Daemon) (a : CLicqAutoReply) (u : UserData) (text : List Char) : Prop :=
  split a.myProgram ≠ [] ∧ ∃ reply, autoReplyEvent d a u text = some reply ∧
    argv reply.command =
      some (split a.myProgram ++ (templateWords a u).map fun w => w.flatMap contents)

/-- A word that reaches the shell and is taken as it stands. -/
def PlainWord (word : List Char) : Prop := Ordinary word ∧ nul ∉ word

/-- The values fit their widths, the program is the name of a command with plain words, and each word
of the template is one plain word: padding stands at its ends only. -/
structure Plain (a : CLicqAutoReply) (u : UserData) : Prop where
  fits : ∀ f quoted, Piece.field f quoted ∈ pieces u usprintfFlags a.myArguments → f.Fits
  program : ∃ name arguments, split a.myProgram = name :: arguments ∧ IsCommandName name
  programWords : ∀ w ∈ split a.myProgram, PlainWord w
  words : ∀ w ∈ templateWords a u,
    split (w.flatMap Piece.text) = [w.flatMap contents] ∧ PlainWord (w.flatMap contents)

/-! ## The command line -/

variable {d : Daemon} {a : CLicqAutoReply} {u : UserData} {text : List Char}

theorem unquoted_of_mem_pieces {f : Field} {quoted : Bool}
    (h : Piece.field f quoted ∈ pieces u usprintfFlags a.myArguments) : quoted = false :=
  quoted_of_mem_piecesFrom (by decide) h

theorem command_eq_some_iff {line : List Char} :
    a.command u = some line ↔
      (∀ f quoted, Piece.field f quoted ∈ pieces u usprintfFlags a.myArguments → f.Fits) ∧
        line = a.myProgram ++ ' ' :: (pieces u usprintfFlags a.myArguments).flatMap Piece.text := by
  have hfits : (∀ p ∈ pieces u usprintfFlags a.myArguments, p.render.isSome) ↔
      ∀ f quoted, Piece.field f quoted ∈ pieces u usprintfFlags a.myArguments → f.Fits := by
    constructor
    · intro h f quoted hf
      exact Piece.render_isSome_iff.mp (h _ hf) f quoted rfl
    · intro h p hp
      exact Piece.render_isSome_iff.mpr fun f quoted heq => h f quoted (heq ▸ hp)
  rw [CLicqAutoReply.command, usprintf_eq, Option.map_eq_some_iff]
  constructor
  · rintro ⟨arguments, hrender, rfl⟩
    obtain ⟨hall, rfl⟩ := render_eq_some_iff.mp hrender
    exact ⟨hfits.mp hall, rfl⟩
  · rintro ⟨hall, rfl⟩
    exact ⟨_, render_eq_some_iff.mpr ⟨hfits.mpr hall, rfl⟩, rfl⟩

/-- The shell is given the command line as a C string. -/
theorem exists_reply_iff {ws : Option (List (List Char))} :
    (∃ reply, autoReplyEvent d a u text = some reply ∧ argv reply.command = ws) ↔
      ∃ line, a.command u = some line ∧ argv (cString line) = ws := by
  have hcommand : ∀ line, (match d.exec (cString line) (text ++ ['\n']) with
      | none => (⟨cString line, none, false⟩ : Reply)
      | some (output, r) =>
        if a.failOnExitCode ∧ r ≠ 0 then ⟨cString line, none, !a.abortDeleteOnExitCode⟩
        else ⟨cString line, some (d.toUtf8 output, !a.sendThroughServer),
          d.sendMessage (d.toUtf8 output) (!a.sendThroughServer) != 0⟩).command = cString line := by
    intro line
    split
    · rfl
    · split_ifs
      · rfl
      · rfl
  rw [autoReplyEvent]
  constructor
  · rintro ⟨reply, hreply, hws⟩
    obtain ⟨line, hline, rfl⟩ := Option.map_eq_some_iff.mp hreply
    rw [hcommand] at hws
    exact ⟨line, hline, hws⟩
  · rintro ⟨line, hline, hws⟩
    refine ⟨_, Option.map_eq_some_iff.mpr ⟨line, hline, rfl⟩, ?_⟩
    rwa [hcommand]

/-! ## Padding -/

/-- A piece shows what it stands for, and blanks. -/
theorem filter_text {p : Piece} (hquoted : ∀ f quoted, p = .field f quoted → quoted = false)
    (hfits : ∀ f quoted, p = .field f quoted → f.Fits) :
    (p.text.filter fun c => !isBlank c) = (contents p).filter fun c => !isBlank c := by
  cases p with
  | lit c => rfl
  | newline toDos => rfl
  | field f quoted =>
    obtain rfl := hquoted f quoted rfl
    obtain ⟨v, hv⟩ := Option.isSome_iff_exists.mp (f.text_isSome_iff.mpr (hfits f false rfl))
    have hpad : ∀ n, ((replicate n ' ').filter fun c => !isBlank c) = [] := by
      intro n
      rw [filter_eq_nil_iff]
      intro c hc
      rw [eq_of_mem_replicate hc]
      decide
    rw [Piece.text, Piece.render, hv, Option.map_some, Option.getD_some, if_neg Bool.false_ne_true,
      contents]
    rw [Field.text, align] at hv
    simp only at hv
    split_ifs at hv
    · cases hv
      rw [filter_append, hpad, append_nil]
    · cases hv
      rw [filter_append, hpad, nil_append]
    · cases hv
      rfl

theorem filter_flatMap_text {ps : List Piece}
    (hquoted : ∀ f quoted, Piece.field f quoted ∈ ps → quoted = false)
    (hfits : ∀ f quoted, Piece.field f quoted ∈ ps → f.Fits) :
    ((ps.flatMap Piece.text).filter fun c => !isBlank c) =
      (ps.flatMap contents).filter fun c => !isBlank c := by
  rw [filter_flatMap, filter_flatMap]
  exact flatMap_congr fun p hp => filter_text (fun f quoted h => hquoted f quoted (h ▸ hp))
    fun f quoted h => hfits f quoted (h ▸ hp)

/-! ## When the program runs as configured -/

/-- The pieces of a word are pieces of the template. -/
theorem mem_of_mem_templateWords {w : List Piece} (hw : w ∈ templateWords a u) {p : Piece}
    (hp : p ∈ w) : p ∈ pieces u usprintfFlags a.myArguments := by
  have hmem := mem_flatten_of_mem hw hp
  rw [templateWords, flatten_splitFrom, nil_append] at hmem
  exact mem_of_mem_filter hmem

/-- The words of the template spell the arguments. -/
theorem split_text (a : CLicqAutoReply) (u : UserData) :
    split ((pieces u usprintfFlags a.myArguments).flatMap Piece.text) =
      (templateWords a u).flatMap fun w => split (w.flatMap Piece.text) := by
  have hsep : ∀ p, isSeparator p = true → ∃ c, isBlank c = true ∧ p.text = [c] := by
    intro p hp
    cases p with
    | lit c => exact ⟨c, hp, rfl⟩
    | newline toDos => cases hp
    | field f quoted => cases hp
  exact splitFrom_flatMap hsep [] _

variable (hfits : ∀ f quoted, Piece.field f quoted ∈ pieces u usprintfFlags a.myArguments → f.Fits)

include hfits

theorem filter_word {w : List Piece} (hw : w ∈ templateWords a u) :
    ((w.flatMap Piece.text).filter fun c => !isBlank c) =
      (w.flatMap contents).filter fun c => !isBlank c :=
  filter_flatMap_text
    (fun _ _ hf => unquoted_of_mem_pieces (mem_of_mem_templateWords hw hf))
    fun f quoted hf => hfits f quoted (mem_of_mem_templateWords hw hf)

/-- The characters of the command line are those of the words that it should have, and blanks. -/
theorem filter_line :
    ((a.myProgram ++ ' ' :: (pieces u usprintfFlags a.myArguments).flatMap Piece.text).filter
        fun c => !isBlank c) =
      (split a.myProgram ++ (templateWords a u).map fun w => w.flatMap contents).flatten.filter
        fun c => !isBlank c := by
  have hargs : (((pieces u usprintfFlags a.myArguments).flatMap Piece.text).filter
      fun c => !isBlank c) =
        (((templateWords a u).map fun w => w.flatMap contents).flatten).filter
          fun c => !isBlank c := by
    rw [← flatten_split, split_text, ← flatMap_def, filter_flatMap,
      flatten_eq_flatMap, flatMap_assoc]
    refine flatMap_congr fun w hw => ?_
    rw [← flatten_eq_flatMap, flatten_split, filter_word hfits hw]
  rw [filter_append, filter_cons_of_neg (by decide), hargs, flatten_append,
    filter_append, flatten_split, filter_filter]
  simp only [Bool.and_self]

/-- The words of the command line are those it should have exactly when each word of the template is
one word. -/
theorem split_line_iff :
    split (a.myProgram ++ ' ' :: (pieces u usprintfFlags a.myArguments).flatMap Piece.text) =
        split a.myProgram ++ (templateWords a u).map (fun w => w.flatMap contents) ↔
      ∀ w ∈ templateWords a u, split (w.flatMap Piece.text) = [w.flatMap contents] := by
  rw [split, splitFrom_append_sep (by decide)]
  change split _ ++ split _ = _ ↔ _
  rw [append_cancel_left_eq, split_text]
  exact flatMap_split_eq_map_iff fun w hw => filter_word hfits hw

omit hfits

/-- **The program runs as configured** exactly when the values fit, the program is a command with
plain words, and every word of the template with its values put in is one plain word. -/
theorem runsAsConfigured_iff (d : Daemon) (a : CLicqAutoReply) (u : UserData) (text : List Char) :
    RunsAsConfigured d a u text ↔ Plain a u := by
  rw [RunsAsConfigured, exists_reply_iff]
  constructor
  · rintro ⟨hne, line, hline, hargv⟩
    obtain ⟨hfits, rfl⟩ := command_eq_some_iff.mp hline
    obtain ⟨name, arguments, hname⟩ := List.exists_cons_of_ne_nil hne
    rw [hname, List.cons_append, argv_eq_some_iff, ← List.cons_append, ← hname] at hargv
    obtain ⟨hwords, hcommand⟩ := hargv
    have hfilter := filter_line hfits
    generalize hline' : a.myProgram ++ ' ' ::
      (pieces u usprintfFlags a.myArguments).flatMap Piece.text = line at hwords hfilter
    have hnul : nul ∉ line := by
      intro hmem
      have hin : nul ∈ line.filter fun c => !isBlank c := List.mem_filter.mpr ⟨hmem, by decide⟩
      rw [hfilter] at hin
      obtain h | h := mem_of_words hwords (List.mem_of_mem_filter hin)
      · exact nul_notMem_cString _ h
      · exact absurd h (by decide)
    rw [cString_of_notMem hnul] at hwords
    have hquote := not_isQuote_of_words hwords (by
      rw [← countP_filter_isBlank line, hfilter, countP_filter_isBlank])
    obtain ⟨hall, heq⟩ := (words_eq_some_iff hquote).mp hwords
    have hplain : ∀ w ∈ split line, PlainWord w := by
      refine fun w hw => ⟨hall w hw, fun hmem => hnul ?_⟩
      have hin := List.mem_flatten_of_mem hw hmem
      rw [flatten_split] at hin
      exact List.mem_of_mem_filter hin
    rw [← heq] at hplain
    have hone := (split_line_iff hfits).mp (by rw [hline']; exact heq.symm)
    refine ⟨hfits, ⟨name, arguments, hname, hcommand⟩, fun w hw => ?_, fun w hw => ⟨hone w hw, ?_⟩⟩
    · exact hplain w (List.mem_append_left _ hw)
    · exact hplain _ (List.mem_append_right _ (List.mem_map_of_mem hw))
  · rintro ⟨hfits, ⟨name, arguments, hname, hcommand⟩, hprogram, hwords⟩
    refine ⟨by rw [hname]; simp, _, command_eq_some_iff.mpr ⟨hfits, rfl⟩, ?_⟩
    have hfilter := filter_line hfits
    have hsplit := (split_line_iff hfits).mpr fun w hw => (hwords w hw).1
    generalize a.myProgram ++ ' ' :: (pieces u usprintfFlags a.myArguments).flatMap Piece.text =
      line at hfilter hsplit
    have hplain : ∀ w ∈ split line, PlainWord w := by
      rw [hsplit]
      intro w hw
      obtain hw | hw := List.mem_append.mp hw
      · exact hprogram w hw
      · obtain ⟨v, hv, rfl⟩ := List.mem_map.mp hw
        exact (hwords v hv).2
    have hchar : ∀ c ∈ line, isQuote c = false ∧ c ≠ nul := by
      intro c hc
      by_cases hblank : isBlank c = true
      · rw [isBlank, Bool.or_eq_true, beq_iff_eq, beq_iff_eq] at hblank
        obtain rfl | rfl := hblank
        · exact ⟨by decide, by decide⟩
        · exact ⟨by decide, by decide⟩
      · have hin : c ∈ (split line).flatten := by
          rw [flatten_split]
          exact List.mem_filter.mpr ⟨hc, by simpa using hblank⟩
        obtain ⟨w, hw, hcw⟩ := List.mem_flatten.mp hin
        obtain ⟨hord, hnul⟩ := hplain w hw
        exact ⟨(hord.1 c hcw).1, fun h => hnul (h ▸ hcw)⟩
    have hnul : nul ∉ line := fun h => (hchar nul h).2 rfl
    rw [cString_of_notMem hnul, hname, List.cons_append, argv_eq_some_iff, ← List.cons_append,
      ← hname, ← hsplit]
    exact ⟨(words_eq_some_iff fun c hc => (hchar c hc).1).mpr
      ⟨fun w hw => (hplain w hw).1, rfl⟩, hcommand⟩

/-- With an alias that has an operator in it the shell is given a second command. -/
theorem not_runsAsConfigured_alias :
    (∀ c ∈ ['f', 'o', 'r', 't', 'u', 'n', 'e'] ++ ['%', 'a'], isQuote c = false ∧ isActive c = false) ∧
      ∀ (d : Daemon) (text : List Char),
        ¬RunsAsConfigured d ⟨['f', 'o', 'r', 't', 'u', 'n', 'e'], ['%', 'a'], false, false, true⟩
          (.ofAlias ['x', ';', 'r', 'm']) text := by
  refine ⟨by simp [isQuote, isActive, backQuote], fun d text h => ?_⟩
  obtain ⟨line, hline, hargv⟩ := exists_reply_iff.mp h.2
  have hcommand : CLicqAutoReply.command
      ⟨['f', 'o', 'r', 't', 'u', 'n', 'e'], ['%', 'a'], false, false, true⟩
      (.ofAlias ['x', ';', 'r', 'm']) =
        some ['f', 'o', 'r', 't', 'u', 'n', 'e', ' ', 'x', ';', 'r', 'm'] := by
    decide +kernel
  cases hcommand.symm.trans hline
  have hnone : argv (cString ['f', 'o', 'r', 't', 'u', 'n', 'e', ' ', 'x', ';', 'r', 'm']) = none := by
    decide +kernel
  rw [hnone] at hargv
  cases hargv

end Licq.AutoReply
