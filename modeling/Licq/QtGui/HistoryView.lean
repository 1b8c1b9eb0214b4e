import Licq.Text.QString
import Licq.Text.Search

/-!
# QtGui/HistoryView — a message in the history of a conversation

`addMsg` puts the anchor, the colour, the description of the event, the date, the flags, the name of
the contact and the message into the template of the message style, with a chain of `QString::arg`.

In the styles but `long` the name is the last text of its chain, and what it looks like does not
matter for the rest; in the style `long` the date and the flags come after it, and a name with one
of the placeholders up to theirs takes their places.  In every style the name is read as markup.  A
name keeps its own place, as text, exactly when no earlier text of a chain has a placeholder of it
and the name has no markup (`keepsPlace_iff`).
-/

open QString (Digits Chain)

namespace Licq.QtGui

open List

/-! ## What is shown -/

/-- The message styles 0 to 5. -/
inductive MsgStyle
  | default | compact | tiny | table | long | wide
  deriving DecidableEq

/-- What `addMsg` reads of the view. -/
structure HistoryView where
  msgStyle : MsgStyle
  colorRcv : List Char
  colorSnt : List Char
  colorRcvHistory : List Char
  colorSntHistory : List Char

/-- The arguments of `addMsg` but the name of the contact; the date as it is formatted. -/
structure Shown where
  isReceiver : Bool
  fromHistory : Bool
  eventDescription : List Char
  dateString : List Char
  isDirect : Bool
  isMultiRec : Bool
  isUrgent : Bool
  isEncrypted : Bool
  messageText : List Char
  anchor : List Char

def HistoryView.color (v : HistoryView) (s : Shown) : List Char :=
  if s.fromHistory then if s.isReceiver then v.colorRcvHistory else v.colorSntHistory
  else if s.isReceiver then v.colorRcv else v.colorSnt

/-! ## The message -/

/-- Nothing is cut from a message of line breaks only. -/
def withoutTrailingBreaks (s : List Char) : List Char :=
  if s.all fun c => c = '\n' ∨ c = '\r' then s
  else (s.reverse.dropWhile fun c => c = '\n' ∨ c = '\r').reverse

/-- What is matched by `(.*)` in `<body[^>]*>(.*)</body>`, or the text. -/
def bodyOf (s : List Char) : List Char :=
  match Text.find "<body".toList s with
  | none => s
  | some p =>
    match Text.find ">".toList (s.drop p) with
    | none => s
    | some n =>
      let inner := s.drop (p + n + 1)
      match Text.rfindFrom "</body>".toList inner inner.length with
      | none => s
      | some e => inner.take e

/-- How long a match of `</?font[^>]*>` at the head of a text is. -/
def fontTag (s : List Char) : Option ℕ :=
  if "<font".toList <+: s ∨ "</font".toList <+: s then (Text.find ">".toList s).map (· + 1)
  else none

def withoutFontTags : ℕ → List Char → List Char
  | _, [] => []
  | n + 1, _ :: s => withoutFontTags n s
  | 0, c :: s =>
    match fontTag (c :: s) with
    | some n => withoutFontTags (n - 1) s
    | none => c :: withoutFontTags 0 s

def Shown.message (s : Shown) : List Char :=
  withoutFontTags 0 (bodyOf (withoutTrailingBreaks s.messageText))

/-! ## The fragment -/

def Shown.anchorTag (s : Shown) : List Char :=
  if s.anchor = [] then [] else "<a name=\"".toList ++ s.anchor ++ "\"/>".toList

def Shown.flagChain (s : Shown) : Chain :=
  ⟨"%1%2%3%4".toList, 1, [[if s.isDirect then 'D' else '-'], [if s.isMultiRec then 'M' else '-'],
    [if s.isUrgent then 'U' else '-'], [if s.isEncrypted then 'E' else '-']]⟩

/-- The chain for the description and the date, where a style has one of its own for them. -/
def describedChain (v : HistoryView) (s : Shown) : Option Chain :=
  if s.dateString = [] ∧ s.eventDescription = [] then none
  else
    match v.msgStyle with
    | .default => some ⟨"%1%2".toList, 1, [s.eventDescription, s.dateString]⟩
    | .compact => some ⟨"(%1%2) ".toList, 1, [s.eventDescription, s.dateString]⟩
    | .tiny => some ⟨"%1%2 - ".toList, 1, [s.eventDescription, s.dateString]⟩
    | .table => some ⟨"<td><b><font color=\"%2\">%3%4</font></b></td>".toList, 2,
        [v.color s, s.eventDescription, s.dateString]⟩
    | .long => none
    | .wide => none

variable (tr : List Char → List Char)

/-- The chains of a fragment, one behind the other, from the texts of the two chains above. -/
def fragmentChains (v : HistoryView) (s : Shown) (described flags contactName : List Char) :
    List Chain :=
  match v.msgStyle with
  | .default =>
    [⟨"%1<font color=\"%2\"><b>%3[%4] %5:</b></font><br>".toList, 1,
      [s.anchorTag, v.color s, described, flags, contactName]⟩,
     ⟨"<font color=\"%1\">%2</font>".toList, 1, [v.color s, s.message]⟩]
  | .compact =>
    [⟨"%1<font color=\"%2\"><b>%3[%4] %5: </b></font>".toList, 1,
      [s.anchorTag, v.color s, described, flags, contactName]⟩,
     ⟨"<font color=\"%1\">%2</font>".toList, 1, [v.color s, s.message]⟩]
  | .tiny =>
    [⟨"%1<font color=\"%2\"><b>%3%4: </b></font>".toList, 1,
      [s.anchorTag, v.color s, described, contactName]⟩,
     ⟨"<font color=\"%1\">%2</font>".toList, 1, [v.color s, s.message]⟩]
  | .table =>
    [⟨"%1<table border=\"1\"><tr>%3<td><b><font color=\"%2\">%4</font></b></font></td>".toList, 1,
      [s.anchorTag, v.color s, described, contactName]⟩,
     ⟨"<td><font color=\"%1\">%2</font></td></tr></table>".toList, 1, [v.color s, s.message]⟩]
  | .long =>
    [⟨"%1<font color=\"%2\"><b>%3 %4 %5<br>%6 [%7]</b></font><br><br>".toList, 1,
      [s.anchorTag, v.color s, s.eventDescription,
        tr (if s.isReceiver then "from".toList else "to".toList), contactName, s.dateString,
        flags]⟩,
     ⟨"<font color=\"%1\">%2</font><br><br>".toList, 1, [v.color s, s.message]⟩]
  | .wide =>
    [⟨"<tr><td>%1<nobr><b><font color=\"%2\">%3</font><b> </nobr></td>".toList, 1,
      [s.anchorTag, v.color s, s.dateString]⟩,
     ⟨"<td><b><font color=\"%1\">%2</font></b></font>&nbsp;</td>".toList, 1,
      [v.color s, contactName]⟩,
     ⟨"<td><font color=\"%1\">%2</font></td></tr>".toList, 1, [v.color s, s.message]⟩]

variable (q : Digits)

/-- The text of the description and the date. -/
def described (v : HistoryView) (s : Shown) : List Char :=
  match describedChain v s with
  | some c => c.text q
  | none => []

/-- `HistoryView::addMsg` up to `internalAddMsg`: the fragment. -/
def addMsg (v : HistoryView) (s : Shown) (contactName : List Char) : List Char :=
  (fragmentChains tr v s (described q v s) (s.flagChain.text q) contactName).flatMap (Chain.text q)

/-- The chains that `addMsg` goes through. -/
def chains (v : HistoryView) (s : Shown) (contactName : List Char) : List Chain :=
  s.flagChain :: (describedChain v s).toList ++
    fragmentChains tr v s (described q v s) (s.flagChain.text q) contactName

/-! ## What it is to be -/

def Shown.flags (s : Shown) : List Char :=
  [if s.isDirect then 'D' else '-', if s.isMultiRec then 'M' else '-',
    if s.isUrgent then 'U' else '-', if s.isEncrypted then 'E' else '-']

/-- The description and the date, each in its place. -/
def literalDescribed (v : HistoryView) (s : Shown) : List Char :=
  if s.dateString = [] ∧ s.eventDescription = [] then []
  else
    match v.msgStyle with
    | .default => s.eventDescription ++ s.dateString
    | .compact => "(".toList ++ s.eventDescription ++ s.dateString ++ ") ".toList
    | .tiny => s.eventDescription ++ s.dateString ++ " - ".toList
    | .table => "<td><b><font color=\"".toList ++ v.color s ++ "\">".toList ++ s.eventDescription ++
        s.dateString ++ "</font></b></td>".toList
    | .long => []
    | .wide => []

/-- The fragment up to the name of the contact. -/
def before (v : HistoryView) (s : Shown) : List Char :=
  match v.msgStyle with
  | .default | .compact =>
    s.anchorTag ++ "<font color=\"".toList ++ v.color s ++ "\"><b>".toList ++
      literalDescribed v s ++ "[".toList ++ s.flags ++ "] ".toList
  | .tiny =>
    s.anchorTag ++ "<font color=\"".toList ++ v.color s ++ "\"><b>".toList ++ literalDescribed v s
  | .table =>
    s.anchorTag ++ "<table border=\"1\"><tr>".toList ++ literalDescribed v s ++
      "<td><b><font color=\"".toList ++ v.color s ++ "\">".toList
  | .long =>
    s.anchorTag ++ "<font color=\"".toList ++ v.color s ++ "\"><b>".toList ++ s.eventDescription ++
      " ".toList ++ tr (if s.isReceiver then "from".toList else "to".toList) ++ " ".toList
  | .wide =>
    "<tr><td>".toList ++ s.anchorTag ++ "<nobr><b><font color=\"".toList ++ v.color s ++
      "\">".toList ++ s.dateString ++ "</font><b> </nobr></td>".toList ++
      "<td><b><font color=\"".toList ++ v.color s ++ "\">".toList

/-- The fragment from behind the name of the contact on. -/
def behind (v : HistoryView) (s : Shown) : List Char :=
  match v.msgStyle with
  | .default =>
    ":</b></font><br>".toList ++
      "<font color=\"".toList ++ v.color s ++ "\">".toList ++ s.message ++ "</font>".toList
  | .compact | .tiny =>
    ": </b></font>".toList ++
      "<font color=\"".toList ++ v.color s ++ "\">".toList ++ s.message ++ "</font>".toList
  | .table =>
    "</font></b></font></td>".toList ++ "<td><font color=\"".toList ++ v.color s ++ "\">".toList ++
      s.message ++ "</font></td></tr></table>".toList
  | .long =>
    "<br>".toList ++ s.dateString ++ " [".toList ++ s.flags ++ "]</b></font><br><br>".toList ++
      "<font color=\"".toList ++ v.color s ++ "\">".toList ++ s.message ++
      "</font><br><br>".toList
  | .wide =>
    "</font></b></font>&nbsp;</td>".toList ++ "<td><font color=\"".toList ++ v.color s ++
      "\">".toList ++ s.message ++ "</font></td></tr>".toList

/-- Where a reader of the markup is. -/
inductive Reading
  | text | tag | quoted (c : Char)
  deriving DecidableEq

def Reading.step : Reading → Char → Reading
  | .text, c => if c = '<' then .tag else .text
  | .tag, c => if c = '>' then .text else if c = '"' ∨ c = '\'' then .quoted c else .tag
  | .quoted d, c => if c = d then .tag else .quoted d

def reading (s : List Char) : Reading := s.foldl Reading.step .text

/-- Each text stands in its own place, none was taken for a placeholder, and the name is read as
text: none of its characters is part of a tag or begins a reference. -/
structure InPlace (reference : List Char → Bool) (v : HistoryView) (s : Shown)
    (contactName : List Char) : Prop where
  noneTaken : ∀ c ∈ chains tr q v s contactName, c.NoneTaken q
  literal : addMsg tr q v s contactName = before tr v s ++ contactName ++ behind v s
  plain : ∀ a c b, contactName = a ++ c :: b →
    reading (before tr v s ++ a) = .text ∧ c ≠ '<' ∧ (c = '&' → ¬ reference (b ++ behind v s))

/-! ## Chains that take nothing for a placeholder -/

variable {tr} {q} {v : HistoryView} {s : Shown} {contactName contactName' : List Char}

theorem percent_notMem_flag {c : Char} (hc : '%' ≠ c) (b : Bool) :
    '%' ∉ [if b then c else '-'] := by
  rw [mem_singleton]
  split_ifs
  · exact hc
  · decide

theorem percent_notMem_flagChain : ∀ x ∈ s.flagChain.texts, '%' ∉ x := by
  have htexts : s.flagChain.texts = [[if s.isDirect then 'D' else '-'],
    [if s.isMultiRec then 'M' else '-'], [if s.isUrgent then 'U' else '-'],
    [if s.isEncrypted then 'E' else '-']] := rfl
  rw [htexts]
  simp only [forall_mem_cons]
  exact ⟨percent_notMem_flag (by decide) _, percent_notMem_flag (by decide) _,
    percent_notMem_flag (by decide) _, percent_notMem_flag (by decide) _,
    nofun⟩

theorem flagChain_spec : s.flagChain.NoneTaken q ∧ s.flagChain.text q = s.flags := by
  have hlen : s.flagChain.texts.length = 4 := rfl
  have htemplate : s.flagChain.template = [] ++ QString.holesFrom 1 s.flagChain.texts.length := rfl
  obtain ⟨hnone, hargs⟩ := QString.args_holesFrom (q := q) (j := 1) percent_notMem_flagChain
    (not_mem_nil (a := '%')) (by rw [hlen]; decide)
  rw [Chain.NoneTaken, Chain.text, htemplate]
  refine ⟨hnone, ?_⟩
  rw [hargs]
  rfl

theorem sound_describedChain {c : Chain} (h : describedChain v s = some c) : c.Sound := by
  rw [describedChain] at h
  split_ifs at h
  cases hstyle : v.msgStyle <;> rw [hstyle] at h <;> cases h
  all_goals
    simp only [Chain.Sound, length_cons, length_nil]
    decide +kernel

theorem sound_fragmentChains (d f name : List Char) :
    ∀ c ∈ fragmentChains tr v s d f name, c.Sound := by
  rw [fragmentChains]
  cases v.msgStyle
  all_goals
    simp only [forall_mem_cons, not_mem_nil, false_implies, implies_true, and_true,
      Chain.Sound, length_cons, length_nil]
    decide +kernel

theorem literal_describedChain :
    (match describedChain v s with
      | some c => c.literal
      | none => []) = literalDescribed v s := by
  rw [describedChain, literalDescribed]
  split_ifs
  · rfl
  cases v.msgStyle <;> simp [Chain.literal, QString.Template.parse, QString.Template.filled]

set_option maxRecDepth 2000 in
theorem literal_fragmentChains (name : List Char) :
    (fragmentChains tr v s (literalDescribed v s) s.flags name).flatMap Chain.literal =
      before tr v s ++ name ++ behind v s := by
  rw [fragmentChains, before, behind]
  cases v.msgStyle <;> simp [Chain.literal, QString.Template.parse, QString.Template.filled]

theorem described_eq (h : ∀ c ∈ describedChain v s, c.NoneTaken q) :
    described q v s = literalDescribed v s := by
  rw [← literal_describedChain, described]
  cases hchain : describedChain v s with
  | none => rfl
  | some c => exact Chain.text_eq (sound_describedChain hchain) (h c hchain)

/-- No text of a chain but the last has a placeholder that the chain would come to, each text in its
place. -/
def Harmless (tr : List Char → List Char) (q : Digits) (v : HistoryView) (s : Shown)
    (contactName : List Char) : Prop :=
  (∀ c ∈ describedChain v s, c.Harmless q) ∧
    ∀ c ∈ fragmentChains tr v s (literalDescribed v s) s.flags contactName, c.Harmless q

theorem noneTaken_chains_iff :
    (∀ c ∈ chains tr q v s contactName, c.NoneTaken q) ↔ Harmless tr q v s contactName := by
  have hdescribed : (∀ c ∈ describedChain v s, c.NoneTaken q) ↔
      ∀ c ∈ describedChain v s, c.Harmless q :=
    forall₂_congr fun c hc => Chain.noneTaken_iff (sound_describedChain hc)
  have hfragment : ∀ d f, (∀ c ∈ fragmentChains tr v s d f contactName, c.NoneTaken q) ↔
      ∀ c ∈ fragmentChains tr v s d f contactName, c.Harmless q := fun d f =>
    forall₂_congr fun c hc => Chain.noneTaken_iff (sound_fragmentChains d f contactName c hc)
  rw [chains, cons_append, forall_mem_cons, forall_mem_append,
    and_iff_right flagChain_spec.1, flagChain_spec.2, hfragment, Harmless, ← hdescribed]
  simp only [Option.mem_toList]
  refine and_congr_right fun hnone => ?_
  rw [described_eq hnone]

theorem addMsg_eq (h : Harmless tr q v s contactName) :
    addMsg tr q v s contactName = before tr v s ++ contactName ++ behind v s := by
  have hdescribed : ∀ c ∈ describedChain v s, c.NoneTaken q := fun c hc =>
    (Chain.noneTaken_iff (sound_describedChain hc)).mpr (h.1 c hc)
  rw [addMsg, described_eq hdescribed, flagChain_spec.2, ← literal_fragmentChains]
  refine flatMap_congr fun c hc => ?_
  have hsound := sound_fragmentChains _ _ _ c hc
  exact Chain.text_eq hsound ((Chain.noneTaken_iff hsound).mpr (h.2 c hc))

/-! ## The name as text -/

/-- The name comes where text is read, and has neither the beginning of a tag nor that of a
reference. -/
def PlainName (tr : List Char → List Char) (reference : List Char → Bool) (v : HistoryView)
    (s : Shown) (contactName : List Char) : Prop :=
  contactName ≠ [] → reading (before tr v s) = .text ∧ '<' ∉ contactName ∧
    ∀ b, '&' :: b <:+ contactName → ¬ reference (b ++ behind v s)

theorem reading_append {a b : List Char} (ha : reading a = .text) (hb : '<' ∉ b) :
    reading (a ++ b) = .text := by
  rw [reading, foldl_append]
  rw [reading] at ha
  rw [ha]
  induction b with
  | nil => rfl
  | cons c b ih =>
    rw [mem_cons, not_or] at hb
    rw [foldl_cons, Reading.step, if_neg (Ne.symm hb.1)]
    exact ih hb.2

theorem plain_iff (reference : List Char → Bool) :
    (∀ a c b, contactName = a ++ c :: b →
      reading (before tr v s ++ a) = .text ∧ c ≠ '<' ∧ (c = '&' → ¬ reference (b ++ behind v s))) ↔
      PlainName tr reference v s contactName := by
  constructor
  · intro hplain hne
    obtain ⟨c, b, rfl⟩ := exists_cons_of_ne_nil hne
    refine ⟨?_, fun hmem => ?_, ?_⟩
    · have := (hplain [] c b rfl).1
      rwa [append_nil] at this
    · obtain ⟨a', b', heq⟩ := append_of_mem hmem
      exact (hplain a' '<' b' heq).2.1 rfl
    · rintro b' ⟨a', heq⟩
      exact (hplain a' '&' b' heq.symm).2.2 rfl
  · rintro hplain a c b rfl
    have hne : a ++ c :: b ≠ [] := append_ne_nil_of_right_ne_nil _ (cons_ne_nil c b)
    obtain ⟨hbefore, htag, hreference⟩ := hplain hne
    rw [mem_append, mem_cons, not_or, not_or] at htag
    refine ⟨reading_append hbefore htag.1, Ne.symm htag.2.1, ?_⟩
    rintro rfl
    exact hreference b ⟨a, rfl⟩

/-- Two names in their places, with the same around them. -/
structure KeepsPlace (tr : List Char → List Char) (q : Digits) (reference : List Char → Bool)
    (v : HistoryView) (s : Shown) (contactName contactName' : List Char) : Prop where
  name : InPlace tr q reference v s contactName
  name' : InPlace tr q reference v s contactName'
  rest : ∃ a b, addMsg tr q v s contactName = a ++ contactName ++ b ∧
    addMsg tr q v s contactName' = a ++ contactName' ++ b

theorem inPlace_iff (reference : List Char → Bool) :
    InPlace tr q reference v s contactName ↔
      Harmless tr q v s contactName ∧ PlainName tr reference v s contactName := by
  constructor
  · rintro ⟨hnone, -, hplain⟩
    exact ⟨noneTaken_chains_iff.mp hnone, (plain_iff reference).mp hplain⟩
  · rintro ⟨hharmless, hplain⟩
    exact ⟨noneTaken_chains_iff.mpr hharmless, addMsg_eq hharmless,
      (plain_iff reference).mpr hplain⟩

variable (tr q v s contactName contactName') in
/-- **A fragment has two names in their own places, as text and with the same around them**, exactly
when no text but the last of a chain has a placeholder of it and the names have no markup. -/
theorem keepsPlace_iff (reference : List Char → Bool) :
    KeepsPlace tr q reference v s contactName contactName' ↔
      (Harmless tr q v s contactName ∧ PlainName tr reference v s contactName) ∧
        Harmless tr q v s contactName' ∧ PlainName tr reference v s contactName' := by
  rw [← inPlace_iff, ← inPlace_iff]
  constructor
  · rintro ⟨hname, hname', -⟩
    exact ⟨hname, hname'⟩
  · rintro ⟨hname, hname'⟩
    exact ⟨hname, hname', _, _, hname.literal, hname'.literal⟩

/-- ASCII digits only. -/
def asciiDigits : Digits where
  digitValue c := if c.isDigit then some (c.toNat - 48) else none
  ascii _ _ := rfl

/-- In the style `long` a contact with the name `%6` has the date where its name should be, and its
name is lost. -/
theorem not_keepsPlace_six :
    ¬ KeepsPlace id asciiDigits (fun _ => false) ⟨.long, "red".toList, "blue".toList, [], []⟩
      ⟨true, false, [], "12:30".toList, false, false, false, false, "hi".toList, []⟩ "%6".toList
      "Bob".toList := by
  intro h
  exact absurd h.name.literal (by decide +kernel)

end Licq.QtGui
