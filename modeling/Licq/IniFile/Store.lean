import Licq.IniFile.Basic

/-!
# IniFile/Store — what a configuration is for

A configuration is a list of sections, each a header and an ordered list of lines; a name selects
the first section it heads.  The store keeps such a configuration and the name of the current
section, and its operations touch the current section only.  Blank lines separate sections and are
not part of the content.
-/

namespace Licq

/-- A section: its header line and its lines, in order. -/
structure Sect where
  hdr : Line
  body : List Line
  deriving DecidableEq, Repr

/-- The section a name selects is one whose header starts with the bracketed name. -/
def Sect.Named (name : List Char) (s : Sect) : Prop := IniFile.header name <+: s.hdr

instance (name : List Char) (s : Sect) : Decidable (s.Named name) :=
  inferInstanceAs (Decidable (_ <+: _))

/-- A configuration: the lines before the first header, and the sections. -/
structure Conf where
  preamble : List Line
  sections : List Sect
  deriving DecidableEq, Repr

/-- The line is a section header. -/
abbrev IsHeader (l : Line) : Prop := l.head? = some '['

namespace Conf

/-- The configuration a list of lines spells. -/
def ofLines : List Line → Conf
  | [] => ⟨[], []⟩
  | l :: ls =>
    let rest := ofLines ls
    if IsHeader l then ⟨[], ⟨l, rest.preamble⟩ :: rest.sections⟩
    else if l = [] then rest
    else ⟨l :: rest.preamble, rest.sections⟩

@[simp] theorem ofLines_blank (ls : List Line) : ofLines ([] :: ls) = ofLines ls := rfl

theorem ofLines_header {l : Line} (h : IsHeader l) (ls : List Line) :
    ofLines (l :: ls) = ⟨[], ⟨l, (ofLines ls).preamble⟩ :: (ofLines ls).sections⟩ := if_pos h

theorem ofLines_cons {l : Line} (h : ¬ IsHeader l) (hl : l ≠ []) (ls : List Line) :
    ofLines (l :: ls) = ⟨l :: (ofLines ls).preamble, (ofLines ls).sections⟩ := by
  rw [ofLines, if_neg h, if_neg hl]

/-- Apply `f` to the lines of the first section named `name`. -/
def modify (name : List Char) (f : List Line → List Line) : List Sect → List Sect
  | [] => []
  | s :: ss => if s.Named name then ⟨s.hdr, f s.body⟩ :: ss else s :: modify name f ss

/-- The lines of the section a name selects. -/
def lines? (c : Conf) (name : List Char) : Option (List Line) :=
  (c.sections.find? fun s => s.Named name).map Sect.body

end Conf

/-! ## The lines of one section -/

/-- The line of a parameter. -/
def keyLine (key value : List Char) : Line := key ++ '=' :: value

/-- The line holds a value of the parameter. -/
abbrev HasKey (key : List Char) (l : Line) : Prop := key ++ ['='] <+: l

/-- The value a list of lines gives a parameter: that of the first line that names it. -/
def lookup (key : List Char) (body : List Line) : Option (List Char) :=
  (body.find? fun l => HasKey key l).map fun l => l.drop (key.length + 1)

/-- Change the value of a parameter in place, or add the parameter at the end. -/
def assign (key value : List Char) : List Line → List Line
  | [] => [keyLine key value]
  | l :: ls => if HasKey key l then keyLine key value :: ls else l :: assign key value ls

/-- Drop the first line that names a parameter. -/
def forget (key : List Char) (body : List Line) : List Line :=
  body.eraseP fun l => HasKey key l

variable {key : List Char} {a b : List Line} {l : Line}

theorem lookup_of_first
    (ha : ∀ x ∈ a, ¬ HasKey key x) (hl : HasKey key l) :
    lookup key (a ++ l :: b) = some (l.drop (key.length + 1)) := by
  have hfind : (a ++ l :: b).find? (fun l => HasKey key l) = some l :=
    List.find?_eq_some_iff_append.mpr ⟨by simpa using hl, a, b, rfl, by simpa using ha⟩
  rw [lookup, hfind, Option.map_some]

theorem lookup_eq_none_iff {body : List Line} :
    lookup key body = none ↔ ∀ x ∈ body, ¬ HasKey key x := by
  simp [lookup]

theorem assign_of_first {value : List Char}
    (ha : ∀ x ∈ a, ¬ HasKey key x) (hl : HasKey key l) :
    assign key value (a ++ l :: b) = a ++ keyLine key value :: b := by
  induction a with
  | nil => simp [assign, hl]
  | cons x a ih =>
    rw [List.cons_append, assign, if_neg (ha x (by simp)), ih fun y hy => ha y (by simp [hy])]
    rfl

theorem assign_of_absent {value : List Char} {body : List Line}
    (h : ∀ x ∈ body, ¬ HasKey key x) : assign key value body = body ++ [keyLine key value] := by
  induction body with
  | nil => rfl
  | cons x body ih =>
    rw [assign, if_neg (h x (by simp)), ih fun y hy => h y (by simp [hy])]
    rfl

theorem forget_of_first
    (ha : ∀ x ∈ a, ¬ HasKey key x) (hl : HasKey key l) :
    forget key (a ++ l :: b) = a ++ b := by
  rw [forget, List.eraseP_append_right _ (by simpa using ha), List.eraseP_cons_of_pos (by simpa)]

/-- A line that names a parameter is not blank. -/
theorem HasKey.ne_nil (h : HasKey key l) : l ≠ [] := by
  rintro rfl
  simpa using List.prefix_nil.mp h

/-! ## The store -/

namespace IniFile

/-- The calls a client makes. -/
inductive Op where
  | setSection (rawSection : List Char) (allowAdd : Bool)
  | removeSection (rawSection : List Char)
  | set (key data : List Char)
  | unset (key : List Char)
  | get (key : List Char)
  deriving DecidableEq, Repr

/-- What a call returns. -/
inductive Out where
  | done (ok : Bool)
  | unit
  | value (data : Option (List Char))
  deriving DecidableEq, Repr

end IniFile

/-- A configuration and the section selected last. -/
structure Store where
  conf : Conf
  current : Option (List Char)
  deriving DecidableEq, Repr

namespace Store

open IniFile (Op Out)

/-- The lines of the current section. -/
def currentLines (st : Store) : Option (List Line) := st.current.bind st.conf.lines?

/-- Edit the lines of the current section. -/
def edit (st : Store) (f : List Line → List Line) : Store :=
  match st.current with
  | none => st
  | some name => ⟨⟨st.conf.preamble, Conf.modify name f st.conf.sections⟩, st.current⟩

/-- One call, on the abstract configuration. -/
def step (st : Store) : Op → Out × Store
  | .setSection raw allowAdd =>
    let name := IniFile.sectionName raw
    if name = [] then (.done false, { st with current := none })
    else if (st.conf.lines? name).isSome then (.done true, { st with current := some name })
    else if allowAdd then
      (.done true, ⟨⟨st.conf.preamble, st.conf.sections ++ [⟨IniFile.header name, []⟩]⟩, some name⟩)
    else (.done false, { st with current := none })
  | .removeSection raw =>
    let name := IniFile.sectionName raw
    if name = [] then (.unit, { st with current := none })
    else (.unit, ⟨⟨st.conf.preamble, st.conf.sections.eraseP fun s => s.Named name⟩, none⟩)
  | .set key data =>
    if st.current.isSome ∧ key.all IniFile.keyChar then
      (.done true, st.edit (assign key (IniFile.escape data)))
    else (.done false, st)
  | .unset key =>
    if (st.currentLines.bind (lookup key)).isSome then (.done true, st.edit (forget key))
    else (.done false, st)
  | .get key => (.value ((st.currentLines.bind (lookup key)).map IniFile.unescape), st)

end Store

end Licq
