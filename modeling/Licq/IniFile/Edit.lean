import Licq.IniFile.Leftover

/-!
# IniFile/Edit — what an edit of one section leaves alone

The callers of `IniFile` select a section, set parameters in it and erase others.  `Edited` says what the
text is after that; the lines that any other name selects are the same, the parameters that have been
set have their values, and a text that survives loading still does.
-/

namespace Licq

open Text List Conf

namespace IniFile

/-! ## The last entry of a parameter -/

/-- The entries that `set` accepts and no later entry replaces. -/
def kept : List Entry → List Entry
  | [] => []
  | e :: es => if e.1.all keyChar = true ∧ e.1 ∉ es.map Prod.fst then e :: kept es else kept es

theorem kept_cons (e : Entry) (es : List Entry) :
    kept (e :: es) =
      if e.1.all keyChar = true ∧ e.1 ∉ es.map Prod.fst then e :: kept es else kept es := rfl

theorem mem_of_mem_kept {es : List Entry} {e : Entry} (h : e ∈ kept es) :
    e ∈ es ∧ e.1.all keyChar = true := by
  induction es with
  | nil => exact absurd h not_mem_nil
  | cons x es ih =>
    rw [kept_cons] at h
    split_ifs at h with hx
    · rcases mem_cons.mp h with rfl | h
      · exact ⟨mem_cons_self, hx.1⟩
      · exact ⟨mem_cons_of_mem x (ih h).1, (ih h).2⟩
    · exact ⟨mem_cons_of_mem x (ih h).1, (ih h).2⟩

/-- **The last value of a parameter is found.** -/
theorem lookup_kept {es : List Entry} {e : Entry} {body : List Line} (h : e ∈ kept es) :
    lookup e.1 (assignAll (written es) body) = some (escape e.2) := by
  induction es generalizing body with
  | nil => exact absurd h not_mem_nil
  | cons x es ih =>
    rw [kept_cons] at h
    by_cases hvalid : x.1.all keyChar = true
    · rw [written_cons_of_valid hvalid, assignAll_cons]
      split_ifs at h with hx
      · rcases mem_cons.mp h with rfl | h
        · rw [lookup_assignAll_of_notMem
            (fun y hy => eq_notMem_of_all_keyChar (key_of_mem_written hy).1)
            (eq_notMem_of_all_keyChar hvalid), lookup_assign_self]
          intro y hy heq
          exact hx.2 (heq ▸ (key_of_mem_written hy).2)
        · exact ih h
      · exact ih h
    · rw [written_cons_of_invalid hvalid]
      rw [if_neg fun hx => hvalid hx.1] at h
      exact ih h

theorem mem_kept_append {a b : List Entry} {e : Entry} (h : e ∈ kept (a ++ b)) :
    (e ∈ kept a ∧ e.1 ∉ b.map Prod.fst) ∨ e ∈ kept b := by
  induction a with
  | nil => exact .inr h
  | cons x a ih =>
    rw [cons_append, kept_cons] at h
    rw [kept_cons]
    by_cases hx : x.1.all keyChar = true ∧ x.1 ∉ (a ++ b).map Prod.fst
    · rw [if_pos hx] at h
      rw [map_append, mem_append, not_or] at hx
      rw [if_pos ⟨hx.1, hx.2.1⟩]
      rcases mem_cons.mp h with rfl | h
      · exact .inl ⟨mem_cons_self, hx.2.2⟩
      · exact (ih h).imp_left fun h => ⟨mem_cons_of_mem x h.1, h.2⟩
    · rw [if_neg hx] at h
      refine (ih h).imp_left fun h => ⟨?_, h.2⟩
      split_ifs
      · exact mem_cons_of_mem x h.1
      · exact h.1

/-- An entry is kept when no other value is set for its parameter. -/
theorem mem_kept {es : List Entry} (h : ∀ e ∈ es, ∀ e' ∈ es, e.1 = e'.1 → e = e') {e : Entry}
    (he : e ∈ es) (hvalid : e.1.all keyChar = true) : e ∈ kept es := by
  induction es with
  | nil => exact absurd he not_mem_nil
  | cons x es ih =>
    have ih := ih fun a ha b hb => h a (mem_cons_of_mem x ha) b (mem_cons_of_mem x hb)
    by_cases hmem : e ∈ es
    · rw [kept_cons]
      split_ifs
      · exact mem_cons_of_mem x (ih hmem)
      · exact ih hmem
    · obtain rfl : e = x := (mem_cons.mp he).resolve_right hmem
      rw [kept_cons, if_pos]
      · exact mem_cons_self
      · refine ⟨hvalid, fun hkey => ?_⟩
        obtain ⟨y, hy, heq⟩ := mem_map.mp hkey
        exact hmem (h y (mem_cons_of_mem e hy) e mem_cons_self heq ▸ hy)

/-! ## The lines of a section that is written -/

theorem lookup_forgetAll {keys : List (List Char)} {key : List Char} {body : List Line}
    (hkey : '=' ∉ key) (hkeys : ∀ k ∈ keys, '=' ∉ k ∧ key ≠ k) :
    lookup key (forgetAll keys body) = lookup key body := by
  induction keys generalizing body with
  | nil => rfl
  | cons k keys ih =>
    obtain ⟨heq, hne⟩ := hkeys k mem_cons_self
    rw [forgetAll_cons, ih fun x hx => hkeys x (mem_cons_of_mem k hx),
      lookup_forget_of_ne hne hkey heq]

/-- The lines `sel'` are lines of `sel` and parameters that have been set, and these have their values. -/
structure Wrote (es : List Entry) (sel sel' : List Line) : Prop where
  new : ∀ l ∈ sel', l ∈ sel ∨ ∃ e ∈ written es, l = keyLine e.1 e.2
  values : ∀ e ∈ kept es, lookup e.1 sel' = some (escape e.2)

namespace Wrote

variable {es es' : List Entry} {sel sel' : List Line}

theorem assignAll (es : List Entry) (sel : List Line) :
    Wrote es sel (Licq.assignAll (written es) sel) where
  new _ hl := mem_assignAll hl
  values _ he := lookup_kept he

/-- …also when more parameters are set. -/
theorem append (h : Wrote es sel sel') (es' : List Entry) :
    Wrote (es ++ es') sel (Licq.assignAll (written es') sel') where
  new l hl := by
    have hwritten : written (es ++ es') = written es ++ written es' := by simp [written]
    rw [hwritten]
    rcases mem_assignAll hl with hl | ⟨e, he, rfl⟩
    · refine (h.new l hl).imp_right fun hnew => ?_
      obtain ⟨e, he, hl⟩ := hnew
      exact ⟨e, mem_append_left _ he, hl⟩
    · exact .inr ⟨e, mem_append_right _ he, rfl⟩
  values e he := by
    rcases mem_kept_append he with ⟨he, hne⟩ | he
    · rw [lookup_assignAll_of_notMem
        (fun y hy => eq_notMem_of_all_keyChar (key_of_mem_written hy).1)
        (eq_notMem_of_all_keyChar (mem_of_mem_kept he).2), h.values e he]
      intro y hy heq
      exact hne (heq ▸ (key_of_mem_written hy).2)
    · exact lookup_kept he

/-- …and when others are removed. -/
theorem forgetAll (h : Wrote es sel sel') {keys : List (List Char)}
    (hkeys : ∀ k ∈ keys, '=' ∉ k ∧ ∀ e ∈ es, e.1 ≠ k) :
    Wrote es sel (Licq.forgetAll keys sel') where
  new l hl := h.new l (mem_of_mem_forgetAll hl)
  values e he := by
    obtain ⟨hmem, hvalid⟩ := mem_of_mem_kept he
    rw [lookup_forgetAll (eq_notMem_of_all_keyChar hvalid)
      fun k hk => ⟨(hkeys k hk).1, (hkeys k hk).2 e hmem⟩, h.values e he]

/-- A parameter that is neither there nor set. -/
theorem absent (h : Wrote es sel sel') {key : List Char} (hkey : '=' ∉ key)
    (hsel : ∀ l ∈ sel, ¬ HasKey key l) (hes : ∀ e ∈ es, e.1 ≠ key) : ∀ l ∈ sel', ¬ HasKey key l := by
  intro l hl hhas
  rcases h.new l hl with hl | ⟨e, he, rfl⟩
  · exact hsel l hl hhas
  · obtain ⟨hvalid, hmem⟩ := key_of_mem_written he
    obtain ⟨x, hx, hxe⟩ := mem_map.mp hmem
    exact hes x hx (hxe.trans (HasKey.unique (hasKey_keyLine e.1 e.2) hhas
      (eq_notMem_of_all_keyChar hvalid) hkey))

end Wrote

/-! ## The section a name selects -/

theorem not_named_sectionsBefore {ini : IniFile} {name : List Char} {s : Sect}
    (h : s ∈ ini.sectionsBefore name) : ¬ s.Named name := by
  simpa using mem_takeWhile_imp h

theorem sectionsFrom_named {ini : IniFile} {name : List Char} {s : Sect}
    (h : (ini.sectionsFrom name).head? = some s) : s.Named name := by
  have := head?_dropWhile_not (fun s => decide (¬ s.Named name)) (ofLines ini.textLines).sections
  rw [sectionsFrom] at h
  rw [h] at this
  simpa using this

theorem sectionLines_congr {ini ini' : IniFile} (h : ini.myConfigData = ini'.myConfigData)
    (name : List Char) : ini.sectionLines name = ini'.sectionLines name := by
  rw [sectionLines, sectionLines, textLines_congr h]

theorem sectionsFrom_congr {ini ini' : IniFile} (h : ini.myConfigData = ini'.myConfigData)
    (name : List Char) : ini.sectionsFrom name = ini'.sectionsFrom name := by
  rw [sectionsFrom, sectionsFrom, textLines_congr h]

theorem sections_append (ini : IniFile) (name : List Char) :
    (Conf.ofLines ini.textLines).sections = ini.sectionsBefore name ++ ini.sectionsFrom name :=
  (takeWhile_append_dropWhile).symm

/-! ## The text after an edit -/

variable {ini ini' : IniFile} {name other : List Char} {es : List Entry} {pre sel tail sel' : List Line}
  {hdr : Line}

/-- **An edit of a section.**  The lines of the section are some of those before and lines that have been
written, and the lines before and after it stay. -/
structure Edited (ini ini' : IniFile) (name : List Char) (es : List Entry) (pre : List Line) (hdr : Line)
    (sel tail sel' : List Line) : Prop where
  lines : HasLines ini' (pre ++ hdr :: (sel' ++ tail))
  named : header name <+: hdr
  first : ∀ l ∈ pre, ¬ header name <+: l
  body : ∀ l ∈ sel, ¬ IsHeader l
  tail_ends : EndsSection tail
  selected : nonblank sel = ini.sectionLines name
  before : (Conf.ofLines pre).sections = ini.sectionsBefore name
  after : (Conf.ofLines tail).sections = (ini.sectionsFrom name).tail
  old : ∀ l ∈ pre ++ hdr :: (sel ++ tail), l ∈ ini.textLines ∨ l = [] ∨ l = header name
  wrote : Wrote es sel sel'
  tracked : Tracked ini ini'

/-- A section that has been selected and whose lines have been changed. -/
theorem Selection.edited {ini₁ : IniFile} (hs : Selection ini ini₁ name pre hdr sel tail)
    (hlines : HasLines ini' (pre ++ hdr :: (sel' ++ tail)))
    (hwrote : Wrote es sel sel') (htracked : Tracked ini ini') :
    Edited ini ini' name es pre hdr sel tail sel' where
  lines := hlines
  named := hs.delimits.named
  first := hs.delimits.first
  body := hs.delimits.body
  tail_ends := hs.delimits.tail_ends
  selected := hs.selected
  before := hs.before
  after := hs.after
  old := hs.lines
  wrote := hwrote
  tracked := htracked

theorem not_isHeader_keyLine {key value : List Char} (hkey : key.all keyChar = true) :
    ¬ IsHeader (keyLine key value) :=
  not_isHeader_of_hasKey (head_ne_of_all_keyChar hkey) (hasKey_keyLine key value)

namespace Edited

theorem new_body (h : Edited ini ini' name es pre hdr sel tail sel') : ∀ l ∈ sel', ¬ IsHeader l := by
  intro l hl
  rcases h.wrote.new l hl with hl | ⟨e, he, rfl⟩
  · exact h.body l hl
  · exact not_isHeader_keyLine (key_of_mem_written he).1

/-- **The sections after an edit**: one of them has other lines, or is new. -/
theorem sections_eq (h : Edited ini ini' name es pre hdr sel tail sel') :
    (Conf.ofLines ini'.textLines).sections
      = ini.sectionsBefore name ++ ⟨hdr, nonblank sel'⟩ :: (ini.sectionsFrom name).tail := by
  have hhdr : IsHeader hdr := isHeader_of_named h.named
  have hends : EndsSection (hdr :: (sel' ++ tail)) := .inl hhdr
  rw [h.lines.textLines_eq, ofLines_append _ hends, ofLines_header hhdr,
    ofLines_append _ h.tail_ends, ofLines_body h.new_body, ← h.before, ← h.after]
  simp

theorem sectionsFrom_self (h : Edited ini ini' name es pre hdr sel tail sel') :
    ini'.sectionsFrom name = ⟨hdr, nonblank sel'⟩ :: (ini.sectionsFrom name).tail := by
  have hnamed : Sect.Named name ⟨hdr, nonblank sel'⟩ := h.named
  rw [sectionsFrom, h.sections_eq, dropWhile_append_of_pos
    fun s hs => decide_eq_true (not_named_sectionsBefore hs), dropWhile_cons_of_neg]
  simpa using hnamed

/-- The name's own lines. -/
theorem sectionLines_self (h : Edited ini ini' name es pre hdr sel tail sel') :
    ini'.sectionLines name = nonblank sel' := by
  have hnamed : Sect.Named name ⟨hdr, nonblank sel'⟩ := h.named
  change linesOf name (ofLines ini'.textLines).sections = _
  rw [h.sections_eq, linesOf_append fun s hs => not_named_sectionsBefore hs,
    linesOf_cons_of_named hnamed]

/-- **A parameter that has been set has its value.** -/
theorem lookup_self (h : Edited ini ini' name es pre hdr sel tail sel') {e : Entry} (he : e ∈ kept es) :
    lookup e.1 (ini'.sectionLines name) = some (escape e.2) := by
  rw [h.sectionLines_self, lookup_nonblank, h.wrote.values e he]

/-- No line is a header of both names. -/
def Apart (name other : List Char) : Prop := ∀ l : Line, header name <+: l → ¬ header other <+: l

/-- **The lines of another section stay.** -/
theorem sectionLines_other (h : Edited ini ini' name es pre hdr sel tail sel')
    (hapart : Apart name other) : ini'.sectionLines other = ini.sectionLines other := by
  have hnew : ¬ Sect.Named other ⟨hdr, nonblank sel'⟩ := hapart hdr h.named
  have hrest : linesOf other (ini.sectionsFrom name)
      = linesOf other (ini.sectionsFrom name).tail := by
    cases hfrom : ini.sectionsFrom name with
    | nil => rfl
    | cons s ss =>
      have hs : s.Named name := sectionsFrom_named (by rw [hfrom]; rfl)
      rw [linesOf_cons_of_not (hapart s.hdr hs), tail_cons]
  change linesOf other (ofLines ini'.textLines).sections
    = linesOf other (ofLines ini.textLines).sections
  rw [h.sections_eq, sections_append ini name]
  by_cases hbefore : ∃ s ∈ ini.sectionsBefore name, s.Named other
  · exact linesOf_append_of_named hbefore _ _
  · simp only [not_exists, not_and] at hbefore
    rw [linesOf_append hbefore, linesOf_append hbefore, linesOf_cons_of_not hnew, hrest]

/-- **A text that survives loading still does.** -/
theorem settled (h : Edited ini ini' name es pre hdr sel tail sel') (hini : Settled ini)
    (hname : Char.ofNat 0 ∉ name) (hnul : ∀ e ∈ es, Char.ofNat 0 ∉ e.2) : Settled ini' := by
  have hsteady : ∀ l ∈ pre ++ hdr :: (sel ++ tail), Steady l := by
    intro l hl
    rcases h.old l hl with hl | rfl | rfl
    · exact hini.2 l hl
    · exact steady_nil
    · exact steady_header hname
  have htext := h.lines.textLines_eq
  refine ⟨htext.symm ▸ h.lines, fun l hl => ?_⟩
  rw [htext] at hl
  simp only [mem_append, mem_cons] at hl hsteady
  rcases hl with hl | rfl | hl | hl
  · exact hsteady l (.inl hl)
  · exact hsteady l (.inr (.inl rfl))
  · rcases h.wrote.new l hl with hl | ⟨e, he, rfl⟩
    · exact hsteady l (.inr (.inr (.inl hl)))
    · obtain ⟨x, hx, rfl⟩ := mem_map.mp he
      obtain ⟨hmem, hvalid⟩ := mem_filter.mp hx
      exact steady_keyLine hvalid (nul_notMem_escape (hnul x hmem))
  · exact hsteady l (.inr (.inr (.inr hl)))

end Edited

/-! ## Parameters behind a section -/

/-- None of the sections after the one that the name selects has any of the parameters. -/
def NoneBehind (ini : IniFile) (name : List Char) (K : List Char → Prop) : Prop :=
  ∀ key, K key → ¬ Conf.Has key (ini.sectionsFrom name).tail

/-- An edit leaves them as they are. -/
theorem Edited.noneBehind (h : Edited ini ini' name es pre hdr sel tail sel') {K : List Char → Prop}
    (hnone : NoneBehind ini name K) : NoneBehind ini' name K := by
  rw [NoneBehind, h.sectionsFrom_self]
  exact hnone

/-- The lines after the section have none of the parameters either. -/
theorem Selection.absent {ini₁ : IniFile} (hs : Selection ini ini₁ name pre hdr sel tail)
    {K : List Char → Prop} (hnone : NoneBehind ini name K) {key : List Char} (hkey : K key)
    (hhead : key.head? ≠ some '[') : ∀ l ∈ tail, ¬ HasKey key l := by
  intro l hl hhas
  have hblank : (ofLines tail).preamble = [] := preamble_of_ends hs.delimits.tail_ends
  have := (has_sectsFrom hhead hdr tail).mpr ⟨l, hl, hhas⟩
  rw [sectsFrom, hblank, has_cons, hs.after] at this
  rcases this with h | h
  · exact absurd h (by simp [lookup])
  · exact hnone key hkey h

/-! ## Removing parameters that are nowhere behind the section -/

variable {key : List Char}

/-- **`unset` removes a parameter of the section**, when no line after the section has it. -/
theorem Delimits.unset_eq (h : Delimits ini name pre hdr sel tail) (hkey : '\n' ∉ key)
    (htail : ∀ l ∈ tail, ¬ HasKey key l) :
    ∃ ini', unset ini key = (decide (∃ l ∈ sel, HasKey key l), ini') ∧
      Delimits ini' name pre hdr (forget key sel) tail := by
  by_cases hsel : ∃ l ∈ sel, HasKey key l
  · rw [decide_eq_true hsel]
    obtain ⟨a, l, b, rfl, hl, ha⟩ := exists_first hsel
    rw [forget_of_first ha hl]
    exact h.unset_of_line hkey ha hl
  · rw [decide_eq_false hsel]
    simp only [not_exists, not_and] at hsel
    obtain ⟨-, hts, htt⟩ := h.terminated_parts
    have hnone : findFrom (needle key) ini.myConfigData (offset (pre ++ [hdr])) = none := by
      rw [h.eq_data]
      exact findFrom_line_none (nl_notMem_pattern hkey) (by simp) (terminated_append.mpr ⟨hts, htt⟩)
        fun l hl => (mem_append.mp hl).elim (hsel l) (htail l)
    refine ⟨ini, ?_, ?_⟩
    · rw [unset, h.pointers]
      simp only [Nat.add_sub_cancel, hnone]
    · rwa [forget, eraseP_of_forall_not (by simpa using hsel)]

theorem forgetAll_append_lines {keys : List (List Char)} {a b : List Line}
    (h : ∀ k ∈ keys, ∀ l ∈ b, ¬ HasKey k l) : forgetAll keys (a ++ b) = forgetAll keys a ++ b := by
  induction keys generalizing a with
  | nil => rfl
  | cons k keys ih =>
    have hone : forget k (a ++ b) = forget k a ++ b := by
      rw [forget, forget]
      by_cases hk : ∃ l ∈ a, HasKey k l
      · obtain ⟨l, hl, hhas⟩ := hk
        exact eraseP_append_left (by simpa using hhas) b hl
      · simp only [not_exists, not_and] at hk
        rw [eraseP_append_right b (by simpa using hk),
          eraseP_of_forall_not (by simpa using h k mem_cons_self),
          eraseP_of_forall_not (by simpa using hk)]
    rw [forgetAll_cons, hone, forgetAll_cons, ih fun x hx => h x (mem_cons_of_mem k hx)]

/-! ## Editing step by step -/

/-- The section has been selected, and the entries have been set in it. -/
def Editing (ini₀ : IniFile) (name : List Char) (es : List Entry) (pre : List Line) (hdr : Line)
    (sel tail : List Line) (ini : IniFile) : Prop :=
  ∃ sel', Delimits ini name pre hdr sel' tail ∧ Wrote es sel sel' ∧ Tracked ini₀ ini

namespace Editing

variable {ini₀ : IniFile}

theorem start (h : Delimits ini name pre hdr sel tail) (htrack : Tracked ini₀ ini) :
    Editing ini₀ name [] pre hdr sel tail ini :=
  ⟨sel, h, ⟨fun _ hl => .inl hl, nofun⟩, htrack⟩

theorem setAll (h : Editing ini₀ name es pre hdr sel tail ini) (es' : List Entry) :
    ∃ ini', IniFile.setAll ini es' = some ini' ∧ Editing ini₀ name (es ++ es') pre hdr sel tail ini' := by
  obtain ⟨sel', hd, hwrote, htrack⟩ := h
  obtain ⟨ini', hall, hd'⟩ := hd.setAll_eq es'
  exact ⟨ini', hall, _, hd', hwrote.append es', htrack.trans (setAll_tracked hall)⟩

theorem unset (h : Editing ini₀ name es pre hdr sel tail ini) (hkey : key.all keyChar = true)
    (htail : ∀ l ∈ tail, ¬ HasKey key l) (hes : ∀ e ∈ es, e.1 ≠ key) :
    Editing ini₀ name es pre hdr sel tail (IniFile.unset ini key).2 := by
  obtain ⟨sel', hd, hwrote, htrack⟩ := h
  obtain ⟨ini', hunset, hd'⟩ := hd.unset_eq (notMem_of_all_keyChar hkey (by decide)) htail
  have htrack' := unset_tracked ini key
  rw [hunset] at htrack' ⊢
  have hwrote' : Wrote es sel (Licq.forgetAll [key] sel') := hwrote.forgetAll fun k hk => by
    obtain rfl := mem_singleton.mp hk
    exact ⟨eq_notMem_of_all_keyChar hkey, hes⟩
  exact ⟨_, hd', hwrote', htrack.trans htrack'⟩

end Editing

/-! ## Truth values -/

/-- `set` of a truth value writes one of two digits. -/
def boolText (data : Bool) : List Char := if data then ['1'] else ['0']

/-- `get` of a truth value. -/
def getBool (ini : IniFile) (key : List Char) (defValue : Bool) : Bool :=
  ((get ini key).map fun s => decide (atoi s ≠ 0)).getD defValue

/-! ## Values that are read back -/

section Read

variable {value : List Char}

theorem getString_of_get (h : get ini key = some value) (defValue : List Char) :
    getString ini key defValue = value := by
  rw [getString, h, Option.getD_some]

theorem getBool_of_get {data : Bool} (h : get ini key = some (boolText data)) (defValue : Bool) :
    getBool ini key defValue = data := by
  rw [getBool, h]
  cases data
  · rfl
  · rfl

theorem getInt_of_get {z : ℤ} (h : get ini key = some (decimalInt z)) (hlow : -2 ^ 31 ≤ z)
    (hhigh : z < 2 ^ 31) (defValue : ℤ) : getInt ini key defValue = z := by
  rw [getInt, h, Option.map_some, Option.getD_some, atoi_decimalInt hlow hhigh]

theorem getULong_of_get {n : ℕ} (h : get ini key = some (decimal n)) (hn : n < 2 ^ 64) (defValue : ℕ) :
    getULong ini key defValue = n := by
  rw [getULong, h, Option.map_some, Option.getD_some, strtoul_decimal hn]

theorem getUnsigned_of_get {n : ℕ} (h : get ini key = some (decimal n)) (hn : n < 2 ^ 32) (defValue : ℕ) :
    getUnsigned ini key defValue = n := by
  rw [getUnsigned, h, Option.map_some, Option.getD_some, strtoul_decimal (by omega), Nat.mod_eq_of_lt hn]

end Read

end IniFile

end Licq
