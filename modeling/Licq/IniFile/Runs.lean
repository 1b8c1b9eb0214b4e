import Licq.IniFile.Select

/-!
# IniFile/Runs — the configuration text refines the store

`Refines ini st` says that the text spells the configuration of the store and that the section
pointers delimit the store's current section.  A loaded text refines its store, every call with
`Op.Ok` preserves the refinement and returns what the store returns (`step_refines`), and a call
without it does not (`Op.ok_of_faithful`): a run is faithful exactly when each of its calls is
`Op.Ok` (`runOk_iff_faithful`).
-/

namespace Licq

open Text List Conf

/-! ## The configuration of a text of lines -/

/-- The lines of a section without the blank ones. -/
def nonblank (ls : List Line) : List Line := ls.filter (· ≠ [])

@[simp] theorem nonblank_nil : nonblank [] = [] := rfl

@[simp] theorem nonblank_blank (ls : List Line) : nonblank ([] :: ls) = nonblank ls := rfl

theorem nonblank_cons {l : Line} (h : l ≠ []) (ls : List Line) :
    nonblank (l :: ls) = l :: nonblank ls := filter_cons_of_pos (by simpa using h)

namespace Conf

variable {ls a tail : List Line} {name : List Char}

/-- The headers of a configuration are the header lines of the text. -/
theorem hdr_ofLines (ls : List Line) :
    (ofLines ls).sections.map Sect.hdr = ls.filter (fun l => IsHeader l) := by
  induction ls with
  | nil => rfl
  | cons l ls ih =>
    by_cases hl : IsHeader l
    · rw [ofLines_header hl, filter_cons_of_pos (by simpa using hl), map_cons, ih]
    · rw [filter_cons_of_neg (by simpa using hl), ← ih]
      obtain rfl | hnil := eq_or_ne l []
      · rfl
      · rw [ofLines_cons hl hnil]

theorem mem_sections_ofLines {s : Sect} (h : s ∈ (ofLines ls).sections) : s.hdr ∈ ls := by
  have := mem_map_of_mem (f := Sect.hdr) h
  rw [hdr_ofLines] at this
  exact (mem_filter.mp this).1

/-- A section has the name exactly when a line of the text does. -/
theorem exists_named_ofLines :
    (∃ s ∈ (ofLines ls).sections, s.Named name) ↔ ∃ l ∈ ls, IniFile.header name <+: l := by
  constructor
  · rintro ⟨s, hs, hname⟩
    exact ⟨s.hdr, mem_sections_ofLines hs, hname⟩
  · rintro ⟨l, hl, hname⟩
    have hmem : l ∈ ls.filter (fun l => IsHeader l) :=
      mem_filter.mpr ⟨hl, by simpa using IniFile.isHeader_of_named hname⟩
    rw [← hdr_ofLines, mem_map] at hmem
    obtain ⟨s, hs, rfl⟩ := hmem
    exact ⟨s, hs, hname⟩

theorem preamble_of_ends (h : EndsSection tail) : (ofLines tail).preamble = [] := by
  induction tail with
  | nil => rfl
  | cons l tail ih =>
    rcases h with hl | ⟨rfl, h⟩
    · rw [ofLines_header hl]
    · rw [ofLines_blank, ih h]

/-- Lines that end a section add no line to the sections before them. -/
theorem ofLines_append (a : List Line) (h : EndsSection tail) :
    ofLines (a ++ tail)
      = ⟨(ofLines a).preamble, (ofLines a).sections ++ (ofLines tail).sections⟩ := by
  induction a with
  | nil => exact congrArg (fun p => (⟨p, (ofLines tail).sections⟩ : Conf)) (preamble_of_ends h)
  | cons l a ih =>
    rw [cons_append]
    by_cases hl : IsHeader l
    · rw [ofLines_header hl, ofLines_header hl, ih]
      rfl
    · obtain rfl | hnil := eq_or_ne l []
      · exact ih
      · rw [ofLines_cons hl hnil, ofLines_cons hl hnil, ih]

theorem ofLines_body (h : ∀ l ∈ a, ¬ IsHeader l) : ofLines a = ⟨nonblank a, []⟩ := by
  induction a with
  | nil => rfl
  | cons l a ih =>
    have ih := ih fun x hx => h x (by simp [hx])
    obtain rfl | hnil := eq_or_ne l []
    · exact ih
    · rw [ofLines_cons (h l (by simp)) hnil, nonblank_cons hnil, ih]

theorem ofLines_blanks (k : ℕ) (ls : List Line) :
    ofLines (IniFile.blanks k ++ ls) = ofLines ls := by
  induction k with
  | zero => rfl
  | succ k ih => exact ih

/-- `Conf.modify` reaches the first section with the name. -/
theorem modify_of_first {f : List Line → List Line} {x b : List Sect} {s : Sect}
    (hx : ∀ t ∈ x, ¬ t.Named name) (hs : s.Named name) :
    modify name f (x ++ s :: b) = x ++ ⟨s.hdr, f s.body⟩ :: b := by
  induction x with
  | nil => rw [nil_append, modify, if_pos hs]; rfl
  | cons t x ih =>
    rw [cons_append, modify, if_neg (hx t (by simp)), ih fun y hy => hx y (by simp [hy])]
    rfl

theorem lines?_isSome_iff {c : Conf} :
    (c.lines? name).isSome ↔ ∃ s ∈ c.sections, s.Named name := by
  simp [lines?]

end Conf

/-! ## Blank lines carry no parameter -/

section Blank

variable {key value : List Char}

theorem lookup_nonblank (key : List Char) (ls : List Line) :
    lookup key (nonblank ls) = lookup key ls := by
  induction ls with
  | nil => rfl
  | cons l ls ih =>
    by_cases hk : HasKey key l
    · rw [nonblank_cons hk.ne_nil, lookup, lookup, find?_cons_of_pos (by simpa using hk),
        find?_cons_of_pos (by simpa using hk)]
    · obtain rfl | hl := eq_or_ne l []
      · simpa [lookup] using ih
      · simpa [nonblank_cons hl, lookup, hk] using ih

theorem forget_nonblank (key : List Char) (ls : List Line) :
    forget key (nonblank ls) = nonblank (forget key ls) := by
  induction ls with
  | nil => rfl
  | cons l ls ih =>
    by_cases hk : HasKey key l
    · simp [nonblank_cons hk.ne_nil, forget, hk]
    · obtain rfl | hl := eq_or_ne l []
      · simpa [forget] using ih
      · simpa [nonblank_cons hl, forget, hk] using ih

theorem assign_nonblank (key value : List Char) (ls : List Line) :
    assign key value (nonblank ls) = nonblank (assign key value ls) := by
  have hline : keyLine key value ≠ [] := by simp [keyLine]
  induction ls with
  | nil => exact (nonblank_cons hline []).symm
  | cons l ls ih =>
    by_cases hk : HasKey key l
    · simp [nonblank_cons hk.ne_nil, assign, hk, nonblank_cons hline]
    · obtain rfl | hl := eq_or_ne l []
      · simpa [assign] using ih
      · simpa [nonblank_cons hl, assign, hk] using ih

end Blank

namespace IniFile

variable {ini ini' : IniFile} {st : Store} {name key : List Char} {pre sel sel' tail ls : List Line}
  {hdr : Line}

/-! ## The refinement -/

/-- The lines of the text, the line break at its front excepted. -/
def textLines (ini : IniFile) : List Line := lines '\n' ini.myConfigData.tail

theorem HasLines.textLines_eq (h : HasLines ini ls) : ini.textLines = ls := by
  rw [textLines, h.data, tail_cons, lines_unlines h.terminated]

/-- The section pointers select the section of the name, or none. -/
def Selects (ini : IniFile) : Option (List Char) → Prop
  | none => ini.mySection = none
  | some name => ∃ pre hdr sel tail, Delimits ini name pre hdr sel tail

/-- **The text spells the configuration, and the pointers delimit the current section.** -/
structure Refines (ini : IniFile) (st : Store) : Prop where
  text : HasLines ini ini.textLines
  conf : Conf.ofLines ini.textLines = st.conf
  selects : Selects ini st.current
  bounds : ∀ start stop, ini.mySection = some (start, stop) →
    0 < start ∧ start ≤ stop ∧ stop ≤ ini.myConfigData.length

namespace Delimits

theorem conf_eq (h : Delimits ini name pre hdr sel tail) :
    Conf.ofLines ini.textLines = ⟨(Conf.ofLines pre).preamble,
      (Conf.ofLines pre).sections ++ ⟨hdr, nonblank sel⟩ :: (Conf.ofLines tail).sections⟩ := by
  have hhdr : IsHeader hdr := isHeader_of_named h.named
  have hends : EndsSection (hdr :: (sel ++ tail)) := Or.inl hhdr
  rw [h.toHasLines.textLines_eq, ofLines_append _ hends, ofLines_header hhdr,
    ofLines_append _ h.tail_ends, ofLines_body h.body]
  rfl

theorem bounds (h : Delimits ini name pre hdr sel tail) {start stop : ℕ}
    (hptr : ini.mySection = some (start, stop)) :
    0 < start ∧ start ≤ stop ∧ stop ≤ ini.myConfigData.length := by
  rw [h.pointers, Option.some.injEq, Prod.mk.injEq] at hptr
  obtain ⟨rfl, rfl⟩ := hptr
  rw [h.data_at_stop]
  simp only [offset_append, length_append, length_cons, length_unlines_nl]
  omega

/-- Sections before the delimited one have other names. -/
theorem not_named_before (h : Delimits ini name pre hdr sel tail) :
    ∀ s ∈ (Conf.ofLines pre).sections, ¬ s.Named name :=
  fun _ hs => h.first _ (mem_sections_ofLines hs)

theorem refines (h : Delimits ini name pre hdr sel tail)
    (hconf : Conf.ofLines ini.textLines = st.conf) (hcur : st.current = some name) :
    Refines ini st where
  text := by rw [h.toHasLines.textLines_eq]; exact h.toHasLines
  conf := hconf
  selects := by rw [hcur]; exact ⟨pre, hdr, sel, tail, h⟩
  bounds _ _ hptr := h.bounds hptr

/-- The lines of the current section, as the store has them. -/
theorem currentLines_eq (h : Delimits ini name pre hdr sel tail) (hr : Refines ini st)
    (hcur : st.current = some name) : st.currentLines = some (nonblank sel) := by
  have hnamed : Sect.Named name ⟨hdr, nonblank sel⟩ := h.named
  rw [Store.currentLines, hcur, Option.bind_some, ← hr.conf, h.conf_eq, lines?,
    find?_append, find?_eq_none.mpr (by simpa using h.not_named_before), Option.none_or,
    find?_cons_of_pos (by simpa using hnamed)]
  rfl

theorem lookup_eq (h : Delimits ini name pre hdr sel tail) (hr : Refines ini st)
    (hcur : st.current = some name) (key : List Char) :
    st.currentLines.bind (lookup key) = lookup key sel := by
  rw [h.currentLines_eq hr hcur, Option.bind_some, lookup_nonblank]

/-- **A text edited in the lines of the current section refines the edited store.** -/
theorem refines_edit (h : Delimits ini name pre hdr sel tail)
    (h' : Delimits ini' name pre hdr sel' tail) (hr : Refines ini st)
    (hcur : st.current = some name) {f : List Line → List Line}
    (hf : f (nonblank sel) = nonblank sel') : Refines ini' (st.edit f) := by
  have hnamed : Sect.Named name ⟨hdr, nonblank sel⟩ := h.named
  refine h'.refines ?_ (by rw [Store.edit, hcur])
  rw [Store.edit, hcur]
  simp only [← hr.conf, h.conf_eq, h'.conf_eq]
  rw [modify_of_first h.not_named_before hnamed, hf]

/-- The text outside the section pointers of two texts with the same lines there. -/
theorem frame (h : Delimits ini name pre hdr sel tail) (h' : Delimits ini' name pre hdr sel' tail) :
    ∃ start stop stop', ini.mySection = some (start, stop) ∧
      ini'.mySection = some (start, stop') ∧
      ini'.myConfigData.take start = ini.myConfigData.take start ∧
      ini'.myConfigData.drop stop' = ini.myConfigData.drop stop := by
  have htake : ∀ {i : IniFile} {s : List Line}, Delimits i name pre hdr s tail →
      i.myConfigData.take (offset (pre ++ [hdr]) + 1) = '\n' :: unlines '\n' (pre ++ [hdr]) := by
    intro i s hi
    rw [hi.eq_data, unlines_append, ← cons_append, ← length_unlines_nl, ← length_cons,
      take_left]
  have hdrop : ∀ {i : IniFile} {s : List Line}, Delimits i name pre hdr s tail →
      i.myConfigData.drop (offset (pre ++ [hdr] ++ s) + 1) = unlines '\n' tail := by
    intro i s hi
    rw [hi.data_at_stop, ← length_unlines_nl, ← length_cons, drop_left]
  exact ⟨_, _, _, h.pointers, h'.pointers, by rw [htake h, htake h'], by rw [hdrop h, hdrop h']⟩

end Delimits

/-! ## Loading refines -/

/-- Dropping spaces adds no letter but the equal sign. -/
theorem notMem_dropSpaces {c : Char} {l : Line} (hc : c ≠ '=') (h : c ∉ l) : c ∉ dropSpaces l := by
  rw [dropSpaces]
  split_ifs
  · exact h
  · cases find ['='] l with
    | none => exact h
    | some pos =>
      dsimp only
      split_ifs
      · simp only [mem_append, mem_cons, not_or]
        exact ⟨fun hm => h (mem_of_mem_take hm), hc,
          fun hm => h (mem_of_mem_drop hm)⟩
      · exact h

/-- The store a loaded text spells. -/
def loaded (rawConfig : List Char) : Store :=
  ⟨Conf.ofLines (loadRawConfiguration rawConfig).textLines, none⟩

theorem load_refines (rawConfig : List Char) :
    Refines (loadRawConfiguration rawConfig) (loaded rawConfig) := by
  have h : HasLines (loadRawConfiguration rawConfig) _ := ⟨fun l hl => by
    obtain ⟨x, hx, rfl⟩ := mem_map.mp hl
    exact notMem_dropSpaces (by decide) (terminated_lines '\n' _ x hx), rfl⟩
  exact ⟨by rwa [h.textLines_eq], rfl, rfl, fun _ _ hptr => by simp [loadRawConfiguration] at hptr⟩

/-! ## One call -/

/-- One call, on the text; `none` where the code throws. -/
def step (ini : IniFile) : Op → Option (Out × IniFile)
  | .setSection raw allowAdd =>
    some (.done (setSection ini raw allowAdd).1, (setSection ini raw allowAdd).2)
  | .removeSection raw => some (.unit, removeSection ini raw)
  | .set key data => (set ini key data).map fun r => (.done r.1, r.2)
  | .unset key => some (.done (unset ini key).1, (unset ini key).2)
  | .get key => some (.value (get ini key), ini)

/-- **The condition on a call**: what `unset` finds, and what `get` finds before the section end,
is a parameter in a line of the section. -/
def Op.Ok (ini : IniFile) : Op → Prop
  | .unset key => ∀ start stop pos, ini.mySection = some (start, stop) →
      findFrom (needle key) ini.myConfigData (start - 1) = some pos → '\n' ∉ key ∧ pos + 1 < stop
  | .get key => ∀ start stop pos, ini.mySection = some (start, stop) →
      findFrom (needle key) ini.myConfigData (start - 1) = some pos → pos < stop →
      '\n' ∉ key ∧ pos + 1 < stop
  | _ => True

/-- **What a call leaves alone**: the text outside the section pointers, and all of it where the
call only reads or refuses. -/
def Op.Frame (ini ini' : IniFile) : Op → Prop
  | .set _ _ | .unset _ => ini' = ini ∨ ∃ start stop stop', ini.mySection = some (start, stop) ∧
      ini'.mySection = some (start, stop') ∧
      ini'.myConfigData.take start = ini.myConfigData.take start ∧
      ini'.myConfigData.drop stop' = ini.myConfigData.drop stop
  | .get _ => ini' = ini
  | _ => True

theorem Refines.exists_delimits (hr : Refines ini st) (hcur : st.current = some name) :
    ∃ pre hdr sel tail, Delimits ini name pre hdr sel tail := by
  have := hr.selects
  rwa [hcur] at this

theorem Refines.mySection_eq_none (hr : Refines ini st) (hcur : st.current = none) :
    ini.mySection = none := by
  have := hr.selects
  rwa [hcur] at this

/-- Without a section the text and the configuration stay. -/
theorem Refines.deselect (hr : Refines ini st) :
    Refines { ini with mySection := none } { st with current := none } where
  text := ⟨hr.text.terminated, hr.text.data⟩
  conf := hr.conf
  selects := rfl
  bounds _ _ hptr := nomatch hptr

/-- A line of a section holds no parameter with a line break in its name. -/
theorem Delimits.not_hasKey_of_nl (h : Delimits ini name pre hdr sel tail) (hkey : '\n' ∈ key) :
    ∀ l ∈ sel, ¬ HasKey key l := by
  rintro l hl ⟨t, rfl⟩
  exact h.terminated_parts.2.1 _ hl (by simp [hkey])

/-- What a search finds before the last position of the section is a line of the section. -/
theorem Delimits.find_key_iff (h : Delimits ini name pre hdr sel tail) (hkey : '\n' ∉ key) :
    (∃ pos, findFrom (needle key) ini.myConfigData (offset (pre ++ [hdr])) = some pos ∧
      pos < offset (pre ++ [hdr] ++ sel)) ↔ ∃ l ∈ sel, HasKey key l := by
  constructor
  · rintro ⟨pos, hpos, hlt⟩
    by_contra hnone
    simp only [not_exists, not_and] at hnone
    rcases h.find_key_of_absent hkey hnone with hf | ⟨a, l, b, -, -, -, hf⟩
    · rw [hf] at hpos
      exact nomatch hpos
    · rw [hf, Option.some.injEq, offset_append (_ ++ sel)] at hpos
      omega
  · intro hmem
    obtain ⟨a, l, b, rfl, hl, ha⟩ := exists_first hmem
    refine ⟨_, h.find_key hkey rfl ha hl, ?_⟩
    simp only [offset_append, offset_cons]
    omega

variable {raw data : List Char}

/-! ## Each call refines the store's -/

theorem setSection_refines (hr : Refines ini st) (raw : List Char) (allowAdd : Bool) :
    Out.done (setSection ini raw allowAdd).1 = (st.step (.setSection raw allowAdd)).1 ∧
      Refines (setSection ini raw allowAdd).2 (st.step (.setSection raw allowAdd)).2 := by
  by_cases hname : sectionName raw = []
  · rw [setSection, Store.step]
    simp only [if_pos hname]
    exact ⟨trivial, hr.deselect⟩
  by_cases hmem : ∃ l ∈ ini.textLines, header (sectionName raw) <+: l
  · obtain ⟨ini', pre, hdr, sel, tail, hset, hls, hd, -⟩ :=
      setSection_of_named hr.text allowAdd hname hmem
    have hsome : (st.conf.lines? (sectionName raw)).isSome := by
      rw [lines?_isSome_iff, ← hr.conf]
      exact exists_named_ofLines.mpr hmem
    rw [hset, Store.step]
    simp only [if_neg hname, if_pos hsome]
    exact ⟨trivial, hd.refines (by rw [hd.toHasLines.textLines_eq, ← hls, hr.conf]) rfl⟩
  · have hsome : ¬ (st.conf.lines? (sectionName raw)).isSome := by
      rw [lines?_isSome_iff, ← hr.conf]
      exact fun h => hmem (exists_named_ofLines.mp h)
    simp only [not_exists, not_and] at hmem
    cases allowAdd with
    | false =>
      rw [setSection, Store.step]
      simp only [if_neg hname, find_header_of_absent hr.text hmem, if_neg hsome,
        Bool.false_eq_true, if_false]
      exact ⟨trivial, hr.deselect⟩
    | true =>
      obtain ⟨ini', sep, hset, hd⟩ := setSection_add hr.text hname hmem
      rw [hset, Store.step]
      simp only [if_neg hname, if_neg hsome, if_true]
      refine ⟨trivial, hd.refines ?_ rfl⟩
      have hends : EndsSection [header (sectionName raw)] :=
        Or.inl (isHeader_of_named (named_header _))
      have hpre : ofLines (ini.textLines ++ blanks sep) = st.conf := by
        have hnil : EndsSection (blanks sep ++ []) := endsSection_blanks.mpr trivial
        have hb : EndsSection (blanks sep) := by rwa [append_nil] at hnil
        have hnil := ofLines_blanks sep []
        rw [append_nil] at hnil
        rw [ofLines_append _ hb, hnil, hr.conf, ofLines, append_nil]
      rw [hd.toHasLines.textLines_eq, append_nil, ofLines_append _ hends, hpre,
        ofLines_header (isHeader_of_named (named_header _))]
      rfl

theorem removeSection_refines (hr : Refines ini st) (raw : List Char) :
    (st.step (.removeSection raw)).1 = Out.unit ∧
      Refines (removeSection ini raw) (st.step (.removeSection raw)).2 := by
  have hstep := setSection_refines hr raw false
  by_cases hname : sectionName raw = []
  · rw [removeSection, setSection, Store.step]
    simp only [if_pos hname]
    exact ⟨trivial, hr.deselect⟩
  rw [Store.step]
  simp only [if_neg hname, true_and]
  by_cases hmem : ∃ l ∈ ini.textLines, header (sectionName raw) <+: l
  · obtain ⟨ini', pre, hdr, sel, tail, hset, hls, hd, -⟩ :=
      setSection_of_named hr.text false hname hmem
    obtain ⟨k, next, rfl, hnext, hlines, hptr⟩ := removeSection_of_delimits hd hset
    have hnamed : Sect.Named (sectionName raw) ⟨hdr, nonblank sel⟩ := hd.named
    have hconf : st.conf = ⟨(ofLines pre).preamble, (ofLines pre).sections
        ++ ⟨hdr, nonblank sel⟩ :: (ofLines next).sections⟩ := by
      rw [← hr.conf, hls, ← hd.toHasLines.textLines_eq, hd.conf_eq, ofLines_blanks]
    refine ⟨by rwa [hlines.textLines_eq], ?_, hptr, fun _ _ h => by simp [hptr] at h⟩
    rw [hlines.textLines_eq, ofLines_append _ (endsSection_of_head hnext), hconf,
      eraseP_append_right _ (by simpa using hd.not_named_before),
      eraseP_cons_of_pos (by simpa using hnamed)]
  · have hnone : st.conf.sections.eraseP (fun s => s.Named (sectionName raw))
        = st.conf.sections := by
      refine eraseP_of_forall_not fun s hs hnamed => hmem ?_
      rw [← hr.conf] at hs
      exact exists_named_ofLines.mp ⟨s, hs, by simpa using hnamed⟩
    simp only [not_exists, not_and] at hmem
    rw [hnone, removeSection, setSection]
    simp only [if_neg hname, find_header_of_absent hr.text hmem, Bool.false_eq_true, if_false]
    exact hr.deselect

theorem set_refines (hr : Refines ini st) (key data : List Char) :
    ∃ ini', step ini (.set key data) = some ((st.step (.set key data)).1, ini') ∧
      Op.Frame ini ini' (.set key data) ∧ Refines ini' (st.step (.set key data)).2 := by
  cases hcur : st.current with
  | none =>
    refine ⟨ini, ?_, Or.inl rfl, ?_⟩
    · rw [step, set, hr.mySection_eq_none hcur, Store.step, hcur]
      simp
    · rw [Store.step, hcur]
      simpa using hr
  | some name =>
    obtain ⟨pre, hdr, sel, tail, hd⟩ := hr.exists_delimits hcur
    by_cases hkey : key.all keyChar = true
    · obtain ⟨ini', hset, hd'⟩ := hd.set_eq_assign hkey data
      refine ⟨ini', ?_, Or.inr (hd.frame hd'), ?_⟩
      · rw [step, hset, Store.step, hcur]
        simp [hkey]
      · rw [Store.step, hcur]
        simpa [hkey] using hd.refines_edit hd' hr hcur (assign_nonblank key (escape data) sel)
    · refine ⟨ini, ?_, Or.inl rfl, ?_⟩
      · rw [step, set, hd.pointers, Store.step, hcur]
        simp [hkey]
      · rw [Store.step, hcur]
        simpa [hkey] using hr

/-- What `unset` does on a parameter the section lacks. -/
theorem unset_of_absent (hd : Delimits ini name pre hdr sel tail)
    (hok : Op.Ok ini (.unset key)) (hsel : ∀ l ∈ sel, ¬ HasKey key l) :
    unset ini key = (false, ini) := by
  rw [unset, hd.pointers]
  simp only [Nat.add_sub_cancel]
  cases hf : findFrom (needle key) ini.myConfigData (offset (pre ++ [hdr])) with
  | none => rfl
  | some pos =>
    obtain ⟨hnl, hlt⟩ := hok _ _ pos hd.pointers (by rwa [Nat.add_sub_cancel])
    obtain ⟨l, hl, hk⟩ := (hd.find_key_iff hnl).mp ⟨pos, hf, by omega⟩
    exact absurd hk (hsel l hl)

theorem unset_refines (hr : Refines ini st) (hok : Op.Ok ini (.unset key)) :
    ∃ ini', step ini (.unset key) = some ((st.step (.unset key)).1, ini') ∧
      Op.Frame ini ini' (.unset key) ∧ Refines ini' (st.step (.unset key)).2 := by
  cases hcur : st.current with
  | none =>
    refine ⟨ini, ?_, Or.inl rfl, ?_⟩
    · rw [step, unset, hr.mySection_eq_none hcur, Store.step, Store.currentLines, hcur]
      simp
    · rw [Store.step, Store.currentLines, hcur]
      simpa using hr
  | some name =>
    obtain ⟨pre, hdr, sel, tail, hd⟩ := hr.exists_delimits hcur
    rw [Store.step, hd.lookup_eq hr hcur]
    by_cases hsel : ∃ l ∈ sel, HasKey key l
    · obtain ⟨a, l, b, rfl, hl, ha⟩ := exists_first hsel
      have hnl : '\n' ∉ key := fun h => hd.not_hasKey_of_nl h l (by simp) hl
      obtain ⟨ini', hunset, hd'⟩ := hd.unset_of_line hnl ha hl
      have hfound : (lookup key (a ++ l :: b)).isSome := by rw [lookup_of_first ha hl]; rfl
      rw [if_pos hfound, step, hunset]
      refine ⟨ini', rfl, Or.inr (hd.frame hd'), hd.refines_edit hd' hr hcur ?_⟩
      rw [forget_nonblank, forget_of_first ha hl]
    · simp only [not_exists, not_and] at hsel
      rw [lookup_eq_none_iff.mpr hsel, step, unset_of_absent hd hok hsel]
      exact ⟨ini, rfl, Or.inl rfl, hr⟩

theorem get_refines (hr : Refines ini st) (hok : Op.Ok ini (.get key)) :
    get ini key = (st.currentLines.bind (lookup key)).map unescape := by
  cases hcur : st.current with
  | none =>
    rw [get, hr.mySection_eq_none hcur, Store.currentLines, hcur]
    rfl
  | some name =>
    obtain ⟨pre, hdr, sel, tail, hd⟩ := hr.exists_delimits hcur
    rw [hd.lookup_eq hr hcur]
    by_cases hsel : ∃ l ∈ sel, HasKey key l
    · obtain ⟨a, l, b, rfl, ⟨value, rfl⟩, ha⟩ := exists_first hsel
      have hline : key ++ ['='] ++ value = keyLine key value := by simp [keyLine]
      have hnl : '\n' ∉ key := fun h =>
        hd.not_hasKey_of_nl h _ (by simp) (prefix_append _ value)
      rw [hline] at hd ⊢
      rw [hd.get_of_line hnl ha, lookup_of_first ha (by simp [HasKey, keyLine])]
      simp [keyLine]
    · simp only [not_exists, not_and] at hsel
      rw [lookup_eq_none_iff.mpr hsel, get, hd.pointers]
      simp only [Nat.add_sub_cancel, Option.map_none]
      cases hf : findFrom (needle key) ini.myConfigData (offset (pre ++ [hdr])) with
      | none => rfl
      | some pos =>
        refine if_pos (Nat.le_of_not_lt fun hlt => ?_)
        obtain ⟨hnl, hlt⟩ := hok _ _ pos hd.pointers (by rwa [Nat.add_sub_cancel]) hlt
        obtain ⟨l, hl, hk⟩ := (hd.find_key_iff hnl).mp ⟨pos, hf, by omega⟩
        exact hsel l hl hk

/-- **A call that meets its condition returns what the store returns and keeps the refinement.** -/
theorem step_refines (hr : Refines ini st) {op : Op} (hok : op.Ok ini) :
    ∃ ini', step ini op = some ((st.step op).1, ini') ∧ op.Frame ini ini' ∧
      Refines ini' (st.step op).2 := by
  cases op with
  | setSection raw allowAdd =>
    obtain ⟨hout, hr'⟩ := setSection_refines hr raw allowAdd
    exact ⟨_, by rw [step, hout], trivial, hr'⟩
  | removeSection raw =>
    obtain ⟨hout, hr'⟩ := removeSection_refines hr raw
    exact ⟨_, by rw [step, hout], trivial, hr'⟩
  | set key data => exact set_refines hr key data
  | unset key => exact unset_refines hr hok
  | get key =>
    refine ⟨ini, ?_, rfl, ?_⟩
    · rw [step, Store.step, get_refines hr hok]
    · rwa [Store.step]

/-- **A call that returns what the store returns meets its condition.** -/
theorem Op.ok_of_out (hr : Refines ini st) {op : Op}
    (hout : (step ini op).map Prod.fst = some (st.step op).1) : op.Ok ini := by
  -- Only `get` and `unset` have a condition; both search for the key from the section start on.
  have habsent : ∀ {key start stop pos}, ini.mySection = some (start, stop) →
      findFrom (needle key) ini.myConfigData (start - 1) = some pos →
      (st.currentLines.bind (lookup key)).isSome → '\n' ∉ key ∧ pos + 1 < stop := by
    intro key start stop pos hptr hf hsome
    cases hcur : st.current with
    | none => rw [hr.mySection_eq_none hcur] at hptr; exact nomatch hptr
    | some name =>
      obtain ⟨pre, hdr, sel, tail, hd⟩ := hr.exists_delimits hcur
      rw [hd.pointers, Option.some.injEq, Prod.mk.injEq] at hptr
      obtain ⟨rfl, rfl⟩ := hptr
      rw [hd.lookup_eq hr hcur, Option.isSome_iff_ne_none, ne_eq, lookup_eq_none_iff] at hsome
      simp only [not_forall, not_not] at hsome
      obtain ⟨l, hl, hk⟩ := hsome
      have hnl : '\n' ∉ key := fun h => hd.not_hasKey_of_nl h l hl hk
      obtain ⟨pos', hf', hlt⟩ := (hd.find_key_iff hnl).mpr ⟨l, hl, hk⟩
      rw [Nat.add_sub_cancel, hf', Option.some.injEq] at hf
      exact ⟨hnl, by omega⟩
  cases op with
  | setSection | removeSection | set => trivial
  | unset key =>
    intro start stop pos hptr hf
    refine habsent hptr hf ?_
    rw [step, IniFile.unset, hptr] at hout
    simp only [hf, Option.map_some, Option.some.injEq] at hout
    by_contra hnone
    rw [Store.step, if_neg hnone] at hout
    simp at hout
  | get key =>
    intro start stop pos hptr hf hlt
    refine habsent hptr hf ?_
    rw [step, IniFile.get, hptr] at hout
    simp only [hf, if_neg (Nat.not_le.mpr hlt), Option.map_some, Option.some.injEq, Store.step,
      Out.value.injEq] at hout
    rw [← Option.isSome_map, ← hout]
    rfl

/-! ## Runs -/

/-- Each call of the run meets its condition where it is made. -/
def RunOk (ini : IniFile) : List Op → Prop
  | [] => True
  | op :: ops => op.Ok ini ∧ ∀ out ini', step ini op = some (out, ini') → RunOk ini' ops

/-- **The run is that of the store**: the text refines the store before and after every call, each
call returns what the store returns, and it leaves alone what is not its section. -/
def Faithful (ini : IniFile) (st : Store) : List Op → Prop
  | [] => Refines ini st
  | op :: ops => Refines ini st ∧ ∃ ini', step ini op = some ((st.step op).1, ini') ∧
      op.Frame ini ini' ∧ Faithful ini' (st.step op).2 ops

theorem faithful_of_runOk (hr : Refines ini st) {ops : List Op} (hok : RunOk ini ops) :
    Faithful ini st ops := by
  induction ops generalizing ini st with
  | nil => exact hr
  | cons op ops ih =>
    obtain ⟨ini', hstep, hframe, hr'⟩ := step_refines hr hok.1
    exact ⟨hr, ini', hstep, hframe, ih hr' (hok.2 _ _ hstep)⟩

theorem runOk_of_faithful {ops : List Op} (h : Faithful ini st ops) : RunOk ini ops := by
  induction ops generalizing ini st with
  | nil => trivial
  | cons op ops ih =>
    obtain ⟨hr, ini', hstep, -, hrest⟩ := h
    refine ⟨Op.ok_of_out hr (by rw [hstep]; rfl), fun out ini'' h' => ?_⟩
    rw [hstep, Option.some.injEq, Prod.mk.injEq] at h'
    rw [← h'.2]
    exact ih hrest

/-- **A run over a loaded text is that of the store exactly when each of its calls meets its
condition.** -/
theorem run_faithful_iff (rawConfig : List Char) (ops : List Op) :
    Faithful (loadRawConfiguration rawConfig) (loaded rawConfig) ops
      ↔ RunOk (loadRawConfiguration rawConfig) ops :=
  ⟨runOk_of_faithful, faithful_of_runOk (load_refines rawConfig)⟩

/-- A parameter of the next section is removed through the current one. -/
theorem not_faithful_unset :
    ¬ Faithful (loadRawConfiguration "[a]\nx=1\n[b]\nk=2\n".toList)
      (loaded "[a]\nx=1\n[b]\nk=2\n".toList) [.setSection ['a'] false, .unset ['k']] := by
  rintro ⟨-, ini, hstep, -, -, ini', hunset, -, -⟩
  rw [step, Option.some.injEq, Prod.mk.injEq] at hstep
  rw [← hstep.2] at hunset
  have hout := congrArg (Option.map Prod.fst) hunset
  simp only [Option.map_some] at hout
  revert hout
  decide

end IniFile

end Licq
