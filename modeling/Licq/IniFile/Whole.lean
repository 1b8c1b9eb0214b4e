import Licq.IniFile.Holds

/-!
# IniFile/Whole — editing several sections of a configuration

A caller that selects one section after the other, adds some and removes others is followed on the
configuration that the text spells: `Spells` relates the two, and has a lemma for each call.  When
the file is written and loaded again it spells the configuration that was left (`Spells.reload`). -/

namespace Licq

open Text List

/-! ## Names of sections -/

namespace IniFile

theorem bracket_notMem_sectionName (raw : List Char) : ']' ∉ sectionName raw := fun h =>
  absurd (mem_filter.mp h).2 (by decide)

/-- **A header has one name.** -/
theorem header_unique {n m : List Char} {l : Line} (hn : ']' ∉ n) (hm : ']' ∉ m)
    (h : header n <+: l) (h' : header m <+: l) : n = m := by
  obtain ⟨x, rfl⟩ := h
  obtain ⟨y, hy⟩ := h'
  simp only [header, cons_append, List.cons.injEq, true_and, append_assoc,
    nil_append] at hy
  exact (append_nl_inj hm hn hy).1.symm

end IniFile

/-! ## Sections that come and go -/

namespace Conf

open IniFile

/-- One more section, at the end. -/
def add (c : Conf) (name : List Char) (body : List Line) : Conf :=
  ⟨c.preamble, c.sections ++ [⟨header name, body⟩]⟩

/-- The configuration without the first section of the name. -/
def erase (c : Conf) (name : List Char) : Conf :=
  ⟨c.preamble, c.sections.eraseP fun s => s.Named name⟩

variable {c : Conf} {name other : List Char} {body : List Line}

theorem lines?_eq_none_iff : c.lines? name = none ↔ ∀ s ∈ c.sections, ¬ s.Named name := by
  rw [← Option.not_isSome_iff_eq_none, lines?_isSome_iff]
  simp only [not_exists, not_and]

theorem lines?_add_self (h : c.lines? name = none) : (c.add name body).lines? name = some body := by
  have hnamed : Sect.Named name ⟨header name, body⟩ := named_header name
  rw [lines?, add, find?_append, find?_eq_none.mpr (by
      simpa using lines?_eq_none_iff.mp h), Option.none_or,
    find?_cons_of_pos (by simpa using hnamed)]
  rfl

theorem lines?_add_of_ne (hn : ']' ∉ name) (ho : ']' ∉ other) (h : other ≠ name) :
    (c.add name body).lines? other = c.lines? other := by
  have hother : ¬ Sect.Named other ⟨header name, body⟩ := fun hs =>
    h (header_unique ho hn hs (named_header name))
  rw [lines?, add, find?_append, find?_cons_of_neg (by simpa using hother),
    find?_nil, Option.or_none]
  rfl

theorem lines?_erase_of_ne (hn : ']' ∉ name) (ho : ']' ∉ other) (h : other ≠ name) :
    (c.erase name).lines? other = c.lines? other := by
  rw [lines?, lines?, erase]
  induction c.sections with
  | nil => rfl
  | cons s ss ih =>
    by_cases hs : s.Named name
    · have hother : ¬ s.Named other := fun hs' => h (header_unique ho hn hs' hs)
      rw [eraseP_cons_of_pos (by simpa using hs),
        find?_cons_of_neg (by simpa using hother)]
    · rw [eraseP_cons_of_neg (by simpa using hs)]
      by_cases hother : s.Named other
      · rw [find?_cons_of_pos (by simpa using hother),
          find?_cons_of_pos (by simpa using hother)]
      · rw [find?_cons_of_neg (by simpa using hother),
          find?_cons_of_neg (by simpa using hother)]
        exact ih

theorem lines?_erase_eq_none (h : c.lines? name = none) (other : List Char) :
    (c.erase other).lines? name = none :=
  lines?_eq_none_iff.mpr fun s hs => lines?_eq_none_iff.mp h s (mem_of_mem_eraseP hs)

theorem modify_add (h : c.lines? name = none) (f : List Line → List Line) :
    (⟨c.preamble, modify name f (c.add name body).sections⟩ : Conf) = c.add name (f body) := by
  have hnamed : Sect.Named name ⟨header name, body⟩ := named_header name
  rw [add, add]
  simp only [modify_of_first (lines?_eq_none_iff.mp h) hnamed]

/-! ## Configurations that survive loading -/

/-- All lines survive loading. -/
structure Survives (c : Conf) : Prop where
  preamble : ∀ l ∈ c.preamble, Steady l
  sections : ∀ s ∈ c.sections, Steady s.hdr ∧ ∀ l ∈ s.body, Steady l

theorem mem_of_mem_ofLines {ls : List Line} : (∀ l ∈ (ofLines ls).preamble, l ∈ ls) ∧
    ∀ s ∈ (ofLines ls).sections, s.hdr ∈ ls ∧ ∀ l ∈ s.body, l ∈ ls := by
  induction ls with
  | nil => exact ⟨fun _ h => h, nofun⟩
  | cons l ls ih =>
    have hsections : ∀ s ∈ (ofLines ls).sections, s.hdr ∈ l :: ls ∧ ∀ x ∈ s.body, x ∈ l :: ls :=
      fun s hs => ⟨mem_cons_of_mem l (ih.2 s hs).1,
        fun x hx => mem_cons_of_mem l ((ih.2 s hs).2 x hx)⟩
    have hpreamble : ∀ x ∈ (ofLines ls).preamble, x ∈ l :: ls :=
      fun x hx => mem_cons_of_mem l (ih.1 x hx)
    by_cases hhdr : IsHeader l
    · rw [ofLines_header hhdr]
      refine ⟨nofun, fun s hs => ?_⟩
      rcases mem_cons.mp hs with rfl | hs
      · exact ⟨mem_cons_self, hpreamble⟩
      · exact hsections s hs
    · obtain rfl | hl := eq_or_ne l []
      · exact ⟨hpreamble, hsections⟩
      · rw [ofLines_cons hhdr hl]
        refine ⟨fun x hx => ?_, hsections⟩
        rcases mem_cons.mp hx with rfl | hx
        · exact mem_cons_self
        · exact hpreamble x hx

/-- **Lines that spell a configuration that survives loading survive loading.** -/
theorem survives_ofLines_iff {ls : List Line} : (ofLines ls).Survives ↔ ∀ l ∈ ls, Steady l := by
  constructor
  · intro h
    induction ls with
    | nil => exact nofun
    | cons x ls ih =>
      suffices hx : Steady x ∧ (ofLines ls).Survives by
        intro l hl
        rcases mem_cons.mp hl with rfl | hl
        · exact hx.1
        · exact ih hx.2 l hl
      by_cases hhdr : IsHeader x
      · rw [ofLines_header hhdr] at h
        obtain ⟨hx, hbody⟩ := h.sections _ mem_cons_self
        exact ⟨hx, hbody, fun s hs => h.sections s (mem_cons_of_mem _ hs)⟩
      · obtain rfl | hl := eq_or_ne x []
        · exact ⟨steady_nil, h⟩
        · rw [ofLines_cons hhdr hl] at h
          exact ⟨h.preamble x mem_cons_self,
            fun l hl => h.preamble l (mem_cons_of_mem x hl), h.sections⟩
  · intro h
    obtain ⟨hpreamble, hsections⟩ := @mem_of_mem_ofLines ls
    exact ⟨fun l hl => h l (hpreamble l hl), fun s hs =>
      ⟨h _ (hsections s hs).1, fun l hl => h l ((hsections s hs).2 l hl)⟩⟩

theorem Survives.add (h : c.Survives) (hname : Char.ofNat 0 ∉ name) (hbody : ∀ l ∈ body, Steady l) :
    (c.add name body).Survives where
  preamble := h.preamble
  sections s hs := by
    rcases mem_append.mp hs with hs | hs
    · exact h.sections s hs
    · obtain rfl := mem_singleton.mp hs
      exact ⟨steady_header hname, hbody⟩

theorem Survives.erase (h : c.Survives) (name : List Char) : (c.erase name).Survives where
  preamble := h.preamble
  sections s hs := h.sections s (mem_of_mem_eraseP hs)

end Conf

/-! ## The text and the configuration -/

namespace IniFile

theorem removeSection_tracked {ini : IniFile} {ls : List Line} (h : HasLines ini ls)
    (raw : List Char) : Tracked ini (removeSection ini raw) := by
  have hset := setSection_tracked h raw false
  rw [removeSection]
  split
  · rename_i ini' heq
    rwa [heq] at hset
  · rename_i ini' heq
    rw [heq] at hset
    split
    · exact hset
    · split
      · exact hset
      · exact Or.inl rfl

/-- **The text spells the configuration** and has a section selected, or none; it is marked as
modified if it is not the text before. -/
structure Spells (ini₀ : IniFile) (c : Conf) (current : Option (List Char)) (ini : IniFile) :
    Prop where
  refines : Refines ini ⟨c, current⟩
  tracked : Tracked ini₀ ini

namespace Spells

variable {ini₀ ini : IniFile} {c : Conf} {current : Option (List Char)} {raw name key : List Char}

theorem start (h : HasLines ini ini.textLines) (hnone : ini.mySection = none) :
    Spells ini (Conf.ofLines ini.textLines) none ini where
  refines := ⟨h, rfl, hnone, fun _ _ hptr => by rw [hnone] at hptr; exact nomatch hptr⟩
  tracked := Tracked.refl ini

/-- A section that is there is selected. -/
theorem select (h : Spells ini₀ c current ini) (hraw : sectionName raw ≠ [])
    (hthere : c.lines? (sectionName raw) ≠ none) (allowAdd : Bool) :
    (setSection ini raw allowAdd).1 = true ∧
      Spells ini₀ c (some (sectionName raw)) (setSection ini raw allowAdd).2 := by
  obtain ⟨hout, hrefines⟩ := setSection_refines h.refines raw allowAdd
  have hsome := Option.isSome_iff_ne_none.mpr hthere
  rw [Store.step] at hout hrefines
  simp only [if_neg hraw, hsome, if_true, Out.done.injEq] at hout hrefines
  exact ⟨hout, hrefines, h.tracked.trans (setSection_tracked h.refines.text raw allowAdd)⟩

/-- A section that is not there is not. -/
theorem miss (h : Spells ini₀ c current ini) (hraw : sectionName raw ≠ [])
    (hnone : c.lines? (sectionName raw) = none) :
    (setSection ini raw false).1 = false ∧ Spells ini₀ c none (setSection ini raw false).2 := by
  obtain ⟨hout, hrefines⟩ := setSection_refines h.refines raw false
  rw [Store.step] at hout hrefines
  simp only [if_neg hraw, hnone, Option.isSome_none, Bool.false_eq_true, if_false,
    Out.done.injEq] at hout hrefines
  exact ⟨hout, hrefines, h.tracked.trans (setSection_tracked h.refines.text raw false)⟩

/-- …or added. -/
theorem add (h : Spells ini₀ c current ini) (hraw : sectionName raw ≠ [])
    (hnone : c.lines? (sectionName raw) = none) : Spells ini₀ (c.add (sectionName raw) [])
      (some (sectionName raw)) (setSection ini raw true).2 := by
  obtain ⟨-, hrefines⟩ := setSection_refines h.refines raw true
  rw [Store.step] at hrefines
  simp only [if_neg hraw, hnone, Option.isSome_none, Bool.false_eq_true, if_false, if_true]
    at hrefines
  exact ⟨hrefines, h.tracked.trans (setSection_tracked h.refines.text raw true)⟩

/-- A section that is there is removed. -/
theorem erase (h : Spells ini₀ c current ini) (hraw : sectionName raw ≠ []) :
    Spells ini₀ (c.erase (sectionName raw)) none (removeSection ini raw) := by
  obtain ⟨-, hrefines⟩ := removeSection_refines h.refines raw
  rw [Store.step] at hrefines
  simp only [if_neg hraw] at hrefines
  exact ⟨hrefines, h.tracked.trans (removeSection_tracked h.refines.text raw)⟩

/-- **Reading a parameter.** -/
theorem get_eq (h : Spells ini₀ c (some name) ini) (hkey : key.all keyChar = true) :
    get ini key = (lookup key ((c.lines? name).getD [])).map unescape := by
  obtain ⟨pre, hdr, sel, tail, hd⟩ := h.refines.exists_delimits rfl
  have hlines : c.lines? name = some (nonblank sel) := hd.currentLines_eq h.refines rfl
  rw [hd.get_eq (notMem_of_all_keyChar hkey (by decide)) (head_ne_of_all_keyChar hkey), hlines,
    Option.getD_some, lookup_nonblank]

/-- **Setting parameters.** -/
theorem setAll_eq (h : Spells ini₀ c (some name) ini) (es : List Entry) :
    ∃ ini', setAll ini es = some ini' ∧ Spells ini₀
      ⟨c.preamble, Conf.modify name (assignAll (written es)) c.sections⟩ (some name) ini' := by
  obtain ⟨pre, hdr, sel, tail, hd⟩ := h.refines.exists_delimits rfl
  obtain ⟨ini', hall, hd'⟩ := hd.setAll_eq es
  have hedit := hd.refines_edit hd' h.refines rfl (assignAll_nonblank (written es) sel)
  exact ⟨ini', hall, hedit, h.tracked.trans (setAll_tracked hall)⟩

/-- **Writing the file and loading it again.** -/
theorem reload {f : ConfFile} (hf : f.InSync) (h : Spells f.ini c current ini) (hc : c.Survives) :
    ∃ conf, ConfFile.loadFile (ConfFile.opened
        (ConfFile.writeFile { f with ini := ini }).2.disk) = (true, conf) ∧
      Settled conf.ini ∧ Conf.ofLines conf.ini.textLines = c := by
  have hspelled : Conf.ofLines ini.textLines = c := h.refines.conf
  have hsettled : Settled ini :=
    ⟨h.refines.text, Conf.survives_ofLines_iff.mp (hspelled.symm ▸ hc)⟩
  obtain ⟨conf, hload, hdata⟩ := ConfFile.exists_loadFile hf hsettled h.tracked
  refine ⟨conf, hload, settled_congr hdata.symm hsettled, ?_⟩
  rw [textLines_congr hdata, hspelled]

end Spells

end IniFile

end Licq
