import Licq.IniFile.File

/-!
# IniFile/RoundTrip — a value that was set, written out and loaded again

Loading drops the spaces around the first equal sign of a line, one on each side, and so it may
change a line a second time: `k  =  w` is loaded as `k = w`, which holds no parameter `k`, and
loaded again as `k=w`, which does.  A parameter that is set meanwhile comes after that line.
`roundTrips_iff` says exactly when a value survives.
-/

namespace Licq

open Text List

/-! ## What loading does to a line -/

namespace IniFile

/-- **Loading leaves a line alone or drops the two spaces around its equal sign.** -/
theorem dropSpaces_cases (l : Line) :
    dropSpaces l = l ∨ ∃ a b, l = a ++ ' ' :: '=' :: ' ' :: b ∧ dropSpaces l = a ++ '=' :: b ∧
      ¬ IsHeader l := by
  by_cases hskip : l.head? = some '[' ∨ l.head? = some '#' ∨ l.head? = some ';'
  · exact Or.inl (if_pos hskip)
  cases hfind : find ['='] l with
  | none => exact Or.inl (by rw [dropSpaces, if_neg hskip, hfind])
  | some pos =>
    have hdrop : dropSpaces l = if l[pos - 1]? = some ' ' ∧ l[pos + 1]? = some ' ' then
        l.take (pos - 1) ++ '=' :: l.drop (pos + 2) else l := by
      rw [dropSpaces, if_neg hskip, hfind]
    by_cases hspaces : l[pos - 1]? = some ' ' ∧ l[pos + 1]? = some ' '
    · rw [if_pos hspaces] at hdrop
      have heq : l[pos]? = some '=' := by
        obtain ⟨t, ht⟩ := (find_eq_some_iff.mp hfind).1
        rw [← head?_drop, ← ht]
        rfl
      have hpos : 0 < pos := by
        by_contra hzero
        obtain rfl : pos = 0 := by omega
        rw [heq] at hspaces
        exact absurd hspaces.1 (by decide)
      have hcut : l = l.take (pos - 1) ++ ' ' :: '=' :: ' ' :: l.drop (pos + 2) := by
        have hstep : ∀ {i : ℕ} {c : Char}, l[i]? = some c → l.drop i = c :: l.drop (i + 1) := by
          intro i c hi
          obtain ⟨hlt, rfl⟩ := List.getElem?_eq_some_iff.mp hi
          exact drop_eq_getElem_cons hlt
        rw [← hstep hspaces.2, ← hstep heq]
        have := hstep hspaces.1
        rw [Nat.sub_add_cancel hpos] at this
        rw [← this, take_append_drop]
      exact Or.inr ⟨_, _, hcut, hdrop, fun h => hskip (Or.inl h)⟩
    · exact Or.inl (by rw [hdrop, if_neg hspaces])

/-- Loading keeps a header as it is. -/
theorem dropSpaces_of_isHeader {l : Line} (h : IsHeader l) : dropSpaces l = l :=
  if_pos (Or.inl h)

/-- **Loading makes no header out of another line.** -/
theorem isHeader_dropSpaces {l : Line} : IsHeader (dropSpaces l) ↔ IsHeader l := by
  rcases dropSpaces_cases l with h | ⟨a, b, hl, hdrop, hhdr⟩
  · rw [h]
  · refine iff_of_false ?_ hhdr
    rw [hdrop]
    cases a with
    | nil => simp [IsHeader]
    | cons c a => simpa [hl, IsHeader] using hhdr

/-- Loading blanks no line. -/
theorem dropSpaces_eq_nil_iff {l : Line} : dropSpaces l = [] ↔ l = [] := by
  rcases dropSpaces_cases l with h | ⟨a, b, hl, hdrop, -⟩
  · rw [h]
  · rw [hdrop, hl]
    simp

end IniFile

/-! ## …and to a configuration -/

open IniFile (dropSpaces dropSpaces_of_isHeader isHeader_dropSpaces dropSpaces_eq_nil_iff)

/-- The section that is loaded from the lines of a section. -/
def Sect.reloaded (s : Sect) : Sect := ⟨s.hdr, s.body.map dropSpaces⟩

/-- **The lines of a loaded configuration keep their places.** -/
theorem Conf.ofLines_dropSpaces (ls : List Line) : ofLines (ls.map dropSpaces)
    = ⟨(ofLines ls).preamble.map dropSpaces, (ofLines ls).sections.map Sect.reloaded⟩ := by
  induction ls with
  | nil => rfl
  | cons l ls ih =>
    rw [map_cons]
    by_cases hhdr : IsHeader l
    · rw [dropSpaces_of_isHeader hhdr, ofLines_header hhdr, ofLines_header hhdr, ih]
      rfl
    · obtain rfl | hl := eq_or_ne l []
      · exact ih
      · rw [ofLines_cons hhdr hl, ofLines_cons (isHeader_dropSpaces.not.mpr hhdr)
          (dropSpaces_eq_nil_iff.not.mpr hl), ih]
        rfl

namespace IniFile

variable {ini ini' : IniFile} {st : Store} {name raw key data : List Char}
  {pre sel tail ls : List Line} {hdr : Line}

/-- The configuration after its text was written out and read back. -/
def reload (ini : IniFile) : IniFile := loadRawConfiguration (getRawConfiguration ini)

/-- **The text of a reloaded configuration, as lines.** -/
theorem hasLines_reload (h : HasLines ini ls) : HasLines ini.reload (ls.map dropSpaces) := by
  rw [reload, getRawConfiguration_eq h, load_unlines h.terminated]
  refine ⟨fun l hl => ?_, rfl⟩
  obtain ⟨x, hx, rfl⟩ := mem_map.mp hl
  exact notMem_dropSpaces (by decide) (h.terminated x hx)

/-- **A reloaded section has the lines of the section, each of them loaded.** -/
theorem sectionLines_reload (h : HasLines ini ls) (name : List Char) :
    ini.reload.sectionLines name = (ini.sectionLines name).map dropSpaces := by
  rw [sectionLines, sectionLines, (hasLines_reload h).textLines_eq, h.textLines_eq, Conf.lines?,
    Conf.lines?, Conf.ofLines_dropSpaces, find?_map]
  rw [show (fun s : Sect => decide (s.Named name)) ∘ Sect.reloaded
    = fun s => decide (s.Named name) from rfl]
  cases (Conf.ofLines ls).sections.find? fun s => s.Named name <;> rfl

/-- **Selecting a section that exists and reading a parameter of it.** -/
theorem get_setSection_of_named (h : HasLines ini ls) (allowAdd : Bool)
    (hraw : sectionName raw ≠ []) (hmem : ∃ l ∈ ls, header (sectionName raw) <+: l)
    (hkey : key.all keyChar = true) : get (setSection ini raw allowAdd).2 key
      = (lookup key (ini.sectionLines (sectionName raw))).map unescape := by
  obtain ⟨ini', pre, hdr, sel, tail, hset, hls, hd, -⟩ := setSection_of_named h allowAdd hraw hmem
  have hlines : ini.sectionLines (sectionName raw) = nonblank sel := by
    rw [← hd.sectionLines_eq, sectionLines, sectionLines, hd.toHasLines.textLines_eq,
      h.textLines_eq, hls]
  rw [hset, hd.get_eq (notMem_of_all_keyChar hkey (by decide)) (head_ne_of_all_keyChar hkey),
    hlines, lookup_nonblank]

/-! ## The value after reloading -/

/-- The value is returned at once, and again after the configuration was written out, read back
and the section selected again. -/
def RoundTrips (ini : IniFile) (raw key data : List Char) : Prop :=
  ∃ ini', set ini key data = some (true, ini') ∧ get ini' key = some data ∧
    ∀ allowAdd, get (setSection ini'.reload raw allowAdd).2 key = some data

/-- The value a line before the parameter's own gives the parameter once that line is loaded
again. -/
def shadow (ini : IniFile) (name key : List Char) : Option (List Char) :=
  lookup key (((ini.sectionLines name).takeWhile fun l => ¬ HasKey key l).map dropSpaces)

end IniFile

theorem lookup_append (key : List Char) (a b : List Line) :
    lookup key (a ++ b) = (lookup key a).or (lookup key b) := by
  rw [lookup, find?_append, lookup, lookup]
  cases a.find? fun l => HasKey key l <;> rfl

/-- The line of a parameter comes after the lines that do not name it. -/
theorem exists_assign_eq (key value : List Char) (body : List Line) : ∃ rest,
    assign key value body
      = (body.takeWhile fun l => ¬ HasKey key l) ++ keyLine key value :: rest := by
  induction body with
  | nil => exact ⟨[], rfl⟩
  | cons l body ih =>
    by_cases hl : HasKey key l
    · exact ⟨body, by rw [assign, if_pos hl, takeWhile_cons_of_neg (by simpa using hl)]; rfl⟩
    · obtain ⟨rest, hrest⟩ := ih
      exact ⟨rest, by
        rw [assign, if_neg hl, takeWhile_cons_of_pos (by simpa using hl), hrest]; rfl⟩

namespace IniFile

variable {ini ini' : IniFile} {st : Store} {name raw key data : List Char}
  {pre sel tail ls : List Line} {hdr : Line}

/-- **What loading makes of an assigned parameter**: the first line before it that turns into a
line of the parameter wins. -/
theorem lookup_reloaded_assign (hkey : key.all keyChar = true) (value : List Char)
    (body : List Line) : lookup key ((assign key value body).map dropSpaces)
      = (lookup key ((body.takeWhile fun l => ¬ HasKey key l).map dropSpaces)).or (some value) := by
  obtain ⟨rest, hrest⟩ := exists_assign_eq key value body
  rw [hrest, map_append, map_cons, dropSpaces_keyLine hkey, lookup_append,
    lookup_cons_of_hasKey (hasKey_keyLine key value)]
  simp [keyLine]

/-- **Setting and reading back, from a selected section.** -/
theorem Delimits.roundTrips_iff_shadow (h : Delimits ini (sectionName raw) pre hdr sel tail)
    (hraw : sectionName raw ≠ []) (hkey : key.all keyChar = true) (data : List Char) :
    RoundTrips ini raw key data ↔
      ∀ value ∈ shadow ini (sectionName raw) key, unescape value = data := by
  have hnl : '\n' ∉ key := notMem_of_all_keyChar hkey (by decide)
  obtain ⟨ini', hset, hd⟩ := h.set_eq_assign hkey data
  have hget : get ini' key = some data := by
    rw [hd.get_eq hnl (head_ne_of_all_keyChar hkey), lookup_assign_self, Option.map_some,
      unescape_escape]
  -- The reloaded text still has the header.
  have hmem : ∃ l ∈ (pre ++ hdr :: (assign key (escape data) sel ++ tail)).map dropSpaces,
      header (sectionName raw) <+: l := by
    refine ⟨hdr, mem_map.mpr ⟨hdr, by simp, ?_⟩, h.named⟩
    exact dropSpaces_of_isHeader (isHeader_of_named h.named)
  have hreload : ∀ allowAdd, get (setSection ini'.reload raw allowAdd).2 key
      = some (((shadow ini (sectionName raw) key).map unescape).getD data) := by
    intro allowAdd
    rw [get_setSection_of_named (hasLines_reload hd.toHasLines) allowAdd hraw hmem hkey,
      sectionLines_reload hd.toHasLines, hd.sectionLines_eq, ← assign_nonblank,
      lookup_reloaded_assign hkey, shadow, h.sectionLines_eq]
    cases lookup key _ with
    | none => simp [unescape_escape]
    | some value => rfl
  have htrips : RoundTrips ini raw key data ↔
      ((shadow ini (sectionName raw) key).map unescape).getD data = data := by
    constructor
    · rintro ⟨ini₁, hset₁, -, hget₁⟩
      obtain rfl : ini' = ini₁ := by
        rw [hset, Option.some.injEq, Prod.mk.injEq] at hset₁
        exact hset₁.2
      have := hget₁ true
      rwa [hreload, Option.some.injEq] at this
    · intro hval
      exact ⟨ini', hset, hget, fun allowAdd => by rw [hreload, hval]⟩
  rw [htrips]
  cases shadow ini (sectionName raw) key with
  | none => simp
  | some value => simp

/-! ## Runs -/

/-- The calls of a run, one after the other; `none` where one of them throws. -/
def run (ini : IniFile) : List Op → Option IniFile
  | [] => some ini
  | op :: ops => (step ini op).bind fun r => run r.2 ops

/-- A call that selects no other section. -/
def Op.Stays : Op → Prop
  | .setSection _ _ | .removeSection _ => False
  | _ => True

end IniFile

namespace Store

open IniFile (Op)

/-- The store after a run. -/
def run (st : Store) (ops : List Op) : Store := ops.foldl (fun st op => (st.step op).2) st

theorem step_current_of_stays (st : Store) {op : Op} (h : op.Stays) :
    (st.step op).2.current = st.current := by
  have hedit : ∀ f, (st.edit f).current = st.current := by
    intro f
    rw [edit]
    cases h : st.current <;> simp [h]
  cases op with
  | setSection raw allowAdd => exact absurd h not_false
  | removeSection raw => exact absurd h not_false
  | set key data =>
    rw [step]
    split_ifs
    · exact hedit _
    · rfl
  | unset key =>
    rw [step]
    split_ifs
    · exact hedit _
    · rfl
  | get key => rfl

theorem run_current_of_stays {ops : List Op} (h : ∀ op ∈ ops, op.Stays) (st : Store) :
    (st.run ops).current = st.current := by
  induction ops generalizing st with
  | nil => rfl
  | cons op ops ih =>
    rw [run, foldl_cons, ← run, ih fun x hx => h x (mem_cons_of_mem op hx),
      step_current_of_stays st (h op mem_cons_self)]

/-- A section that was selected is that of the name. -/
theorem step_setSection_current (st : Store) (raw : List Char) (allowAdd : Bool) :
    (st.step (.setSection raw allowAdd)).2.current = none ∨
      (st.step (.setSection raw allowAdd)).2.current = some (IniFile.sectionName raw) ∧
        IniFile.sectionName raw ≠ [] := by
  rw [step]
  split_ifs with hname
  · exact Or.inl rfl
  · exact Or.inr ⟨rfl, hname⟩
  · exact Or.inr ⟨rfl, hname⟩
  · exact Or.inl rfl

end Store

namespace IniFile

variable {ini ini' : IniFile} {st : Store} {raw key : List Char} {ops : List Op}

/-- **A run whose calls meet their conditions ends in a text that spells the store's.** -/
theorem run_refines (hr : Refines ini st) (hok : RunOk ini ops) (hrun : run ini ops = some ini') :
    Refines ini' (st.run ops) := by
  induction ops generalizing ini st with
  | nil =>
    cases hrun
    exact hr
  | cons op ops ih =>
    obtain ⟨ini₁, hstep, -, hr₁⟩ := step_refines hr hok.1
    rw [run, hstep, Option.bind_some] at hrun
    exact ih hr₁ (hok.2 _ _ hstep) hrun

end IniFile

end Licq
