import Licq.IniFile.Sections

/-!
# IniFile/Select — selecting, creating and removing sections, on the lines of the text

`setSection` searches the header and walks the end pointer back over blank lines; `removeSection`
searches the header again, backwards.  Both are computed here on the lines of the text, and the
first establishes `Delimits`.
-/

namespace Licq

open Text List

namespace IniFile

/-! ## Splitting at the next header, and at the last line that is not blank -/

/-- Lines split at the first header. -/
theorem exists_body (ls : List Line) : ∃ body tail, ls = body ++ tail ∧
    (∀ l ∈ body, ¬ IsHeader l) ∧ ∀ l, tail.head? = some l → IsHeader l := by
  induction ls with
  | nil => exact ⟨[], [], rfl, by simp, by simp⟩
  | cons x ls ih =>
    by_cases hx : IsHeader x
    · exact ⟨[], x :: ls, rfl, by simp, by rintro l ⟨⟩; exact hx⟩
    · obtain ⟨body, tail, rfl, hbody, htail⟩ := ih
      exact ⟨x :: body, tail, rfl, by simpa [hx] using hbody, htail⟩

/-- Blank lines. -/
abbrev blanks (k : ℕ) : List Line := List.replicate k []

theorem blanks_succ (k : ℕ) : blanks (k + 1) = [] :: blanks k := rfl

theorem blanks_succ' (k : ℕ) : blanks (k + 1) = blanks k ++ [[]] := replicate_succ'

/-- Lines split after the last one that is not blank. -/
theorem exists_trimmed (ls : List Line) :
    ∃ sel k, ls = sel ++ blanks k ∧ sel.getLast? ≠ some [] := by
  induction ls using reverseRecOn with
  | nil => exact ⟨[], 0, rfl, by simp⟩
  | append_singleton ls l ih =>
    by_cases hl : l = []
    · obtain ⟨sel, k, rfl, hlast⟩ := ih
      exact ⟨sel, k + 1, by rw [hl, append_assoc, ← blanks_succ'], hlast⟩
    · exact ⟨ls ++ [l], 0, by simp, by simpa using hl⟩

theorem endsSection_blanks {k : ℕ} {tail : List Line} :
    EndsSection (blanks k ++ tail) ↔ EndsSection tail := by
  induction k with
  | zero => simp
  | succ k ih =>
    rw [blanks_succ, cons_append, EndsSection, ih]
    simp [IsHeader]

theorem endsSection_of_head {tail : List Line} (h : ∀ l, tail.head? = some l → IsHeader l) :
    EndsSection tail := by
  cases tail with
  | nil => trivial
  | cons l tail => exact Or.inl (h l rfl)

/-! ## The header of a section -/

theorem nl_notMem_sectionName (raw : List Char) : '\n' ∉ sectionName raw := by
  intro h
  exact absurd (mem_filter.mp h).2 (by decide)

theorem nl_notMem_header {name : List Char} (h : '\n' ∉ name) : '\n' ∉ header name := by
  simpa [header] using h

theorem isHeader_of_named {name : List Char} {l : Line} (h : header name <+: l) : IsHeader l := by
  obtain ⟨t, rfl⟩ := h
  simp [header, IsHeader]

/-- A header line counts as named by what it starts with. -/
theorem named_header (name : List Char) : header name <+: header name := prefix_refl _

/-! ## Characters of a text of lines -/

/-- The character before the lines `b` is a line break. -/
theorem getElem?_offset (a b : List Line) : ('\n' :: unlines '\n' (a ++ b))[offset a]? = some '\n' := by
  have h := congrArg head? (drop_unlines '\n' a b)
  rwa [head?_drop] at h

/-- The character before a line break is the last one of its line. -/
theorem getElem?_last {l : Line} (hl : l ≠ []) (a b : List Line) :
    ('\n' :: unlines '\n' (a ++ l :: b))[offset (a ++ [l]) - 1]? = l.getLast? := by
  have hlen : 0 < l.length := length_pos_iff.mpr hl
  rw [show offset (a ++ [l]) - 1 = ('\n' :: unlines '\n' a).length + (l.length - 1) by
      simp only [offset_append, offset_cons, offset_nil, length_cons, length_unlines_nl]
      omega,
    unlines_append, ← cons_append, getElem?_append_right (by omega),
    Nat.add_sub_cancel_left, unlines_cons, getElem?_append_left (by omega),
    List.getLast?_eq_getElem?]

/-! ## The end of a section -/

variable {ini : IniFile} {name raw : List Char} {pre sel tail ls : List Line} {hdr : Line}

/-- **The end pointer moves back over the blank lines of a section, and no further.** -/
theorem trimEnd_eq {p : List Line} (hsel : sel.getLast? ≠ some [])
    (hterm : Terminated '\n' sel) (k : ℕ) :
    trimEnd ('\n' :: unlines '\n' (p ++ (sel ++ (blanks k ++ tail)))) (offset p + 1)
      (offset (p ++ (sel ++ blanks k)) + 1) = offset (p ++ sel) + 1 := by
  induction k generalizing tail with
  | zero =>
    rw [trimEnd, if_neg]
    · simp
    rintro ⟨hlt, hnl⟩
    obtain rfl | ⟨sel', l, rfl⟩ := eq_nil_or_concat sel
    · simp at hlt
    rw [concat_eq_append] at *
    have hl : l ≠ [] := by simpa using hsel
    rw [show p ++ (sel' ++ [l] ++ (blanks 0 ++ tail)) = (p ++ sel') ++ l :: tail by simp,
      show p ++ (sel' ++ [l] ++ blanks 0) = (p ++ sel') ++ [l] by simp,
      getElem?_last hl] at hnl
    have hmem : '\n' ∉ l := (terminated_cons.mp (terminated_append.mp hterm).2).1
    exact hmem (mem_of_getLast? hnl)
  | succ k ih =>
    have hoff : offset (p ++ (sel ++ blanks (k + 1))) = offset (p ++ (sel ++ blanks k)) + 1 := by
      rw [blanks_succ']
      simp only [offset_append, offset_cons, offset_nil, length_nil]
      omega
    have htext : p ++ (sel ++ (blanks (k + 1) ++ tail))
        = (p ++ (sel ++ blanks k)) ++ ([] :: tail) := by
      simp [blanks_succ']
    rw [hoff, trimEnd, if_pos]
    · rw [htext, append_assoc, append_assoc, ih]
    · refine ⟨by simp only [offset_append]; omega, ?_⟩
      rw [htext]
      exact getElem?_offset _ _

/-- The search for the end of a section: the next header, or the end of the text. -/
theorem sectionEnd_eq {p body : List Line} (hbody : ∀ l ∈ body, ¬ IsHeader l)
    (hterm : Terminated '\n' body) (htail : ∀ l, tail.head? = some l → IsHeader l) :
    sectionEnd ('\n' :: unlines '\n' (p ++ (body ++ tail))) (offset p + 1)
      = offset (p ++ body) + 1 := by
  have hnb : ∀ x ∈ body, ¬ ['['] <+: x := by
    rintro x hx ⟨t, rfl⟩
    exact hbody _ hx rfl
  rw [sectionEnd, Nat.add_sub_cancel]
  cases tail with
  | nil =>
    rw [append_nil, offset, findFrom_line_none (by decide) (by simp) hterm hnb]
    simp
  | cons l tail =>
    obtain ⟨t, rfl⟩ : ∃ t, l = '[' :: t := head?_eq_some_iff.mp (htail l rfl)
    rw [offset, findFrom_line (by decide) hterm hnb (by simp)]
    simp

/-- **Selecting a section that exists delimits its lines**; the text stays. -/
theorem setSection_of_named (h : HasLines ini ls) (allowAdd : Bool)
    (hname : sectionName raw ≠ []) (hmem : ∃ l ∈ ls, header (sectionName raw) <+: l) :
    ∃ ini' pre hdr sel tail, setSection ini raw allowAdd = (true, ini') ∧
      ls = pre ++ hdr :: (sel ++ tail) ∧ Delimits ini' (sectionName raw) pre hdr sel tail ∧
      ini'.myIsModified = ini.myIsModified := by
  obtain ⟨pre, hdr, rest, rfl, hhdr, hpre⟩ := exists_first hmem
  obtain ⟨body, next, rfl, hbody, hnext⟩ := exists_body rest
  obtain ⟨sel, k, rfl, hlast⟩ := exists_trimmed body
  have hterm := h.terminated
  simp only [terminated_append, terminated_cons] at hterm
  obtain ⟨hpt, hht, ⟨hst, hkt⟩, hnt⟩ := hterm
  have hassoc : pre ++ hdr :: (sel ++ blanks k ++ next)
      = (pre ++ [hdr]) ++ (sel ++ blanks k ++ next) := by simp
  -- The header is found at its line, and its line break ends that line.
  have hfind : find ('\n' :: header (sectionName raw)) ini.myConfigData = some (offset pre) := by
    rw [h.data]
    exact find_line (nl_notMem_header (nl_notMem_sectionName raw)) hpt hpre hhdr _
  have hstart : findFrom ['\n'] ini.myConfigData (offset pre + 1)
      = some (offset (pre ++ [hdr])) := by
    have hcut : ini.myConfigData = ('\n' :: unlines '\n' pre)
        ++ (hdr ++ '\n' :: unlines '\n' (sel ++ blanks k ++ next)) := by
      rw [h.data]
      simp
    rw [hcut, show offset pre + 1 = ('\n' :: unlines '\n' pre).length by simp,
      findFrom_append, find_nl hht]
    simp only [Option.map_some, length_cons, length_unlines_nl, offset_append, offset_cons,
      offset_nil, Option.some.injEq]
    omega
  have hend := sectionEnd_eq (p := pre ++ [hdr]) hbody (terminated_append.mpr ⟨hst, hkt⟩) hnext
  have htrim := @trimEnd_eq sel next (pre ++ [hdr]) hlast hst k
  rw [← hassoc] at hend
  rw [← append_assoc sel, ← hassoc] at htrim
  rw [← h.data] at hend htrim
  refine ⟨{ ini with mySection := some (offset (pre ++ [hdr]) + 1,
    offset (pre ++ [hdr] ++ sel) + 1) }, pre, hdr, sel, blanks k ++ next, ?_, by simp, ?_, rfl⟩
  · rw [setSection]
    simp only [if_neg hname, hfind, hstart, hend, htrim]
  · exact
      { terminated := by rw [← append_assoc sel]; exact h.terminated
        data := by rw [← append_assoc sel]; exact h.data
        pointers := rfl
        named := hhdr
        first := hpre
        body := fun l hl => hbody l (mem_append_left _ hl)
        tail_ends := endsSection_blanks.mpr (endsSection_of_head hnext) }

theorem find_header_of_absent (h : HasLines ini ls)
    (hmem : ∀ l ∈ ls, ¬ header (sectionName raw) <+: l) :
    find ('\n' :: header (sectionName raw)) ini.myConfigData = none := by
  rw [h.data]
  exact find_line_none (nl_notMem_header (nl_notMem_sectionName raw)) (by simp [header])
    h.terminated hmem

/-- **A section that does not exist is appended**, after a blank line unless one is there. -/
theorem setSection_add (h : HasLines ini ls) (hname : sectionName raw ≠ [])
    (hmem : ∀ l ∈ ls, ¬ header (sectionName raw) <+: l) :
    ∃ ini' sep, setSection ini raw true = (true, ini') ∧
      Delimits ini' (sectionName raw) (ls ++ blanks sep) (header (sectionName raw)) [] [] := by
  have hheader : '\n' ∉ header (sectionName raw) := nl_notMem_header (nl_notMem_sectionName raw)
  obtain ⟨sep, hsep⟩ : ∃ sep,
      (if 1 < ini.myConfigData.length ∧
          (ini.myConfigData[ini.myConfigData.length - 1]? ≠ some '\n' ∨
            ini.myConfigData[ini.myConfigData.length - 2]? ≠ some '\n') then
          ini.myConfigData ++ ['\n']
        else ini.myConfigData) = '\n' :: unlines '\n' (ls ++ blanks sep) := by
    by_cases hc : 1 < ini.myConfigData.length ∧
        (ini.myConfigData[ini.myConfigData.length - 1]? ≠ some '\n' ∨
          ini.myConfigData[ini.myConfigData.length - 2]? ≠ some '\n')
    · exact ⟨1, by rw [if_pos hc, h.data]; simp⟩
    · exact ⟨0, by rw [if_neg hc, h.data]; simp⟩
  have hdata : '\n' :: unlines '\n' (ls ++ blanks sep) ++ header (sectionName raw) ++ ['\n']
      = '\n' :: unlines '\n' (ls ++ blanks sep ++ [header (sectionName raw)]) := by simp
  have hlen : ('\n' :: unlines '\n' (ls ++ blanks sep ++ [header (sectionName raw)])).length
      = offset (ls ++ blanks sep ++ [header (sectionName raw)]) + 1 := by
    rw [length_cons, length_unlines_nl]
  refine ⟨⟨'\n' :: unlines '\n' (ls ++ blanks sep ++ [header (sectionName raw)]),
    some (offset (ls ++ blanks sep ++ [header (sectionName raw)]) + 1,
      offset (ls ++ blanks sep ++ [header (sectionName raw)]) + 1), true⟩, sep, ?_, ?_⟩
  · rw [setSection]
    simp only [if_neg hname, find_header_of_absent h hmem, if_true]
    rw [hsep, hdata, hlen]
  · exact
      { terminated := by
          have hb : Terminated '\n' (blanks sep) := by
            intro l hl
            simp [eq_of_mem_replicate hl]
          have hlast : Terminated '\n' [header (sectionName raw)] :=
            terminated_cons.mpr ⟨hheader, Terminated.nil⟩
          exact terminated_append.mpr ⟨terminated_append.mpr ⟨h.terminated, hb⟩, hlast⟩
        data := by simp
        pointers := by simp
        named := named_header _
        first := fun l hl => by
          rcases mem_append.mp hl with hl | hl
          · exact hmem l hl
          · rw [eq_of_mem_replicate hl]
            simp [header]
        body := by simp
        tail_ends := trivial }

/-! ## Removing a section -/

/-- A backward search over a stretch without line breaks stops at the line break before it. -/
theorem rfindFrom_line {a l : List Char} {c : Char} (hl : '\n' ∉ c :: l) (s : List Char) (k : ℕ)
    (hk : k ≤ l.length + 1) :
    rfindFrom ['\n', c] (a ++ '\n' :: c :: (l ++ s)) (a.length + k) = some a.length := by
  induction k with
  | zero =>
    cases ha : a.length with
    | zero => simp [rfindFrom, length_eq_zero_iff.mp ha]
    | succ n => rw [Nat.add_zero, rfindFrom, ← ha, drop_left, if_pos (by simp), ha]
  | succ k ih =>
    rw [← Nat.add_assoc, rfindFrom, if_neg, ih (by omega)]
    rw [Nat.add_assoc, ← drop_drop, drop_left, drop_succ_cons]
    rintro ⟨t, ht⟩
    have hhead : ((c :: l) ++ s)[k]? = some '\n' := by
      rw [← head?_drop, cons_append, ← ht]
      rfl
    rw [getElem?_append_left (by rw [length_cons]; omega)] at hhead
    exact hl (mem_of_getElem? hhead)

/-- The line breaks at the front of a text that ends a section are its blank lines. -/
theorem takeWhile_nl (htail : EndsSection tail) : ∃ k next, tail = blanks k ++ next ∧
    (∀ l, next.head? = some l → IsHeader l) ∧
    ((unlines '\n' tail).takeWhile (· = '\n')).length = offset (blanks k) := by
  induction tail with
  | nil => exact ⟨0, [], rfl, by simp, rfl⟩
  | cons x tail ih =>
    rcases htail with hx | ⟨rfl, htail⟩
    · obtain ⟨t, rfl⟩ : ∃ t, x = '[' :: t := head?_eq_some_iff.mp hx
      exact ⟨0, _, rfl, by rintro l ⟨⟩; exact hx, by simp⟩
    · obtain ⟨k, next, rfl, hnext, hlen⟩ := ih htail
      refine ⟨k + 1, next, rfl, hnext, ?_⟩
      rw [blanks_succ, offset_cons, ← hlen]
      simp [Nat.add_comm]

/-- **Removing a section erases its header, its lines and the blank lines after it.** -/
theorem removeSection_of_delimits {ini' : IniFile} (h : Delimits ini' (sectionName raw) pre hdr sel tail)
    (hsel : setSection ini raw false = (true, ini')) :
    ∃ k next, tail = blanks k ++ next ∧ (∀ l, next.head? = some l → IsHeader l) ∧
      HasLines (removeSection ini raw) (pre ++ next) ∧
      (removeSection ini raw).mySection = none := by
  obtain ⟨k, next, rfl, hnext, hblank⟩ := takeWhile_nl h.tail_ends
  obtain ⟨t, rfl⟩ : ∃ t, hdr = '[' :: t := by
    obtain ⟨t, rfl⟩ := h.named
    exact ⟨_, rfl⟩
  have hterm := h.terminated
  simp only [terminated_append, terminated_cons] at hterm
  obtain ⟨hpt, hht, -, -, hnt⟩ := hterm
  have hfind : rfindFrom ['\n', '['] ini'.myConfigData (offset (pre ++ ['[' :: t]) + 1 - 2)
      = some (offset pre) := by
    obtain ⟨a, ha, hlen⟩ := exists_cut pre
    have hdata : ini'.myConfigData
        = a ++ '\n' :: '[' :: (t ++ '\n' :: unlines '\n' (sel ++ (blanks k ++ next))) := by
      have := congrArg (· ++ ('[' :: t) ++ '\n' :: unlines '\n' (sel ++ (blanks k ++ next))) ha
      rw [h.data]
      simpa using this
    rw [hdata, show offset (pre ++ ['[' :: t]) + 1 - 2 = a.length + (t.length + 1) by
      simp only [offset_append, offset_cons, offset_nil, length_cons, hlen]; omega,
      rfindFrom_line hht _ _ (Nat.le_refl _), hlen]
  have hdrop : ini'.myConfigData.drop (offset (pre ++ ['[' :: t] ++ sel) + 1)
      = unlines '\n' (blanks k ++ next) := by
    rw [h.data_at_stop, ← length_unlines_nl, ← length_cons, drop_left]
  have htake : ini'.myConfigData.take (offset pre + 1) = '\n' :: unlines '\n' pre := by
    rw [h.data, unlines_append, ← cons_append, ← length_unlines_nl, ← length_cons,
      take_left]
  have hremove : removeSection ini raw
      = ⟨'\n' :: unlines '\n' (pre ++ next), none, true⟩ := by
    rw [removeSection, hsel]
    simp only [h.pointers, hfind, hdrop, hblank]
    rw [htake, ← drop_drop, hdrop, unlines_append, ← length_unlines_nl, drop_left]
    simp
  rw [hremove]
  exact ⟨k, next, rfl, hnext, ⟨terminated_append.mpr ⟨hpt, hnt⟩, rfl⟩, rfl⟩

end IniFile

end Licq
