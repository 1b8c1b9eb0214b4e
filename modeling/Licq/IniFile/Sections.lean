import Licq.IniFile.Store

/-!
# IniFile/Sections — the operations, on the lines of the text

`Delimits ini name pre hdr sel tail` reads a text with a selected section as lines: those before
the header, the header, the lines between the two section pointers, and the rest.  Each operation
of `IniFile/Basic` is computed on such a text.
-/

namespace Licq

open Text List

/-- A list of lines that ends a section: blank lines, then nothing or the next header. -/
def EndsSection : List Line → Prop
  | [] => True
  | l :: ls => IsHeader l ∨ l = [] ∧ EndsSection ls

/-- The length of the text of `ls`, which is the offset of the line break before the line after
`ls`. -/
def offset (ls : List Line) : ℕ := (unlines '\n' ls).length

@[simp] theorem length_unlines_nl (ls : List Line) : (unlines '\n' ls).length = offset ls := rfl

@[simp] theorem offset_nil : offset [] = 0 := rfl

@[simp] theorem offset_cons (l : Line) (ls : List Line) :
    offset (l :: ls) = l.length + 1 + offset ls := by
  simp only [offset, unlines_cons, length_append, length_cons]
  omega

@[simp] theorem offset_append (a b : List Line) : offset (a ++ b) = offset a + offset b := by
  rw [offset, unlines_append, length_append]
  rfl

theorem offset_pos {ls : List Line} (h : ls ≠ []) : 0 < offset ls :=
  length_pos_iff.mpr fun h0 => h (unlines_eq_nil_iff.mp h0)

/-- The text up to the line break before the line after `ls`. -/
theorem exists_cut (ls : List Line) :
    ∃ t, '\n' :: unlines '\n' ls = t ++ ['\n'] ∧ t.length = offset ls := by
  obtain rfl | hne := eq_or_ne ls []
  · exact ⟨[], rfl, rfl⟩
  · obtain ⟨t, ht⟩ : ∃ t, unlines '\n' ls = t ++ ['\n'] :=
      getLast?_eq_some_iff.mp (getLast?_unlines hne)
    exact ⟨'\n' :: t, by rw [ht]; rfl, by rw [← length_unlines_nl, ht]; simp⟩

namespace IniFile

/-- The text of the configuration is these lines. -/
structure HasLines (ini : IniFile) (ls : List Line) : Prop where
  terminated : Terminated '\n' ls
  data : ini.myConfigData = '\n' :: unlines '\n' ls

/-- **The section pointers delimit the lines `sel` of the section `name`**: they are all of its
lines but blank ones at the end. -/
structure Delimits (ini : IniFile) (name : List Char) (pre : List Line) (hdr : Line)
    (sel tail : List Line) : Prop extends HasLines ini (pre ++ hdr :: (sel ++ tail)) where
  pointers : ini.mySection
    = some (offset (pre ++ [hdr]) + 1, offset (pre ++ [hdr] ++ sel) + 1)
  named : header name <+: hdr
  first : ∀ l ∈ pre, ¬ header name <+: l
  body : ∀ l ∈ sel, ¬ IsHeader l
  tail_ends : EndsSection tail

/-! ## Searching for a parameter -/

/-- A list with an element satisfying `P` splits at the first one. -/
theorem exists_first {P : Line → Prop} [DecidablePred P] {ls : List Line} (h : ∃ x ∈ ls, P x) :
    ∃ a l b, ls = a ++ l :: b ∧ P l ∧ ∀ x ∈ a, ¬ P x := by
  obtain ⟨l, hl⟩ := Option.isSome_iff_exists.mp
    (find?_isSome.mpr (show ∃ x ∈ ls, decide (P x) = true by simpa using h))
  obtain ⟨hp, a, b, hab, hna⟩ := find?_eq_some_iff_append.mp hl
  exact ⟨a, l, b, hab, by simpa using hp, by simpa using hna⟩

theorem needle_eq (key : List Char) : needle key = '\n' :: (key ++ ['=']) := rfl

theorem nl_notMem_pattern {key : List Char} (h : '\n' ∉ key) : '\n' ∉ key ++ ['='] := by
  simpa using h

variable {ini : IniFile} {name : List Char} {pre sel tail : List Line} {hdr : Line}
  {key : List Char}

namespace Delimits

theorem eq_data (h : Delimits ini name pre hdr sel tail) :
    ini.myConfigData = '\n' :: unlines '\n' ((pre ++ [hdr]) ++ (sel ++ tail)) := by
  rw [h.data, append_assoc, singleton_append]

theorem terminated_parts (h : Delimits ini name pre hdr sel tail) :
    Terminated '\n' (pre ++ [hdr]) ∧ Terminated '\n' sel ∧ Terminated '\n' tail := by
  have := h.terminated
  simp only [terminated_append, terminated_cons] at this
  exact ⟨by simpa [Terminated.nil] using ⟨this.1, this.2.1⟩, this.2.2.1, this.2.2.2⟩

/-- **A parameter of the section is found at its first line.** -/
theorem find_key {a b : List Line} {l : Line} (h : Delimits ini name pre hdr sel tail)
    (hkey : '\n' ∉ key) (hsel : sel = a ++ l :: b) (ha : ∀ x ∈ a, ¬ HasKey key x)
    (hl : HasKey key l) :
    findFrom (needle key) ini.myConfigData (offset (pre ++ [hdr]))
      = some (offset (pre ++ [hdr] ++ a)) := by
  have hta : Terminated '\n' a := by
    have := h.terminated_parts.2.1
    rw [hsel, terminated_append] at this
    exact this.1
  rw [h.eq_data, hsel, append_assoc a, cons_append]
  exact findFrom_line (nl_notMem_pattern hkey) hta ha hl (b ++ tail)

/-- **A parameter the section lacks is found past the section, or nowhere.** -/
theorem find_key_of_absent (h : Delimits ini name pre hdr sel tail) (hkey : '\n' ∉ key)
    (hsel : ∀ x ∈ sel, ¬ HasKey key x) :
    findFrom (needle key) ini.myConfigData (offset (pre ++ [hdr])) = none ∨
      ∃ a l b, tail = a ++ l :: b ∧ HasKey key l ∧ (∀ x ∈ a, ¬ HasKey key x) ∧
        findFrom (needle key) ini.myConfigData (offset (pre ++ [hdr]))
          = some (offset (pre ++ [hdr] ++ sel ++ a)) := by
  obtain ⟨-, hts, htt⟩ := h.terminated_parts
  rw [h.eq_data, needle_eq]
  by_cases htail : ∀ x ∈ tail, ¬ HasKey key x
  · refine Or.inl (findFrom_line_none (nl_notMem_pattern hkey) (by simp)
      (terminated_append.mpr ⟨hts, htt⟩) fun x hx => ?_)
    exact (mem_append.mp hx).elim (hsel x) (htail x)
  · simp only [not_forall, not_not] at htail
    obtain ⟨x, hx, hkx⟩ := htail
    obtain ⟨a, l, b, rfl, hl, ha⟩ := exists_first ⟨x, hx, hkx⟩
    have hta : Terminated '\n' (sel ++ a) :=
      terminated_append.mpr ⟨hts, (terminated_append.mp htt).1⟩
    refine Or.inr ⟨a, l, b, rfl, hl, ha, ?_⟩
    rw [← append_assoc sel, append_assoc _ sel]
    refine findFrom_line (nl_notMem_pattern hkey) hta (fun y hy => ?_) hl b
    exact (mem_append.mp hy).elim (hsel y) (ha y)

end Delimits

/-! ## Reading a parameter -/

/-- The line break after a value. -/
theorem lengthTo_append {a v : List Char} (hv : '\n' ∉ v) (b : List Char) :
    lengthTo (a ++ (v ++ '\n' :: b)) a.length a.length = v.length := by
  rw [lengthTo, findFrom_append, find_nl hv, Option.map_some]
  exact Nat.add_sub_cancel ..

namespace Delimits

variable {a b : List Line} {value : List Char}

/-- The text around a line of the section, cut at the value of the parameter it names. -/
theorem data_at_key
    (h : Delimits ini name pre hdr (a ++ keyLine key value :: b) tail) :
    ini.myConfigData = ('\n' :: unlines '\n' (pre ++ [hdr] ++ a) ++ (key ++ ['=']))
      ++ (value ++ '\n' :: unlines '\n' (b ++ tail)) := by
  rw [h.eq_data]
  simp [keyLine]

theorem nl_notMem_value
    (h : Delimits ini name pre hdr (a ++ keyLine key value :: b) tail) : '\n' ∉ value := by
  have := h.terminated_parts.2.1
  simp only [terminated_append, terminated_cons, keyLine, mem_append, mem_cons] at this
  tauto

/-- The position of a value in the text, as the code computes it from the position of the key. -/
theorem length_before_value (a : List Line) :
    ('\n' :: unlines '\n' (pre ++ [hdr] ++ a) ++ (key ++ ['='])).length
      = offset (pre ++ [hdr] ++ a) + key.length + 2 := by
  simp only [length_append, length_cons, length_nil, length_unlines_nl]
  omega

/-- **The value of a parameter of the section is that of its first line.** -/
theorem get_of_line
    (h : Delimits ini name pre hdr (a ++ keyLine key value :: b) tail) (hkey : '\n' ∉ key)
    (ha : ∀ x ∈ a, ¬ HasKey key x) : get ini key = some (unescape value) := by
  have hpos := h.find_key hkey rfl ha (by simp [HasKey, keyLine])
  have hin : ¬ offset (pre ++ [hdr] ++ (a ++ keyLine key value :: b)) + 1
      ≤ offset (pre ++ [hdr] ++ a) := by
    simp only [offset_append]
    omega
  rw [get, h.pointers]
  simp only [Nat.add_sub_cancel, hpos, if_neg hin]
  rw [← length_before_value, h.data_at_key, lengthTo_append h.nl_notMem_value, drop_left,
    take_left]

/-- **…and a parameter the section lacks has none**, unless the search meets the key in the line
right after the section. -/
theorem get_of_absent (h : Delimits ini name pre hdr sel tail) (hkey : '\n' ∉ key)
    (hsel : ∀ x ∈ sel, ¬ HasKey key x) (hhead : ∀ l, tail.head? = some l → ¬ HasKey key l) :
    get ini key = none := by
  rw [get, h.pointers]
  simp only [Nat.add_sub_cancel]
  rcases h.find_key_of_absent hkey hsel with hnone | ⟨a, l, b, rfl, hl, ha, hsome⟩
  · rw [hnone]
  · have hne : a ≠ [] := by
      rintro rfl
      exact hhead l rfl hl
    have hpos := offset_pos hne
    rw [hsome]
    refine if_pos ?_
    rw [offset_append (_ ++ sel)]
    omega

/-- A text that differs in the lines of the section only, its end pointer moved accordingly. -/
theorem withLines {ini' : IniFile} {sel' : List Line} (h : Delimits ini name pre hdr sel tail)
    (hterm : Terminated '\n' sel') (hbody : ∀ l ∈ sel', ¬ IsHeader l)
    (hdata : ini'.myConfigData = '\n' :: unlines '\n' ((pre ++ [hdr]) ++ (sel' ++ tail)))
    (hptr : ini'.mySection
      = some (offset (pre ++ [hdr]) + 1, offset (pre ++ [hdr] ++ sel') + 1)) :
    Delimits ini' name pre hdr sel' tail where
  terminated := by
    obtain ⟨hp, -, ht⟩ := h.terminated_parts
    have := terminated_append.mpr ⟨hp, terminated_append.mpr ⟨hterm, ht⟩⟩
    rwa [append_assoc, singleton_append] at this
  data := by rw [hdata, append_assoc, singleton_append]
  pointers := hptr
  named := h.named
  first := h.first
  body := hbody
  tail_ends := h.tail_ends

/-- The text before the section's end pointer, and the text after it. -/
theorem data_at_stop (h : Delimits ini name pre hdr sel tail) :
    ini.myConfigData = ('\n' :: unlines '\n' (pre ++ [hdr] ++ sel)) ++ unlines '\n' tail := by
  rw [h.eq_data, ← append_assoc, unlines_append, cons_append]

end Delimits

/-! ## Changing a parameter -/

theorem nl_notMem_escape (s : List Char) : '\n' ∉ escape s := by
  induction s using escape.induct with
  | case1 => simp [escape]
  | case2 s ih => simpa [escape] using ih
  | case3 s ih => simpa [escape] using ih
  | case4 c s h1 h2 ih =>
    rw [escape_cons h1 h2, mem_cons, not_or]
    exact ⟨fun h => h1 h.symm, ih⟩

theorem ne_of_keyChar {c d : Char} (hc : keyChar c = true) (hd : keyChar d = false) : c ≠ d := by
  rintro rfl
  rw [hc] at hd
  exact Bool.noConfusion hd

/-- What `set` accepts as a parameter name. -/
theorem notMem_of_all_keyChar {d : Char} (hkey : key.all keyChar = true) (hd : keyChar d = false) :
    d ∉ key := fun hmem => ne_of_keyChar (all_eq_true.mp hkey d hmem) hd rfl

theorem head_ne_of_all_keyChar (hkey : key.all keyChar = true) : key.head? ≠ some '[' :=
  fun h => notMem_of_all_keyChar hkey (by decide) (mem_of_head? h)

variable {l : Line}

/-- A line of a parameter is no section header, unless the name starts with a bracket. -/
theorem not_isHeader_of_hasKey (hkey : key.head? ≠ some '[') (hl : HasKey key l) :
    ¬ IsHeader l := by
  obtain ⟨t, rfl⟩ := hl
  obtain rfl | hne := eq_or_ne key []
  · simp [IsHeader]
  · obtain ⟨c, key, rfl⟩ := exists_cons_of_ne_nil hne
    simpa [IsHeader] using hkey

theorem EndsSection.head_not_hasKey (h : EndsSection tail) (hl : tail.head? = some l)
    (hkey : key.head? ≠ some '[') : ¬ HasKey key l := by
  obtain ⟨tail, rfl⟩ := head?_eq_some_iff.mp hl
  rcases h with hhdr | ⟨rfl, -⟩
  · exact fun hk => not_isHeader_of_hasKey hkey hk hhdr
  · exact fun hk => hk.ne_nil rfl

/-- **The value of a parameter is what the lines of the section give it.** -/
theorem Delimits.get_eq (h : Delimits ini name pre hdr sel tail) (hnl : '\n' ∉ key)
    (hkey : key.head? ≠ some '[') : get ini key = (lookup key sel).map unescape := by
  by_cases hsel : ∃ x ∈ sel, HasKey key x
  · obtain ⟨a, l, b, rfl, ⟨value, rfl⟩, ha⟩ := exists_first hsel
    have hline : key ++ ['='] ++ value = keyLine key value := by simp [keyLine]
    rw [hline] at h ⊢
    rw [h.get_of_line hnl ha, lookup_of_first ha (by simp [HasKey, keyLine])]
    simp [keyLine]
  · simp only [not_exists, not_and] at hsel
    rw [lookup_eq_none_iff.mpr hsel, h.get_of_absent hnl hsel fun l hl =>
      EndsSection.head_not_hasKey h.tail_ends hl hkey]
    rfl

namespace Delimits

/-- The pieces `set` splits the text into, at the value of a parameter of the section. -/
theorem set_of_line {a b : List Line} {value data : List Char}
    (h : Delimits ini name pre hdr (a ++ keyLine key value :: b) tail)
    (hkey : key.all keyChar = true) (ha : ∀ x ∈ a, ¬ HasKey key x) :
    ∃ ini', set ini key data = some (true, ini') ∧
      Delimits ini' name pre hdr (a ++ keyLine key (escape data) :: b) tail := by
  have hnl : '\n' ∉ key := notMem_of_all_keyChar hkey (by decide)
  have hpos := h.find_key hnl rfl ha (by simp [HasKey, keyLine])
  have hin : offset (pre ++ [hdr] ++ a)
      < offset (pre ++ [hdr] ++ (a ++ keyLine key value :: b)) + 1 := by
    simp only [offset_append]
    omega
  rw [set, h.pointers]
  simp only [Nat.add_sub_cancel, hkey, not_true_eq_false, if_false, hpos, if_pos hin]
  rw [← length_before_value, h.data_at_key, lengthTo_append h.nl_notMem_value, drop_left,
    take_left, take_left, ← drop_drop, drop_left, drop_left]
  by_cases hsame : escape data = value
  · refine ⟨ini, by rw [if_pos hsame], ?_⟩
    rwa [hsame]
  · refine ⟨_, by rw [if_neg hsame], ?_⟩
    obtain ⟨hta, -, htb⟩ : Terminated '\n' a ∧ '\n' ∉ keyLine key value ∧ Terminated '\n' b := by
      simpa only [terminated_append, terminated_cons] using h.terminated_parts.2.1
    have hline : '\n' ∉ keyLine key (escape data) := by
      simp [keyLine, hnl, nl_notMem_escape]
    refine h.withLines (terminated_append.mpr ⟨hta, terminated_cons.mpr ⟨hline, htb⟩⟩)
      (fun l hl => ?_) ?_ ?_
    · rcases mem_append.mp hl with hl | hl
      · exact h.body l (mem_append_left _ hl)
      · rcases mem_cons.mp hl with rfl | hl
        · exact not_isHeader_of_hasKey (head_ne_of_all_keyChar hkey) (by simp [HasKey, keyLine])
        · exact h.body l (by simp [hl])
    · simp [keyLine]
    · rw [sizeSub_of_le]
      · simp only [offset_append, offset_cons, keyLine, length_append, length_cons,
          Option.some.injEq, Prod.mk.injEq, true_and]
        omega
      · simp only [offset_append, offset_cons, keyLine, length_append, length_cons]
        omega

/-- A parameter the section lacks is added at its end. -/
theorem set_of_absent {data : List Char} (h : Delimits ini name pre hdr sel tail)
    (hkey : key.all keyChar = true) (hsel : ∀ x ∈ sel, ¬ HasKey key x) :
    ∃ ini', set ini key data = some (true, ini') ∧
      Delimits ini' name pre hdr (sel ++ [keyLine key (escape data)]) tail := by
  have hnl : '\n' ∉ key := notMem_of_all_keyChar hkey (by decide)
  have hstop : ('\n' :: unlines '\n' (pre ++ [hdr] ++ sel)).length
      = offset (pre ++ [hdr] ++ sel) + 1 := by rw [length_cons, length_unlines_nl]
  have hle : offset (pre ++ [hdr] ++ sel) + 1 ≤ ini.myConfigData.length := by
    rw [h.data_at_stop, length_append]
    omega
  have hline : Terminated '\n' (sel ++ [keyLine key (escape data)]) :=
    terminated_append.mpr ⟨h.terminated_parts.2.1, by
      simp [Terminated, keyLine, hnl, nl_notMem_escape]⟩
  have hset : set ini key data = some (true,
      ⟨ini.myConfigData.take (offset (pre ++ [hdr] ++ sel) + 1)
          ++ (key ++ '=' :: escape data ++ ['\n'])
          ++ ini.myConfigData.drop (offset (pre ++ [hdr] ++ sel) + 1),
        some (offset (pre ++ [hdr]) + 1,
          offset (pre ++ [hdr] ++ sel) + 1 + key.length + (escape data).length + 2), true⟩) := by
    rw [set, h.pointers]
    simp only [Nat.add_sub_cancel, hkey, not_true_eq_false, if_false, if_pos hle]
    rcases h.find_key_of_absent hnl hsel with hnone | ⟨a, l, b, rfl, hl, -, hsome⟩
    · rw [hnone]
    · have hne : a ≠ [] := by
        rintro rfl
        exact EndsSection.head_not_hasKey h.tail_ends rfl (head_ne_of_all_keyChar hkey) hl
      have hpos := offset_pos hne
      have hout : ¬ offset (pre ++ [hdr] ++ sel ++ a) < offset (pre ++ [hdr] ++ sel) + 1 := by
        rw [offset_append (_ ++ sel)]
        omega
      rw [hsome]
      simp only [if_neg hout]
  refine ⟨_, hset, h.withLines hline (fun l hl => ?_) ?_ ?_⟩
  · rcases mem_append.mp hl with hl | hl
    · exact h.body l hl
    · obtain rfl := mem_singleton.mp hl
      exact not_isHeader_of_hasKey (head_ne_of_all_keyChar hkey) (by simp [HasKey, keyLine])
  · rw [← hstop, h.data_at_stop, take_left, drop_left]
    simp [keyLine]
  · simp only [offset_append, offset_cons, offset_nil, keyLine, length_append,
      length_cons, Option.some.injEq, Prod.mk.injEq, true_and]
    omega

/-- **Setting a parameter assigns it in the lines of the section.** -/
theorem set_eq_assign (h : Delimits ini name pre hdr sel tail) (hkey : key.all keyChar = true)
    (data : List Char) : ∃ ini', set ini key data = some (true, ini') ∧
      Delimits ini' name pre hdr (assign key (escape data) sel) tail := by
  by_cases hsel : ∃ x ∈ sel, HasKey key x
  · obtain ⟨a, l, b, rfl, ⟨value, rfl⟩, ha⟩ := exists_first hsel
    rw [assign_of_first ha (prefix_append _ _)]
    rw [show key ++ ['='] ++ value = keyLine key value by simp [keyLine]] at h
    exact h.set_of_line hkey ha
  · simp only [not_exists, not_and] at hsel
    rw [assign_of_absent hsel]
    exact h.set_of_absent hkey hsel

end Delimits

/-! ## Removing a parameter -/

/-- **Removing a parameter erases its first line after the section header**, wherever it is. -/
theorem unset_first {p a b : List Line} {stop : ℕ}
    (hdata : ini.myConfigData = '\n' :: unlines '\n' (p ++ (a ++ l :: b)))
    (hptr : ini.mySection = some (offset p + 1, stop)) (hta : Terminated '\n' a) (htl : '\n' ∉ l)
    (hkey : '\n' ∉ key) (ha : ∀ x ∈ a, ¬ HasKey key x) (hl : HasKey key l) :
    unset ini key = (true, ⟨'\n' :: unlines '\n' (p ++ (a ++ b)),
      some (offset p + 1, sizeSub stop (l.length + 1)), true⟩) := by
  have hpos : findFrom (needle key) ini.myConfigData (offset p) = some (offset (p ++ a)) := by
    rw [hdata]
    exact findFrom_line (nl_notMem_pattern hkey) hta ha hl b
  -- The line is erased with the line break before it.
  obtain ⟨t, ht, hlen⟩ := exists_cut (p ++ a)
  have hcut : ini.myConfigData = t ++ ('\n' :: l) ++ ('\n' :: unlines '\n' b) := by
    have : ini.myConfigData = ('\n' :: unlines '\n' (p ++ a)) ++ (l ++ '\n' :: unlines '\n' b) := by
      rw [hdata]
      simp
    rw [this, ht]
    simp
  have hnext : lengthTo ini.myConfigData t.length (t.length + 1) = l.length + 1 := by
    have : ini.myConfigData = (t ++ ['\n']) ++ (l ++ '\n' :: unlines '\n' b) := by
      rw [hcut]
      simp
    rw [lengthTo, this, show t.length + 1 = (t ++ ['\n']).length by simp, findFrom_append,
      find_nl htl]
    simp only [Option.map_some, length_append, length_cons, length_nil]
    omega
  have hresult : ini.myConfigData.take t.length ++ ini.myConfigData.drop (t.length + (l.length + 1))
      = '\n' :: unlines '\n' (p ++ (a ++ b)) := by
    have hjoin : t ++ '\n' :: unlines '\n' b = '\n' :: unlines '\n' (p ++ (a ++ b)) := by
      have := congrArg (· ++ unlines '\n' b) ht.symm
      simpa using this
    rw [← hjoin, hcut, append_assoc, take_left, ← append_assoc,
      show t.length + (l.length + 1) = (t ++ '\n' :: l).length by simp, drop_left]
  rw [unset, hptr]
  simp only [Nat.add_sub_cancel, hpos]
  rw [← hlen, hnext, hresult]

/-- **…within the section, the pointers follow.** -/
theorem Delimits.unset_of_line {a b : List Line}
    (h : Delimits ini name pre hdr (a ++ l :: b) tail) (hkey : '\n' ∉ key)
    (ha : ∀ x ∈ a, ¬ HasKey key x) (hl : HasKey key l) :
    ∃ ini', unset ini key = (true, ini') ∧ Delimits ini' name pre hdr (a ++ b) tail := by
  obtain ⟨hta, htl, htb⟩ : Terminated '\n' a ∧ '\n' ∉ l ∧ Terminated '\n' b := by
    simpa only [terminated_append, terminated_cons] using h.terminated_parts.2.1
  have hdata : ini.myConfigData
      = '\n' :: unlines '\n' ((pre ++ [hdr]) ++ (a ++ l :: (b ++ tail))) := by
    rw [h.eq_data, append_assoc a, cons_append]
  refine ⟨_, unset_first hdata h.pointers hta htl hkey ha hl,
    h.withLines (terminated_append.mpr ⟨hta, htb⟩) (fun x hx => h.body x ?_) ?_ ?_⟩
  · simp only [mem_append, mem_cons] at hx ⊢
    tauto
  · rw [append_assoc a]
  · rw [sizeSub_of_le]
    · simp only [offset_append, offset_cons, Option.some.injEq, Prod.mk.injEq, true_and]
      omega
    · simp only [offset_append, offset_cons]
      omega

/-- The start pointer is that of the section `name`, wherever the end pointer may be: all that is
left of `Delimits` once a parameter of another section has been removed. -/
structure Opens (ini : IniFile) (name : List Char) (pre : List Line) (hdr : Line)
    (rest : List Line) : Prop extends HasLines ini (pre ++ hdr :: rest) where
  pointers : ∃ stop, ini.mySection = some (offset (pre ++ [hdr]) + 1, stop)
  named : header name <+: hdr
  first : ∀ l ∈ pre, ¬ header name <+: l

theorem Delimits.opens (h : Delimits ini name pre hdr sel tail) :
    Opens ini name pre hdr (sel ++ tail) :=
  ⟨h.toHasLines, ⟨_, h.pointers⟩, h.named, h.first⟩

/-- **What `unset` does from the start pointer on**: the first line of the parameter goes, and the
result tells whether there was one. -/
theorem Opens.unset_eq {rest : List Line} (h : Opens ini name pre hdr rest) (hkey : '\n' ∉ key) :
    ∃ ini', unset ini key = (decide (∃ l ∈ rest, HasKey key l), ini') ∧
      Opens ini' name pre hdr (forget key rest) := by
  obtain ⟨stop, hptr⟩ := h.pointers
  have hdata : ini.myConfigData = '\n' :: unlines '\n' ((pre ++ [hdr]) ++ rest) := by
    rw [h.data, append_assoc, singleton_append]
  have hterm := h.terminated
  rw [terminated_append, terminated_cons] at hterm
  by_cases hrest : ∃ l ∈ rest, HasKey key l
  · rw [decide_eq_true hrest]
    obtain ⟨a, l, b, rfl, hl, ha⟩ := exists_first hrest
    rw [terminated_append, terminated_cons] at hterm
    refine ⟨_, unset_first hdata hptr hterm.2.2.1 hterm.2.2.2.1 hkey ha hl, ?_⟩
    rw [forget_of_first ha hl]
    exact
      { terminated := by
          rw [terminated_append, terminated_cons, terminated_append]
          exact ⟨hterm.1, hterm.2.1, hterm.2.2.1, hterm.2.2.2.2⟩
        data := by simp
        pointers := ⟨_, rfl⟩
        named := h.named
        first := h.first }
  · rw [decide_eq_false hrest]
    simp only [not_exists, not_and] at hrest
    refine ⟨ini, ?_, ?_⟩
    · have hnone : findFrom (needle key) ini.myConfigData (offset (pre ++ [hdr])) = none := by
        rw [hdata]
        exact findFrom_line_none (nl_notMem_pattern hkey) (by simp) hterm.2.2 hrest
      rw [unset, hptr]
      simp only [Nat.add_sub_cancel, hnone]
    · rwa [forget, eraseP_of_forall_not (by simpa using hrest)]

end IniFile

end Licq
