import Licq.IniFile.KeyList

/-!
# IniFile/Listing — the parameters that are listed and those that are found

`getKeyList` goes through the lines of the section, `get` searches the text.  The listing passes
over comments; the search does not, and it looks into the line behind the section.

The **main result** `listsKeys_iff` says for which lines and which start of the names the listing
has every parameter once and is what `get` finds.
-/

namespace Licq

open Text List

/-- A comment line. -/
def IsComment (l : Line) : Prop := l.head? = some '#' ∨ l.head? = some ';'

instance (l : Line) : Decidable (IsComment l) := inferInstanceAs (Decidable (_ ∨ _))

/-- The name in front of the first equal sign of a line. -/
def nameOf (l : Line) : Option (List Char) := (find ['='] l).map fun equalPos => l.take equalPos

/-- The name of the parameter in a line that is no comment. -/
def lineKey (l : Line) : Option (List Char) := if IsComment l then none else nameOf l

/-- What can stand in front of the equal sign of a line. -/
def IsName (key : List Char) : Prop := '=' ∉ key ∧ '\n' ∉ key

/-! ## The names of lines -/

section Names

variable {keyPrefix key : List Char} {l : Line} {sel : List Line}

theorem nameOf_of_notMem (h : '=' ∉ l) : nameOf l = none := by
  rw [nameOf, Option.map_eq_none_iff, find_eq_none_iff]
  rintro i ⟨t, ht⟩
  refine h (mem_of_mem_drop (i := i) ?_)
  rw [← ht]
  exact mem_cons_self

theorem nameOf_keyLine {value : List Char} (hkey : '=' ∉ key) :
    nameOf (keyLine key value) = some key := by
  rw [nameOf, IniFile.find_eq_keyLine hkey, Option.map_some, keyLine, take_left]

/-- **A line has a name exactly if it is a line of the parameter.** -/
theorem nameOf_eq_some_iff : nameOf l = some key ↔ '=' ∉ key ∧ HasKey key l := by
  rcases line_cases l with hl | ⟨key', value, hkey', rfl⟩
  · rw [nameOf_of_notMem hl]
    exact iff_of_false nofun fun h => not_hasKey_of_notMem hl h.2
  · rw [nameOf_keyLine hkey', Option.some.injEq]
    constructor
    · rintro rfl
      exact ⟨hkey', hasKey_keyLine _ _⟩
    · exact fun h => (hasKey_keyLine key' value).unique h.2 hkey' h.1

/-- A name that begins with the start can only stand in a line that does. -/
theorem isPrefix_of_nameOf (hstart : '=' ∉ keyPrefix) (h : nameOf l = some key) :
    keyPrefix <+: l ↔ keyPrefix <+: key := by
  obtain ⟨-, t, rfl⟩ := nameOf_eq_some_iff.mp h
  rw [append_assoc]
  exact isPrefix_line hstart t

/-- **The parameters with the start, in order.** -/
theorem keysOf_eq_filter (hstart : '=' ∉ keyPrefix) (sel : List Line) :
    keysOf keyPrefix sel = (sel.filterMap lineKey).filter (keyPrefix <+: ·) := by
  have hline : listedKey keyPrefix = fun l => (lineKey l).filter (keyPrefix <+: ·) := by
    ext1 l
    rw [lineKey]
    change (if IsComment l then none else if keyPrefix <+: l then nameOf l else none) = _
    by_cases hc : IsComment l
    · rw [if_pos hc, if_pos hc, Option.filter_none]
    · rw [if_neg hc, if_neg hc]
      cases hname : nameOf l with
      | none => rw [ite_self, Option.filter_none]
      | some key =>
        simp only [isPrefix_of_nameOf hstart hname, Option.filter_some, decide_eq_true_eq]
  rw [keysOf, hline, filter_filterMap]

/-- The names of a comment begin as it does. -/
theorem IsComment.of_nameOf {l' : Line} (hc : IsComment l) (h : nameOf l = some key)
    (h' : nameOf l' = some key) : IsComment l' := by
  obtain ⟨-, t, rfl⟩ := nameOf_eq_some_iff.mp h
  obtain ⟨-, t', rfl⟩ := nameOf_eq_some_iff.mp h'
  cases key with
  | nil => simp [IsComment] at hc
  | cons c key => exact hc

theorem isHeader_of_nameOf {l' : Line} (hh : IsHeader l) (h : nameOf l = some key)
    (h' : nameOf l' = some key) : IsHeader l' := by
  obtain ⟨-, t, rfl⟩ := nameOf_eq_some_iff.mp h
  obtain ⟨-, t', rfl⟩ := nameOf_eq_some_iff.mp h'
  cases key with
  | nil => exact absurd hh (by simp [IsHeader])
  | cons c key => simpa [IsHeader] using hh

end Names

namespace IniFile

variable {ini : IniFile} {name keyPrefix key : List Char} {pre sel tail : List Line} {hdr : Line}

/-- **The listing is the parameters of the section** whose names begin with the text, each one
once, and `get` finds these and no others. -/
structure ListsKeys (ini : IniFile) (sel : List Line) (keyPrefix : List Char) : Prop where
  mem : ∀ key, key ∈ getKeyList ini keyPrefix ↔
    keyPrefix <+: key ∧ ∃ l ∈ sel, lineKey l = some key
  once : (getKeyList ini keyPrefix).Nodup
  get : ∀ key, IsName key → keyPrefix <+: key →
    ((get ini key).isSome ↔ key ∈ getKeyList ini keyPrefix)

/-- **What has to hold of the section and of the line behind it.** -/
structure Agree (keyPrefix : List Char) (sel tail : List Line) : Prop where
  /-- No two of the parameters have the same name. -/
  once : ((sel.filterMap lineKey).filter (keyPrefix <+: ·)).Nodup
  /-- A comment has no equal sign behind a name with the start, and neither has a header right
  behind the section. -/
  plain : ∀ l ∈ sel ++ tail.take 1, ∀ key, nameOf l = some key → keyPrefix <+: key →
    ¬ IsComment l ∧ ¬ IsHeader l
  /-- The start can begin a name, or nothing begins with it. -/
  start : IsName keyPrefix ∨ keysFrom keyPrefix tail sel = []

/-! ## What `get` finds -/

/-- The search goes on to the line behind the section. -/
theorem Delimits.find_key_behind {l : Line} (h : Delimits ini name pre hdr sel (l :: tail))
    (hkey : '\n' ∉ key) (hsel : ∀ x ∈ sel, ¬ HasKey key x) (hl : HasKey key l) :
    findFrom (needle key) ini.myConfigData (offset (pre ++ [hdr]))
      = some (offset (pre ++ [hdr] ++ sel)) := by
  rw [h.eq_data]
  exact findFrom_line (nl_notMem_pattern hkey) h.terminated_parts.2.1 hsel hl tail

/-- **A parameter is found in the lines of the section and in the line behind it.** -/
theorem Delimits.get_isSome_iff (h : Delimits ini name pre hdr sel tail) (hkey : IsName key) :
    (IniFile.get ini key).isSome ↔ ∃ l ∈ sel ++ tail.take 1, nameOf l = some key := by
  have hname : ∀ l, nameOf l = some key ↔ HasKey key l := fun l => by
    rw [nameOf_eq_some_iff, and_iff_right hkey.1]
  simp only [hname]
  by_cases hsel : ∃ l ∈ sel, HasKey key l
  · obtain ⟨a, l, b, rfl, ⟨value, rfl⟩, ha⟩ := exists_first hsel
    have hline : key ++ ['='] ++ value = keyLine key value := by simp [keyLine]
    rw [hline] at h
    rw [h.get_of_line hkey.2 ha]
    exact iff_of_true rfl ⟨_, by simp, value, rfl⟩
  · have habsent : ∀ l ∈ sel, ¬ HasKey key l := fun l hl hk => hsel ⟨l, hl, hk⟩
    cases tail with
    | nil =>
      rw [h.get_of_absent hkey.2 habsent fun x hx => by cases hx]
      refine iff_of_false (by simp) ?_
      rintro ⟨l, hl, hk⟩
      exact habsent l (by simpa using hl) hk
    | cons l tail =>
      by_cases hl : HasKey key l
      · refine iff_of_true ?_ ⟨l, by simp, hl⟩
        have hpos := h.find_key_behind hkey.2 habsent hl
        have hin : ¬ offset (pre ++ [hdr] ++ sel) + 1 ≤ offset (pre ++ [hdr] ++ sel) := by omega
        rw [IniFile.get, h.pointers]
        simp only [Nat.add_sub_cancel, hpos, if_neg hin]
        rfl
      · rw [h.get_of_absent hkey.2 habsent fun x hx => by
          obtain rfl : l = x := Option.some.inj hx
          exact hl]
        refine iff_of_false (by simp) ?_
        rintro ⟨x, hx, hk⟩
        rcases mem_append.mp hx with hx | hx
        · exact habsent x hx hk
        · obtain rfl : x = l := by simpa using hx
          exact hl hk

/-! ## The main result -/

/-- Only a text that can begin a name begins one. -/
theorem isName_of_isPrefix (h : keyPrefix <+: key) (hkey : IsName key) : IsName keyPrefix :=
  ⟨fun hmem => hkey.1 (h.subset hmem), fun hmem => hkey.2 (h.subset hmem)⟩

/-- A line of the text has a name that can stand there. -/
theorem Delimits.isName_of_mem (h : Delimits ini name pre hdr sel tail) {l : Line}
    (hl : l ∈ sel ++ tail.take 1) (hname : nameOf l = some key) : IsName key := by
  obtain ⟨heq, t, rfl⟩ := nameOf_eq_some_iff.mp hname
  obtain ⟨-, hsel, htail⟩ := h.terminated_parts
  refine ⟨heq, fun hmem => ?_⟩
  rcases mem_append.mp hl with hl | hl
  · exact hsel _ hl (by simp [hmem])
  · exact htail _ (mem_of_mem_take hl) (by simp [hmem])

/-- Behind the section there is a header, or no name. -/
theorem Delimits.isHeader_of_mem_tail (h : Delimits ini name pre hdr sel tail) {l : Line}
    (hl : l ∈ tail.take 1) (hname : nameOf l = some key) : IsHeader l := by
  cases tail with
  | nil => exact nomatch hl
  | cons x tail =>
    obtain rfl : l = x := by simpa using hl
    rcases h.tail_ends with hhdr | ⟨rfl, -⟩
    · exact hhdr
    · exact nomatch hname

theorem nameOf_of_lineKey {l : Line} (h : lineKey l = some key) :
    ¬ IsComment l ∧ nameOf l = some key := by
  rw [lineKey] at h
  split_ifs at h with hc
  exact ⟨hc, h⟩

/-- **A start that can begin a name**: the listing and the search agree exactly if no name is there
twice and none that is found stands in a comment or behind the section. -/
theorem Delimits.listsKeys_iff_of_isName (h : Delimits ini name pre hdr sel tail)
    (hstart : IsName keyPrefix) : ListsKeys ini sel keyPrefix ↔
      ((sel.filterMap lineKey).filter (keyPrefix <+: ·)).Nodup ∧
        ∀ l ∈ sel ++ tail.take 1, ∀ key, nameOf l = some key → keyPrefix <+: key →
          ¬ IsComment l ∧ ¬ IsHeader l := by
  have hlist : getKeyList ini keyPrefix = (sel.filterMap lineKey).filter (keyPrefix <+: ·) := by
    rw [h.getKeyList_eq_keysFrom, keysFrom_eq_keysOf hstart.2, keysOf_eq_filter hstart.1]
  have hmem : ∀ key, key ∈ getKeyList ini keyPrefix ↔
      keyPrefix <+: key ∧ ∃ l ∈ sel, lineKey l = some key := fun key => by
    rw [hlist, mem_filter, mem_filterMap, decide_eq_true_eq, and_comm]
  constructor
  · intro hall
    refine ⟨hlist ▸ hall.once, fun l hl key hname hbegins => ?_⟩
    have hkey := h.isName_of_mem hl hname
    have hfound := (h.get_isSome_iff hkey).mpr ⟨l, hl, hname⟩
    obtain ⟨l', hl', hlisted⟩ := ((hmem key).mp ((hall.get key hkey hbegins).mp hfound)).2
    obtain ⟨hplain, hname'⟩ := nameOf_of_lineKey hlisted
    exact ⟨fun hc => hplain (hc.of_nameOf hname hname'),
      fun hh => h.body l' hl' (isHeader_of_nameOf hh hname hname')⟩
  · rintro ⟨honce, hplain⟩
    refine ⟨hmem, hlist ▸ honce, fun key hkey hbegins => ?_⟩
    rw [h.get_isSome_iff hkey, hmem, and_iff_right hbegins]
    constructor
    · rintro ⟨l, hl, hname⟩
      obtain ⟨hc, hh⟩ := hplain l hl key hname hbegins
      rcases mem_append.mp hl with hl | hl
      · exact ⟨l, hl, by rw [lineKey, if_neg hc, hname]⟩
      · exact absurd (h.isHeader_of_mem_tail hl hname) hh
    · rintro ⟨l, hl, hlisted⟩
      exact ⟨l, mem_append_left _ hl, (nameOf_of_lineKey hlisted).2⟩

/-- **Another start** begins no name, so nothing may be listed. -/
theorem Delimits.listsKeys_iff_of_not_isName (h : Delimits ini name pre hdr sel tail)
    (hstart : ¬ IsName keyPrefix) :
    ListsKeys ini sel keyPrefix ↔ keysFrom keyPrefix tail sel = [] := by
  have hnone : ∀ l ∈ sel ++ tail.take 1, ∀ key, nameOf l = some key → ¬ keyPrefix <+: key :=
    fun l hl key hname hbegins => hstart (isName_of_isPrefix hbegins (h.isName_of_mem hl hname))
  rw [← h.getKeyList_eq_keysFrom]
  constructor
  · intro hall
    refine eq_nil_iff_forall_not_mem.mpr fun key hkey => ?_
    obtain ⟨hbegins, l, hl, hlisted⟩ := (hall.mem key).mp hkey
    exact hnone l (mem_append_left _ hl) key (nameOf_of_lineKey hlisted).2 hbegins
  · intro hnil
    refine ⟨fun key => ?_, hnil ▸ nodup_nil, fun key hkey hbegins => ?_⟩
    · rw [hnil]
      refine iff_of_false not_mem_nil ?_
      rintro ⟨hbegins, l, hl, hlisted⟩
      exact hnone l (mem_append_left _ hl) key (nameOf_of_lineKey hlisted).2 hbegins
    · exact absurd (isName_of_isPrefix hbegins hkey) hstart

/-- **The listing has every parameter of the section once and `get` finds these exactly if** the
lines agree. -/
theorem Delimits.listsKeys_iff (h : Delimits ini name pre hdr sel tail) (keyPrefix : List Char) :
    ListsKeys ini sel keyPrefix ↔ Agree keyPrefix sel tail := by
  by_cases hstart : IsName keyPrefix
  · rw [h.listsKeys_iff_of_isName hstart]
    exact ⟨fun ⟨honce, hplain⟩ => ⟨honce, hplain, Or.inl hstart⟩, fun hall => ⟨hall.1, hall.2⟩⟩
  · rw [h.listsKeys_iff_of_not_isName hstart]
    constructor
    · refine fun hnil => ⟨?_, fun l hl key hname hbegins => ?_, Or.inr hnil⟩
      · rw [List.filter_eq_nil_iff.mpr]
        · exact List.nodup_nil
        · intro key hkey hbegins
          obtain ⟨l, hl, hlisted⟩ := List.mem_filterMap.mp hkey
          exact hstart (isName_of_isPrefix (of_decide_eq_true hbegins)
            (h.isName_of_mem (List.mem_append_left _ hl) (nameOf_of_lineKey hlisted).2))
      · exact absurd (isName_of_isPrefix hbegins (h.isName_of_mem hl hname)) hstart
    · exact fun hall => hall.start.resolve_left hstart

/-! ## Sections of two lines -/

/-- The configuration, with its section s selected. -/
def selected (text : List Char) : IniFile :=
  (setSection (loadRawConfiguration text) ['s'] false).2

/-- Two parameters, of which one name begins the other. -/
def nested : List Char := ['[', 's', ']', '\n', 'a', '=', '1', '\n', 'a', 'b', '=', '2', '\n']

theorem delimits_nested : Delimits (selected nested) ['s'] [] ['[', 's', ']']
    [['a', '=', '1'], ['a', 'b', '=', '2']] [] where
  terminated := by unfold Terminated; decide
  data := by decide
  pointers := by decide
  named := by decide
  first := by decide
  body := by decide
  tail_ends := trivial

theorem listsKeys_nested :
    ListsKeys (selected nested) [['a', '=', '1'], ['a', 'b', '=', '2']] ['a'] := by
  have hplain : ∀ l ∈ [['a', '=', '1'], ['a', 'b', '=', '2']], ¬ IsComment l ∧ ¬ IsHeader l := by
    decide
  exact (delimits_nested.listsKeys_iff ['a']).mpr
    ⟨by decide, fun l hl _ _ _ => hplain l hl, Or.inl ⟨by decide, by decide⟩⟩

/-- **A comment is found but not listed, a name is listed twice, and the header behind the section
is found.** -/
theorem not_listsKeys_comment :
    ¬ ListsKeys (selected ['[', 's', ']', '\n', '#', 'a', '=', '1', '\n'])
      [['#', 'a', '=', '1']] [] ∧
    ¬ ListsKeys (selected ['[', 's', ']', '\n', 'a', '=', '1', '\n', 'a', '=', '2', '\n'])
      [['a', '=', '1'], ['a', '=', '2']] [] ∧
    ¬ ListsKeys (selected ['[', 's', ']', '\n', '[', 't', '=', ']', '\n']) [] ['['] := by
  refine ⟨fun h => ?_, fun h => absurd h.once (by decide), fun h => ?_⟩
  · have hlisted := (h.get ['#', 'a'] ⟨by decide, by decide⟩ (by decide)).mp (by decide)
    exact absurd hlisted (by decide)
  · have hlisted := (h.get ['[', 't'] ⟨by decide, by decide⟩ (by decide)).mp (by decide)
    exact absurd hlisted (by decide)

end IniFile

end Licq
