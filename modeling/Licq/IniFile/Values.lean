import Licq.IniFile.Runs
import Licq.Text.Decimal

/-!
# IniFile/Values — a section as a map from parameters to values

The callers of `IniFile` write a section parameter by parameter, erase numbered parameters that are
left over, and read single parameters back.  On the lines of the section that is a map: an
assignment or a removal touches its own parameter only, as long as no parameter name holds an equal
sign.
-/

namespace Licq

open Text List Conf

/-! ## Parameter names and the lines that hold them -/

variable {key : List Char} {l : Line} {body : List Line} {es : List Entry}

/-- The name of a line's parameter ends at the first equal sign. -/
theorem HasKey.takeWhile (h : HasKey key l) (hkey : '=' ∉ key) : l.takeWhile (· ≠ '=') = key := by
  obtain ⟨t, rfl⟩ := h
  have hne : ∀ c ∈ key, decide (c ≠ '=') = true := fun c hc => by
    rw [decide_eq_true_eq]
    exact ne_of_mem_of_not_mem hc hkey
  rw [append_assoc, takeWhile_append_of_pos hne]
  simp

/-- **A line holds one parameter.** -/
theorem HasKey.unique {key' : List Char} (h : HasKey key l) (h' : HasKey key' l)
    (hkey : '=' ∉ key) (hkey' : '=' ∉ key') : key = key' :=
  (h.takeWhile hkey).symm.trans (h'.takeWhile hkey')

theorem hasKey_keyLine (key value : List Char) : HasKey key (keyLine key value) := by
  simp [HasKey, keyLine]

section Maps

variable {key key' value : List Char} {body : List Line}

theorem lookup_cons_of_hasKey {l : Line} (h : HasKey key l) :
    lookup key (l :: body) = some (l.drop (key.length + 1)) := by
  rw [lookup, find?_cons_of_pos (by simpa using h), Option.map_some]

theorem lookup_cons_of_not {l : Line} (h : ¬ HasKey key l) :
    lookup key (l :: body) = lookup key body := by
  rw [lookup, find?_cons_of_neg (by simpa using h), lookup]

theorem lookup_isSome_iff : (lookup key body).isSome ↔ ∃ l ∈ body, HasKey key l := by
  simp [lookup]

/-- **A parameter has the value it was assigned.** -/
theorem lookup_assign_self (key value : List Char) (body : List Line) :
    lookup key (assign key value body) = some value := by
  have hline : (keyLine key value).drop (key.length + 1) = value := by simp [keyLine]
  induction body with
  | nil => rw [assign, lookup_cons_of_hasKey (hasKey_keyLine key value), hline]
  | cons l body ih =>
    by_cases hl : HasKey key l
    · rw [assign, if_pos hl, lookup_cons_of_hasKey (hasKey_keyLine key value), hline]
    · rw [assign, if_neg hl, lookup_cons_of_not hl, ih]

/-- **…and the other parameters keep theirs.** -/
theorem lookup_assign_of_ne (hne : key ≠ key') (hkey : '=' ∉ key) (hkey' : '=' ∉ key') :
    lookup key (assign key' value body) = lookup key body := by
  have hline : ∀ {l : Line}, HasKey key' l → ¬ HasKey key l :=
    fun h' h => hne (h.unique h' hkey hkey')
  induction body with
  | nil => rw [assign, lookup_cons_of_not (hline (hasKey_keyLine key' value))]
  | cons l body ih =>
    by_cases hl : HasKey key' l
    · rw [assign, if_pos hl, lookup_cons_of_not (hline (hasKey_keyLine key' value)),
        lookup_cons_of_not (hline hl)]
    · rw [assign, if_neg hl]
      by_cases hk : HasKey key l
      · rw [lookup_cons_of_hasKey hk, lookup_cons_of_hasKey hk]
      · rw [lookup_cons_of_not hk, lookup_cons_of_not hk, ih]

theorem lookup_forget_of_ne (hne : key ≠ key') (hkey : '=' ∉ key) (hkey' : '=' ∉ key') :
    lookup key (forget key' body) = lookup key body := by
  induction body with
  | nil => rfl
  | cons l body ih =>
    by_cases hl : HasKey key' l
    · rw [forget, eraseP_cons_of_pos (by simpa using hl),
        lookup_cons_of_not fun h => hne (h.unique hl hkey hkey')]
    · rw [forget, eraseP_cons_of_neg (by simpa using hl)]
      by_cases hk : HasKey key l
      · rw [lookup_cons_of_hasKey hk, lookup_cons_of_hasKey hk]
      · rw [lookup_cons_of_not hk, lookup_cons_of_not hk]
        exact ih

end Maps

/-! ## Many assignments -/

/-- A parameter and the value it is to have. -/
abbrev Entry := List Char × List Char

/-- Assign the entries, in order. -/
def assignAll (es : List Entry) (body : List Line) : List Line :=
  es.foldl (fun body e => assign e.1 e.2 body) body

@[simp] theorem assignAll_nil (body : List Line) : assignAll [] body = body := rfl

@[simp] theorem assignAll_cons (e : Entry) (es : List Entry) (body : List Line) :
    assignAll (e :: es) body = assignAll es (assign e.1 e.2 body) := rfl

theorem assignAll_nonblank (es : List Entry) (body : List Line) :
    assignAll es (nonblank body) = nonblank (assignAll es body) := by
  induction es generalizing body with
  | nil => rfl
  | cons e es ih => rw [assignAll_cons, assign_nonblank, ih, assignAll_cons]

/-- Assigning the value a parameter has changes nothing. -/
theorem assign_eq_self {value : List Char}
    (h : lookup key body = some value) : assign key value body = body := by
  induction body with
  | nil => exact nomatch h
  | cons l body ih =>
    by_cases hl : HasKey key l
    · rw [lookup_cons_of_hasKey hl, Option.some.injEq] at h
      obtain ⟨t, rfl⟩ := hl
      obtain rfl : t = value := by simpa using h
      rw [assign, if_pos (prefix_append _ _), keyLine, append_assoc]
      rfl
    · rw [lookup_cons_of_not hl] at h
      rw [assign, if_neg hl, ih h]

theorem assignAll_eq_self
    (h : ∀ e ∈ es, lookup e.1 body = some e.2) : assignAll es body = body := by
  induction es with
  | nil => rfl
  | cons e es ih =>
    rw [assignAll_cons, assign_eq_self (h e mem_cons_self)]
    exact ih fun x hx => h x (mem_cons_of_mem e hx)

theorem lookup_assignAll_of_notMem
    (hes : ∀ e ∈ es, '=' ∉ e.1) (hkey : '=' ∉ key) (h : ∀ e ∈ es, e.1 ≠ key) :
    lookup key (assignAll es body) = lookup key body := by
  induction es generalizing body with
  | nil => rfl
  | cons e es ih =>
    rw [assignAll_cons, ih (fun x hx => hes x (by simp [hx])) (fun x hx => h x (by simp [hx])),
      lookup_assign_of_ne (h e (by simp)).symm hkey (hes e (by simp))]

/-- **Entries with distinct names are all found.** -/
theorem lookup_assignAll {e : Entry}
    (hes : ∀ e ∈ es, '=' ∉ e.1) (hdistinct : (es.map Prod.fst).Nodup) (he : e ∈ es) :
    lookup e.1 (assignAll es body) = some e.2 := by
  induction es generalizing body with
  | nil => exact absurd he not_mem_nil
  | cons x es ih =>
    rw [map_cons, nodup_cons] at hdistinct
    have hes' : ∀ y ∈ es, '=' ∉ y.1 := fun y hy => hes y (by simp [hy])
    rw [assignAll_cons]
    rcases mem_cons.mp he with rfl | hmem
    · rw [lookup_assignAll_of_notMem hes' (hes e (by simp)) fun y hy h =>
        hdistinct.1 (h ▸ mem_map_of_mem hy), lookup_assign_self]
    · exact ih hes' hdistinct.2 hmem

/-- Forget the parameters, in order. -/
def forgetAll (keys : List (List Char)) (body : List Line) : List Line :=
  keys.foldl (fun body key => forget key body) body

@[simp] theorem forgetAll_nil (body : List Line) : forgetAll [] body = body := rfl

@[simp] theorem forgetAll_cons (key : List Char) (keys : List (List Char)) (body : List Line) :
    forgetAll (key :: keys) body = forgetAll keys (forget key body) := rfl

theorem length_forget_le (key : List Char) (body : List Line) :
    (forget key body).length ≤ body.length := length_eraseP_le

theorem length_forget_lt (h : ∃ l ∈ body, HasKey key l) :
    (forget key body).length < body.length := by
  obtain ⟨l, hl, hk⟩ := h
  have hpos := length_pos_of_mem hl
  rw [forget, length_eraseP_of_mem hl (by simpa using hk)]
  omega

theorem mem_of_mem_forgetAll {keys : List (List Char)}
    (h : l ∈ forgetAll keys body) : l ∈ body := by
  induction keys generalizing body with
  | nil => exact h
  | cons key keys ih => exact mem_of_mem_eraseP (ih h)

/-! ## Forgetting, across sections -/

namespace Conf

/-- Drop the first line that names a parameter from the first section that has one. -/
def forgetFirst (key : List Char) : List Sect → List Sect
  | [] => []
  | s :: ss =>
    if (lookup key s.body).isSome then ⟨s.hdr, forget key s.body⟩ :: ss
    else s :: forgetFirst key ss

variable {key : List Char}

/-- **Forgetting a parameter in a text forgets it in the first section that has it.** -/
theorem ofLines_forget (hkey : key.head? ≠ some '[') (ls : List Line) :
    ofLines (forget key ls) =
      if (lookup key (ofLines ls).preamble).isSome then
        ⟨forget key (ofLines ls).preamble, (ofLines ls).sections⟩
      else ⟨(ofLines ls).preamble, forgetFirst key (ofLines ls).sections⟩ := by
  induction ls with
  | nil => rfl
  | cons l ls ih =>
    by_cases hk : HasKey key l
    · have hhdr := IniFile.not_isHeader_of_hasKey hkey hk
      rw [forget, eraseP_cons_of_pos (by simpa using hk), ofLines_cons hhdr hk.ne_nil,
        lookup_cons_of_hasKey hk, forget, eraseP_cons_of_pos (by simpa using hk)]
      rfl
    · rw [forget, eraseP_cons_of_neg (by simpa using hk), ← forget]
      by_cases hhdr : IsHeader l
      · have hnone : ¬ (lookup key ([] : List Line)).isSome := by simp [lookup]
        rw [ofLines_header hhdr, ofLines_header hhdr, ih]
        simp only [if_neg hnone, forgetFirst]
        split_ifs <;> rfl
      · obtain rfl | hl := eq_or_ne l []
        · exact ih
        · rw [ofLines_cons hhdr hl, ofLines_cons hhdr hl, ih]
          simp only [lookup_cons_of_not hk]
          split_ifs
          · rw [forget, forget, eraseP_cons_of_neg (by simpa using hk)]
          · rfl

/-- **Forgetting a parameter anywhere leaves the other parameters of the first section.** -/
theorem lookup_preamble_forget {key' : List Char} (hhead : key'.head? ≠ some '[')
    (hne : key ≠ key') (hkey : '=' ∉ key) (hkey' : '=' ∉ key') (ls : List Line) :
    lookup key (ofLines (forget key' ls)).preamble = lookup key (ofLines ls).preamble := by
  rw [ofLines_forget hhead]
  split_ifs
  · exact lookup_forget_of_ne hne hkey hkey'
  · rfl

theorem lookup_preamble_forgetAll {keys : List (List Char)} (hkey : '=' ∉ key)
    (hkeys : ∀ k ∈ keys, k.all IniFile.keyChar = true ∧ key ≠ k) (ls : List Line) :
    lookup key (ofLines (forgetAll keys ls)).preamble = lookup key (ofLines ls).preamble := by
  induction keys generalizing ls with
  | nil => rfl
  | cons k keys ih =>
    obtain ⟨hvalid, hne⟩ := hkeys k mem_cons_self
    rw [forgetAll_cons, ih fun x hx => hkeys x (mem_cons_of_mem k hx),
      lookup_preamble_forget (IniFile.head_ne_of_all_keyChar hvalid) hne hkey
        (IniFile.notMem_of_all_keyChar hvalid (by decide))]

end Conf

namespace IniFile

variable {ini ini' : IniFile} {name key : List Char} {pre sel tail rest : List Line} {hdr : Line}

/-! ## The lines a name selects -/

/-- The lines of the first section with the name, none when there is no such section. -/
def sectionLines (ini : IniFile) (name : List Char) : List Line :=
  ((Conf.ofLines ini.textLines).lines? name).getD []

theorem eq_notMem_of_all_keyChar (hkey : key.all keyChar = true) : '=' ∉ key :=
  notMem_of_all_keyChar hkey (by decide)

theorem Opens.conf_eq (h : Opens ini name pre hdr rest) :
    Conf.ofLines ini.textLines = ⟨(Conf.ofLines pre).preamble, (Conf.ofLines pre).sections
      ++ ⟨hdr, (Conf.ofLines rest).preamble⟩ :: (Conf.ofLines rest).sections⟩ := by
  have hhdr : IsHeader hdr := isHeader_of_named h.named
  have hends : EndsSection (hdr :: rest) := Or.inl hhdr
  rw [h.toHasLines.textLines_eq, ofLines_append _ hends, ofLines_header hhdr]

theorem Opens.sectionLines_eq (h : Opens ini name pre hdr rest) :
    ini.sectionLines name = (Conf.ofLines rest).preamble := by
  have hnamed : Sect.Named name ⟨hdr, (ofLines rest).preamble⟩ := h.named
  have hbefore : ∀ s ∈ (ofLines pre).sections, ¬ s.Named name :=
    fun s hs => h.first _ (mem_sections_ofLines hs)
  rw [sectionLines, h.conf_eq, lines?, find?_append,
    find?_eq_none.mpr (by simpa using hbefore), Option.none_or,
    find?_cons_of_pos (by simpa using hnamed)]
  rfl

theorem Delimits.sectionLines_eq (h : Delimits ini name pre hdr sel tail) :
    ini.sectionLines name = nonblank sel := by
  rw [h.opens.sectionLines_eq, ofLines_append _ h.tail_ends, ofLines_body h.body]

/-- The sections of a text before the first one with the name. -/
def sectionsBefore (ini : IniFile) (name : List Char) : List Sect :=
  (Conf.ofLines ini.textLines).sections.takeWhile fun s => ¬ s.Named name

/-- The sections of a text from the first one with the name on. -/
def sectionsFrom (ini : IniFile) (name : List Char) : List Sect :=
  (Conf.ofLines ini.textLines).sections.dropWhile fun s => ¬ s.Named name

/-- **A section selected to read or to write it**: the text keeps its sections, and a missing one
counts as empty. -/
structure Selection (ini ini' : IniFile) (name : List Char) (pre : List Line) (hdr : Line)
    (sel tail : List Line) : Prop where
  delimits : Delimits ini' name pre hdr sel tail
  selected : nonblank sel = ini.sectionLines name
  before : (Conf.ofLines pre).sections = ini.sectionsBefore name
  after : (Conf.ofLines tail).sections = (ini.sectionsFrom name).tail
  lines : ∀ l ∈ pre ++ hdr :: (sel ++ tail), l ∈ ini.textLines ∨ l = [] ∨ l = header name

theorem setSection_selection (h : HasLines ini ini.textLines) {raw : List Char}
    (hraw : sectionName raw ≠ []) : ∃ ini' pre hdr sel tail, setSection ini raw true = (true, ini') ∧
      Selection ini ini' (sectionName raw) pre hdr sel tail := by
  by_cases hmem : ∃ l ∈ ini.textLines, header (sectionName raw) <+: l
  · obtain ⟨ini', pre, hdr, sel, tail, hset, hls, hd, -⟩ := setSection_of_named h true hraw hmem
    have hnamed : Sect.Named (sectionName raw) ⟨hdr, nonblank sel⟩ := hd.named
    have hconf : (ofLines ini.textLines).sections = (ofLines pre).sections
        ++ ⟨hdr, nonblank sel⟩ :: (ofLines tail).sections := by
      rw [hls, ← hd.toHasLines.textLines_eq, hd.conf_eq]
    have hbefore : ∀ s ∈ (ofLines pre).sections,
        decide (¬ s.Named (sectionName raw)) = true :=
      fun s hs => by simpa using hd.not_named_before s hs
    refine ⟨ini', pre, hdr, sel, tail, hset, hd, ?_, ?_, ?_, fun l hl => Or.inl (hls ▸ hl)⟩
    · rw [← hd.sectionLines_eq, sectionLines, sectionLines, hd.toHasLines.textLines_eq, hls]
    · rw [sectionsBefore, hconf, takeWhile_append_of_pos hbefore,
        takeWhile_cons_of_neg (by simpa using hnamed), append_nil]
    · rw [sectionsFrom, hconf, dropWhile_append_of_pos hbefore,
        dropWhile_cons_of_neg (by simpa using hnamed), tail_cons]
  · have habsent : ∀ s ∈ (ofLines ini.textLines).sections, ¬ s.Named (sectionName raw) :=
      fun s hs hn => hmem (exists_named_ofLines.mp ⟨s, hs, hn⟩)
    have hnone : ini.sectionLines (sectionName raw) = [] := by
      have : ¬ ((ofLines ini.textLines).lines? (sectionName raw)).isSome := by
        rw [lines?_isSome_iff]
        exact fun ⟨s, hs, hn⟩ => habsent s hs hn
      rw [sectionLines, Option.not_isSome_iff_eq_none.mp this, Option.getD_none]
    simp only [not_exists, not_and] at hmem
    obtain ⟨ini', sep, hset, hd⟩ := setSection_add h hraw hmem
    refine ⟨ini', _, _, [], [], hset, hd, hnone.symm, ?_, ?_, fun l hl => ?_⟩
    · have hb : EndsSection (blanks sep ++ []) := endsSection_blanks.mpr trivial
      rw [append_nil] at hb
      have hnil := ofLines_blanks sep []
      rw [append_nil] at hnil
      rw [ofLines_append _ hb, hnil, sectionsBefore, takeWhile_eq_self_iff.mpr
        fun s hs => by simpa using habsent s hs]
      exact append_nil _
    · rw [sectionsFrom, dropWhile_eq_nil_iff.mpr fun s hs => by simpa using habsent s hs]
      rfl
    · simp only [append_nil, mem_append, mem_singleton] at hl
      rcases hl with (hl | hl) | hl
      · exact Or.inl hl
      · exact Or.inr (Or.inl (eq_of_mem_replicate hl))
      · exact Or.inr (Or.inr hl)

/-- **Reading a parameter of a section.** -/
theorem get_setSection (h : HasLines ini ini.textLines) {raw : List Char}
    (hraw : sectionName raw ≠ []) (hnl : '\n' ∉ key) (hkey : key.head? ≠ some '[') :
    get (setSection ini raw true).2 key
      = (lookup key (ini.sectionLines (sectionName raw))).map unescape := by
  obtain ⟨ini', pre, hdr, sel, tail, hset, hs⟩ := setSection_selection h hraw
  rw [hset, hs.delimits.get_eq hnl hkey, ← hs.selected, lookup_nonblank]

/-! ## Values of other types -/

/-- `get` with a string default. -/
def getString (ini : IniFile) (key defValue : List Char) : List Char :=
  (get ini key).getD defValue

/-- `get` of an `unsigned long`. -/
def getULong (ini : IniFile) (key : List Char) (defValue : ℕ) : ℕ :=
  ((get ini key).map strtoul).getD defValue

/-- `get` of an `unsigned`. -/
def getUnsigned (ini : IniFile) (key : List Char) (defValue : ℕ) : ℕ :=
  ((get ini key).map fun s => strtoul s % 2 ^ 32).getD defValue

/-- `get` of an `int`. -/
def getInt (ini : IniFile) (key : List Char) (defValue : ℤ) : ℤ :=
  ((get ini key).map atoi).getD defValue

/-! ## Writing many parameters -/

/-- Set the entries, in order. -/
def setAll (ini : IniFile) : List Entry → Option IniFile
  | [] => some ini
  | e :: es => (set ini e.1 e.2).bind fun r => setAll r.2 es

theorem setAll_append (ini : IniFile) (a b : List Entry) :
    setAll ini (a ++ b) = (setAll ini a).bind fun ini => setAll ini b := by
  induction a generalizing ini with
  | nil => rfl
  | cons e a ih =>
    rw [cons_append, setAll, setAll, Option.bind_assoc]
    exact congrArg _ (funext fun r => ih r.2)

/-- The entries `set` accepts, as they are written. -/
def written (es : List Entry) : List Entry :=
  (es.filter fun e => e.1.all keyChar).map fun e => (e.1, escape e.2)

@[simp] theorem written_nil : written [] = [] := rfl

variable {e : Entry} {es : List Entry}

theorem written_cons_of_valid (h : e.1.all keyChar = true) (es : List Entry) :
    written (e :: es) = (e.1, escape e.2) :: written es := by
  simp [written, h]

theorem written_cons_of_invalid (h : ¬ e.1.all keyChar = true) (es : List Entry) :
    written (e :: es) = written es := by
  simp [written, h]

theorem mem_written (he : e ∈ es) (h : e.1.all keyChar = true) : (e.1, escape e.2) ∈ written es :=
  mem_map_of_mem (f := fun e : Entry => (e.1, escape e.2)) (mem_filter.mpr ⟨he, h⟩)

theorem key_of_mem_written (h : e ∈ written es) :
    e.1.all keyChar = true ∧ e.1 ∈ es.map Prod.fst := by
  obtain ⟨x, hx, rfl⟩ := mem_map.mp h
  exact ⟨(mem_filter.mp hx).2, mem_map.mpr ⟨x, (mem_filter.mp hx).1, rfl⟩⟩

theorem nodup_written (h : (es.map Prod.fst).Nodup) : ((written es).map Prod.fst).Nodup := by
  rw [written, map_map]
  exact h.sublist (filter_sublist.map _)

/-- **A parameter that was set has its value**, escaped. -/
theorem lookup_written {body : List Line} (he : e ∈ es)
    (h : e.1.all keyChar = true) (hdistinct : (es.map Prod.fst).Nodup) :
    lookup e.1 (assignAll (written es) body) = some (escape e.2) :=
  lookup_assignAll (fun _ hx => eq_notMem_of_all_keyChar (key_of_mem_written hx).1)
    (nodup_written hdistinct) (mem_written he h)

/-- **Setting parameters one after the other assigns the accepted ones in the section.** -/
theorem Delimits.setAll_eq (h : Delimits ini name pre hdr sel tail) (es : List Entry) :
    ∃ ini', setAll ini es = some ini' ∧
      Delimits ini' name pre hdr (assignAll (written es) sel) tail := by
  induction es generalizing ini sel with
  | nil => exact ⟨ini, rfl, h⟩
  | cons e es ih =>
    rw [setAll]
    by_cases hkey : e.1.all keyChar = true
    · obtain ⟨ini', hset, hd⟩ := h.set_eq_assign hkey e.2
      rw [hset, Option.bind_some, written_cons_of_valid hkey, assignAll_cons]
      exact ih hd
    · have hset : set ini e.1 e.2 = some (false, ini) := by
        rw [set, h.pointers]
        simp [hkey]
      rw [hset, Option.bind_some, written_cons_of_invalid hkey]
      exact ih h

end IniFile

end Licq
