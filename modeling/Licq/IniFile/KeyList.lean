import Licq.IniFile.File

/-!
# IniFile/KeyList — the parameters whose names start alike

`getKeyList` lists the parameters of a section whose names start with a text, in the order of the
lines.  Removing the listed parameters removes their lines and no others (`forgetAll_keysOf`), and
setting parameters puts new names behind those that are there (`keysOf_assignAll`).
-/

namespace Licq

open Text List IniFile

/-! ## The names of a list of lines -/

/-- The name of the line's parameter, if it is listed. -/
def listedKey (keyPrefix : List Char) (l : Line) : Option (List Char) :=
  if l.head? = some '#' ∨ l.head? = some ';' then none
  else if keyPrefix <+: l then (find ['='] l).map fun equalPos => l.take equalPos
  else none

/-- The names of the parameters that are listed, in order. -/
def keysOf (keyPrefix : List Char) (ls : List Line) : List (List Char) :=
  ls.filterMap (listedKey keyPrefix)

/-- The names with one more, unless it is there. -/
def addKey (keys : List (List Char)) (key : List Char) : List (List Char) :=
  if key ∈ keys then keys else keys ++ [key]

/-- A line without an equal sign, or the line of a parameter. -/
theorem line_cases (l : Line) :
    '=' ∉ l ∨ ∃ key value, '=' ∉ key ∧ l = keyLine key value := by
  by_cases h : '=' ∈ l
  · obtain ⟨s, t, hl, hs⟩ := eq_append_cons_of_mem h
    exact Or.inr ⟨s, t, hs, hl⟩
  · exact Or.inl h

theorem not_hasKey_of_notMem {key : List Char} {l : Line} (h : '=' ∉ l) : ¬ HasKey key l := by
  rintro ⟨t, rfl⟩
  simp at h

section Listed

variable {keyPrefix key : List Char} {value : List Char} {l : Line} {ls : List Line}

theorem listedKey_of_notMem (h : '=' ∉ l) : listedKey keyPrefix l = none := by
  rw [listedKey]
  split_ifs
  · rfl
  · rw [Option.map_eq_none_iff, find_eq_none_iff]
    rintro i ⟨t, ht⟩
    refine h (mem_of_mem_drop (i := i) ?_)
    rw [← ht]
    exact mem_cons_self
  · rfl

/-- **A parameter is listed exactly when its name starts with the text.** -/
theorem listedKey_keyLine (hvalid : keyPrefix.all IniFile.keyChar = true) (hne : keyPrefix ≠ [])
    (hkey : '=' ∉ key) : listedKey keyPrefix (keyLine key value)
      = if keyPrefix <+: key then some key else none := by
  have hstart : keyPrefix <+: keyLine key value ↔ keyPrefix <+: key :=
    isPrefix_line (eq_notMem_of_all_keyChar hvalid) value
  have hcomment : keyPrefix <+: key → ∀ c, keyChar c = false →
      (keyLine key value).head? ≠ some c := by
    rintro ⟨t, rfl⟩ c hc hhead
    obtain ⟨d, p, rfl⟩ := exists_cons_of_ne_nil hne
    obtain rfl : d = c := Option.some.inj hhead
    exact notMem_of_all_keyChar hvalid hc mem_cons_self
  rw [listedKey, find_eq_keyLine hkey]
  by_cases h : keyPrefix <+: key
  · rw [if_neg (not_or.mpr ⟨hcomment h '#' (by decide), hcomment h ';' (by decide)⟩),
      if_pos (hstart.mpr h), if_pos h, Option.map_some, keyLine, take_left]
  · rw [if_neg h, if_neg fun h' => h (hstart.mp h')]
    split_ifs <;> rfl

@[simp] theorem keysOf_nil (keyPrefix : List Char) : keysOf keyPrefix [] = [] := rfl

theorem keysOf_append (a b : List Line) :
    keysOf keyPrefix (a ++ b) = keysOf keyPrefix a ++ keysOf keyPrefix b :=
  filterMap_append

theorem keysOf_cons_of_notMem (h : '=' ∉ l) : keysOf keyPrefix (l :: ls) = keysOf keyPrefix ls :=
  filterMap_cons_none (listedKey_of_notMem h)

theorem keysOf_cons_keyLine (hvalid : keyPrefix.all IniFile.keyChar = true) (hne : keyPrefix ≠ [])
    (hkey : '=' ∉ key) : keysOf keyPrefix (keyLine key value :: ls)
      = if keyPrefix <+: key then key :: keysOf keyPrefix ls else keysOf keyPrefix ls := by
  rw [keysOf, filterMap_cons, listedKey_keyLine hvalid hne hkey]
  split_ifs <;> rfl

theorem keysOf_nonblank (ls : List Line) : keysOf keyPrefix (nonblank ls) = keysOf keyPrefix ls := by
  induction ls with
  | nil => rfl
  | cons l ls ih =>
    obtain rfl | hl := eq_or_ne l []
    · rw [nonblank_blank, ih, keysOf_cons_of_notMem not_mem_nil]
    · rw [nonblank_cons hl, keysOf, filterMap_cons, ← keysOf, ih, keysOf, keysOf,
        filterMap_cons]

/-- **The listed names are those of the lines.** -/
theorem mem_keysOf (hvalid : keyPrefix.all IniFile.keyChar = true) (hne : keyPrefix ≠ []) :
    key ∈ keysOf keyPrefix ls ↔
      keyPrefix <+: key ∧ '=' ∉ key ∧ ∃ l ∈ ls, HasKey key l := by
  induction ls with
  | nil => simp
  | cons l ls ih =>
    have hcons : (∃ x ∈ l :: ls, HasKey key x) ↔ HasKey key l ∨ ∃ x ∈ ls, HasKey key x := by simp
    rw [hcons]
    rcases line_cases l with hl | ⟨key', value, hkey', rfl⟩
    · rw [keysOf_cons_of_notMem hl, ih, or_iff_right (not_hasKey_of_notMem hl)]
    · rw [keysOf_cons_keyLine hvalid hne hkey']
      have hmem : ∀ {ks : List (List Char)}, key ∈ (if keyPrefix <+: key' then key' :: ks else ks)
          ↔ keyPrefix <+: key' ∧ key = key' ∨ key ∈ ks := by
        intro ks
        split_ifs with h <;> simp [h]
      rw [hmem, ih]
      constructor
      · rintro (⟨h, rfl⟩ | ⟨h, hkey, hex⟩)
        · exact ⟨h, hkey', Or.inl (hasKey_keyLine _ _)⟩
        · exact ⟨h, hkey, Or.inr hex⟩
      · rintro ⟨h, hkey, hk | hex⟩
        · obtain rfl := hk.unique (hasKey_keyLine key' value) hkey hkey'
          exact Or.inl ⟨h, rfl⟩
        · exact Or.inr ⟨h, hkey, hex⟩

theorem keysOf_assign_of_mem (hvalid : keyPrefix.all IniFile.keyChar = true) (hne : keyPrefix ≠ [])
    (hkey : '=' ∉ key) (value : List Char) (h : ∃ l ∈ ls, HasKey key l) :
    keysOf keyPrefix (assign key value ls) = keysOf keyPrefix ls := by
  induction ls with
  | nil => simp at h
  | cons l ls ih =>
    by_cases hl : HasKey key l
    · obtain ⟨t, rfl⟩ := hl
      have hline : key ++ ['='] ++ t = keyLine key t := by simp [keyLine]
      rw [assign, if_pos (prefix_append _ _), hline, keysOf_cons_keyLine hvalid hne hkey,
        keysOf_cons_keyLine hvalid hne hkey]
    · rw [assign, if_neg hl, keysOf, filterMap_cons, ← keysOf,
        ih (by simpa [hl] using h), keysOf, keysOf, filterMap_cons]

/-- **Setting a parameter puts a new name behind the others.** -/
theorem keysOf_assign (hvalid : keyPrefix.all IniFile.keyChar = true) (hne : keyPrefix ≠ [])
    (hkey : '=' ∉ key) (value : List Char) (ls : List Line) :
    keysOf keyPrefix (assign key value ls)
      = if keyPrefix <+: key then addKey (keysOf keyPrefix ls) key else keysOf keyPrefix ls := by
  by_cases h : ∃ l ∈ ls, HasKey key l
  · rw [keysOf_assign_of_mem hvalid hne hkey value h]
    split_ifs with hstart
    · rw [addKey, if_pos ((mem_keysOf hvalid hne).mpr ⟨hstart, hkey, h⟩)]
    · rfl
  · have habsent : ∀ l ∈ ls, ¬ HasKey key l := fun l hl hk => h ⟨l, hl, hk⟩
    rw [assign_of_absent habsent, keysOf_append, keysOf_cons_keyLine hvalid hne hkey]
    split_ifs with hstart
    · rw [addKey, if_neg fun hmem => h ((mem_keysOf hvalid hne).mp hmem).2.2]
      rfl
    · exact append_nil _

/-- The names with those of the entries behind them. -/
def keysWith (keyPrefix : List Char) (es : List Entry) (ls : List Line) : List (List Char) :=
  (es.filter fun e => keyPrefix <+: e.1).foldl (fun keys e => addKey keys e.1) (keysOf keyPrefix ls)

variable {es : List Entry}

theorem keysOf_assignAll (hvalid : keyPrefix.all IniFile.keyChar = true)
    (hne : keyPrefix ≠ []) (hes : ∀ e ∈ es, '=' ∉ e.1) (ls : List Line) :
    keysOf keyPrefix (assignAll es ls) = keysWith keyPrefix es ls := by
  induction es generalizing ls with
  | nil => rfl
  | cons e es ih =>
    rw [assignAll_cons, ih (fun x hx => hes x (mem_cons_of_mem e hx)), keysWith, keysWith,
      keysOf_assign hvalid hne (hes e mem_cons_self)]
    by_cases h : keyPrefix <+: e.1
    · rw [filter_cons_of_pos (by simpa using h), foldl_cons, if_pos h]
    · rw [filter_cons_of_neg (by simpa using h), if_neg h]

theorem mem_keysWith : key ∈ keysWith keyPrefix es ls ↔
    key ∈ keysOf keyPrefix ls ∨ keyPrefix <+: key ∧ key ∈ es.map Prod.fst := by
  have hfold : ∀ (xs : List Entry) (keys : List (List Char)),
      key ∈ xs.foldl (fun keys e => addKey keys e.1) keys ↔ key ∈ keys ∨ key ∈ xs.map Prod.fst := by
    intro xs
    induction xs with
    | nil => simp
    | cons e xs ih =>
      intro keys
      have hadd : key ∈ addKey keys e.1 ↔ key ∈ keys ∨ key = e.1 := by
        rw [addKey]
        split_ifs with h
        · exact ⟨Or.inl, fun hk => hk.elim id fun heq => heq ▸ h⟩
        · simp
      rw [foldl_cons, ih, hadd, map_cons, mem_cons, or_assoc]
  rw [keysWith, hfold]
  refine or_congr_right ?_
  simp only [mem_map, mem_filter, decide_eq_true_eq]
  constructor
  · rintro ⟨e, ⟨he, hstart⟩, rfl⟩
    exact ⟨hstart, e, he, rfl⟩
  · rintro ⟨hstart, e, he, rfl⟩
    exact ⟨e, ⟨he, hstart⟩, rfl⟩

theorem mem_of_mem_written : ∀ e ∈ IniFile.written es, '=' ∉ e.1 :=
  fun _ he => eq_notMem_of_all_keyChar (key_of_mem_written he).1

theorem filter_written (es : List Entry) :
    (IniFile.written es).filter (fun e => keyPrefix <+: e.1)
      = IniFile.written (es.filter fun e => keyPrefix <+: e.1) := by
  rw [written, filter_map, filter_filter, written, filter_filter]
  exact congrArg (map _) (filter_congr fun e _ => Bool.and_comm _ _)

/-- Only the entries with the start matter. -/
theorem keysWith_filter (es : List Entry) (ls : List Line) :
    keysWith keyPrefix (IniFile.written (es.filter fun e => keyPrefix <+: e.1)) ls
      = keysWith keyPrefix (IniFile.written es) ls := by
  rw [keysWith, keysWith, filter_written, filter_written, filter_filter]
  simp only [Bool.and_self]

/-- The value of a parameter once the entries are set: that of the last entry with the name, or
else the one there is. -/
def valueWith (es : List Entry) (ls : List Line) (key : List Char) : Option (List Char) :=
  (((es.filter fun e => e.1.all IniFile.keyChar).reverse.find? fun e => e.1 = key).map Prod.snd).or
    ((lookup key ls).map IniFile.unescape)

theorem lookup_assignAll_eq (hes : ∀ e ∈ es, '=' ∉ e.1) (hkey : '=' ∉ key)
    (ls : List Line) : lookup key (assignAll es ls)
      = ((es.reverse.find? fun e => e.1 = key).map Prod.snd).or (lookup key ls) := by
  induction es generalizing ls with
  | nil => rfl
  | cons e es ih =>
    rw [assignAll_cons, ih fun x hx => hes x (mem_cons_of_mem e hx), reverse_cons,
      find?_append, Option.map_or, Option.or_assoc]
    by_cases h : e.1 = key
    · rw [find?_singleton, if_pos (by simpa using h), ← h, lookup_assign_self]
      rfl
    · rw [find?_singleton, if_neg (by simpa using h),
        lookup_assign_of_ne (Ne.symm h) hkey (hes e mem_cons_self)]
      rfl

/-- **The value of a parameter once the entries are set.** -/
theorem lookup_assignAll_written (hkey : '=' ∉ key) (es : List Entry) (ls : List Line) :
    (lookup key (assignAll (IniFile.written es) ls)).map IniFile.unescape = valueWith es ls key := by
  have hfind : ((written es).reverse.find? fun e => e.1 = key).map
      (fun e => unescape e.2)
        = ((es.filter fun e => e.1.all keyChar).reverse.find? fun e => e.1 = key).map
          Prod.snd := by
    rw [written, ← map_reverse, find?_map, Option.map_map]
    simp only [Function.comp_def, unescape_escape]
  rw [lookup_assignAll_eq mem_of_mem_written hkey, valueWith, ← hfind, Option.map_or,
    Option.map_map]
  rfl

theorem valueWith_filter (h : keyPrefix <+: key) (es : List Entry) (ls : List Line) :
    valueWith (es.filter fun e => keyPrefix <+: e.1) ls key = valueWith es ls key := by
  have hfind : ∀ xs : List Entry, (xs.filter fun e => keyPrefix <+: e.1).find? (fun e => e.1 = key)
      = xs.find? fun e => e.1 = key := fun xs => by
    rw [List.find?_filter]
    refine congrArg (List.find? · xs) (funext fun e => ?_)
    by_cases he : e.1 = key
    · simp [he, h]
    · simp [he]
  have hcomm : (es.filter fun e => keyPrefix <+: e.1).filter (fun e => e.1.all keyChar)
      = (es.filter fun e => e.1.all keyChar).filter fun e => keyPrefix <+: e.1 := by
    rw [filter_filter, filter_filter]
    exact filter_congr fun e _ => Bool.and_comm _ _
  rw [valueWith, valueWith, hcomm, ← filter_reverse, hfind]

theorem valueWith_of_mem {e : Entry} (he : e ∈ es)
    (hvalid : e.1.all IniFile.keyChar = true) (h : ∀ x ∈ es, x.1 = e.1 → x.2 = e.2)
    (ls : List Line) : valueWith es ls e.1 = some e.2 := by
  have hmem : e ∈ (es.filter fun e => e.1.all keyChar).reverse :=
    mem_reverse.mpr (mem_filter.mpr ⟨he, hvalid⟩)
  obtain ⟨x, hx⟩ := Option.isSome_iff_exists.mp (find?_isSome
    (p := fun x : Entry => decide (x.1 = e.1)) |>.mpr ⟨e, hmem, by simp⟩)
  have hmem := (mem_filter.mp (mem_reverse.mp (mem_of_find?_eq_some hx))).1
  have hkey : x.1 = e.1 := by simpa using find?_some hx
  rw [valueWith, hx, Option.map_some, h x hmem hkey, Option.some_or]

/-! ## Removing all of them -/

/-- Forgetting names that a line does not have leaves it. -/
theorem forgetAll_cons_of_not {keys : List (List Char)} (h : ∀ k ∈ keys, ¬ HasKey k l)
    (ls : List Line) : forgetAll keys (l :: ls) = l :: forgetAll keys ls := by
  induction keys generalizing ls with
  | nil => rfl
  | cons k keys ih =>
    rw [forgetAll_cons, forgetAll_cons, forget, eraseP_cons_of_neg
      (by simpa using h k mem_cons_self), ih fun x hx => h x (mem_cons_of_mem k hx)]
    rfl

/-- **Forgetting the listed parameters removes their lines.** -/
theorem forgetAll_keysOf (hvalid : keyPrefix.all IniFile.keyChar = true) (hne : keyPrefix ≠ [])
    (ls : List Line) : forgetAll (keysOf keyPrefix ls) ls
      = ls.filter fun l => listedKey keyPrefix l = none := by
  induction ls with
  | nil => rfl
  | cons l ls ih =>
    rcases line_cases l with hl | ⟨key, value, hkey, rfl⟩
    · rw [keysOf_cons_of_notMem hl, forgetAll_cons_of_not fun k _ => not_hasKey_of_notMem hl, ih,
        filter_cons_of_pos (by simpa using listedKey_of_notMem hl)]
    · rw [keysOf_cons_keyLine hvalid hne hkey]
      by_cases h : keyPrefix <+: key
      · rw [if_pos h, forgetAll_cons, forget, eraseP_cons_of_pos
          (by simp [keyLine]), ih, filter_cons_of_neg
          (by simp [listedKey_keyLine hvalid hne hkey, h])]
      · rw [if_neg h, forgetAll_cons_of_not, ih, filter_cons_of_pos
          (by simp [listedKey_keyLine hvalid hne hkey, h])]
        intro k hk hhas
        obtain ⟨hstart, hk, -⟩ := (mem_keysOf hvalid hne).mp hk
        exact h (hhas.unique (hasKey_keyLine key value) hk hkey ▸ hstart)

/-- Forgetting the first listed parameter leaves the others. -/
theorem keysOf_forget_head {keys : List (List Char)} (hvalid : keyPrefix.all IniFile.keyChar = true)
    (hne : keyPrefix ≠ []) (h : keysOf keyPrefix ls = key :: keys) :
    keysOf keyPrefix (forget key ls) = keys := by
  induction ls with
  | nil => cases h
  | cons l ls ih =>
    have hmem : key ∈ keysOf keyPrefix (l :: ls) := h ▸ mem_cons_self
    obtain ⟨hstart, heq, -⟩ := (mem_keysOf hvalid hne).mp hmem
    by_cases hl : HasKey key l
    · obtain ⟨t, rfl⟩ := hl
      have hline : key ++ ['='] ++ t = keyLine key t := by simp [keyLine]
      rw [hline, keysOf_cons_keyLine hvalid hne heq, if_pos hstart] at h
      rw [forget, eraseP_cons_of_pos (by simp)]
      exact (List.cons.inj h).2
    · have hnone : listedKey keyPrefix l = none := by
        rcases line_cases l with hl' | ⟨key', value, hkey', rfl⟩
        · exact listedKey_of_notMem hl'
        · rw [keysOf_cons_keyLine hvalid hne hkey'] at h
          rw [listedKey_keyLine hvalid hne hkey']
          split_ifs at h ⊢
          · exact absurd (hasKey_keyLine _ _) ((List.cons.inj h).1 ▸ hl)
          · rfl
      rw [keysOf, filterMap_cons_none hnone] at h
      rw [forget, eraseP_cons_of_neg (by simpa using hl), keysOf,
        filterMap_cons_none hnone]
      exact ih h

/-- Removing the parameters of one start leaves the value of a name that does not start so. -/
theorem lookup_filter_listedKey (hvalid : keyPrefix.all IniFile.keyChar = true)
    (hne : keyPrefix ≠ []) (hkey : '=' ∉ key) (h : ¬ keyPrefix <+: key) (ls : List Line) :
    lookup key (ls.filter fun l => listedKey keyPrefix l = none) = lookup key ls := by
  induction ls with
  | nil => rfl
  | cons l ls ih =>
    by_cases hnone : listedKey keyPrefix l = none
    · rw [filter_cons_of_pos (by simpa using hnone)]
      by_cases hl : HasKey key l
      · rw [lookup_cons_of_hasKey hl, lookup_cons_of_hasKey hl]
      · rw [lookup_cons_of_not hl, lookup_cons_of_not hl, ih]
    · rw [filter_cons_of_neg (by simpa using hnone), ih]
      refine (lookup_cons_of_not fun hl => ?_).symm
      obtain ⟨t, rfl⟩ := hl
      have hline : key ++ ['='] ++ t = keyLine key t := by simp [keyLine]
      rw [hline, listedKey_keyLine hvalid hne hkey, if_neg h] at hnone
      exact hnone rfl

/-- …and the names that do not start so. -/
theorem keysOf_filter_listedKey {keyPrefix' : List Char} (hvalid : keyPrefix.all IniFile.keyChar = true)
    (hne : keyPrefix ≠ []) (hvalid' : keyPrefix'.all IniFile.keyChar = true) (hne' : keyPrefix' ≠ [])
    (h : ∀ key, keyPrefix <+: key → ¬ keyPrefix' <+: key) (ls : List Line) :
    keysOf keyPrefix' (ls.filter fun l => listedKey keyPrefix l = none) = keysOf keyPrefix' ls := by
  induction ls with
  | nil => rfl
  | cons l ls ih =>
    rcases line_cases l with hl | ⟨key, value, hkey, rfl⟩
    · rw [filter_cons_of_pos (by simpa using listedKey_of_notMem hl),
        keysOf_cons_of_notMem hl, keysOf_cons_of_notMem hl, ih]
    · by_cases hstart : keyPrefix <+: key
      · rw [filter_cons_of_neg (by simp [listedKey_keyLine hvalid hne hkey, hstart]), ih,
          keysOf_cons_keyLine hvalid' hne' hkey, if_neg (h key hstart)]
      · rw [filter_cons_of_pos (by simp [listedKey_keyLine hvalid hne hkey, hstart]),
          keysOf_cons_keyLine hvalid' hne' hkey, keysOf_cons_keyLine hvalid' hne' hkey, ih]

end Listed

/-! ## The text -/

namespace IniFile

variable {ini : IniFile} {name keyPrefix : List Char} {pre sel tail : List Line} {hdr : Line}

/-- The names that are listed from lines with more lines behind them: the text from a line on begins
with the start. -/
def keysFrom (keyPrefix : List Char) (tail : List Line) : List Line → List (List Char)
  | [] => []
  | l :: ls =>
    if keyPrefix <+: unlines '\n' (l :: (ls ++ tail)) then
      (listedKey [] l).toList ++ keysFrom keyPrefix tail ls
    else keysFrom keyPrefix tail ls

theorem keyLines_eq {ls : List Line} (hls : Terminated '\n' ls) (head : List Char)
    (tail : List Line) :
    keyLines (head ++ unlines '\n' (ls ++ tail)) keyPrefix (head.length + offset ls) head.length
      (ls ++ tail) = keysFrom keyPrefix tail ls := by
  induction ls generalizing head with
  | nil =>
    cases tail with
    | nil => rfl
    | cons l tail => rw [nil_append, keyLines, if_neg (by simp), keysFrom]
  | cons l ls ih =>
    rw [terminated_cons] at hls
    have hdata : head ++ unlines '\n' (l :: ls ++ tail)
        = (head ++ (l ++ ['\n'])) ++ unlines '\n' (ls ++ tail) := by simp
    have hlen : (head ++ (l ++ ['\n'])).length = head.length + l.length + 1 := by
      simp only [length_append, length_cons, length_nil]
      omega
    have hrest := ih hls.2 (head ++ (l ++ ['\n']))
    rw [← hdata, hlen] at hrest
    rw [cons_append, keyLines, if_pos (by rw [offset_cons]; omega), drop_left]
    simp only [cons_append] at hrest
    rw [show head.length + offset (l :: ls) = head.length + l.length + 1 + offset ls by
      rw [offset_cons]; omega]
    simp only [hrest]
    rw [keysFrom, listedKey, if_pos (List.nil_prefix)]
    split_ifs
    · rfl
    · rfl
    · cases find ['='] l <;> rfl
    · rfl

/-- A start without a line break stays within a line. -/
theorem keysFrom_eq_keysOf (hnl : '\n' ∉ keyPrefix) (tail ls : List Line) :
    keysFrom keyPrefix tail ls = keysOf keyPrefix ls := by
  induction ls with
  | nil => rfl
  | cons l ls ih =>
    have hcons : keysOf keyPrefix (l :: ls)
        = (listedKey keyPrefix l).toList ++ keysOf keyPrefix ls := by
      rw [keysOf, filterMap_cons, ← keysOf]
      cases listedKey keyPrefix l <;> rfl
    have hstart : keyPrefix <+: unlines '\n' (l :: (ls ++ tail)) ↔ keyPrefix <+: l := by
      rw [unlines_cons]
      exact isPrefix_line hnl _
    rw [keysFrom, ih, hcons, listedKey, listedKey, if_pos (List.nil_prefix)]
    simp only [hstart]
    split_ifs <;> rfl

/-- **`getKeyList` lists the names of the lines of the section**, for every start. -/
theorem Delimits.getKeyList_eq_keysFrom (h : Delimits ini name pre hdr sel tail)
    (keyPrefix : List Char) : getKeyList ini keyPrefix = keysFrom keyPrefix tail sel := by
  obtain ⟨-, hsel, htail⟩ := h.terminated_parts
  have hdata : ini.myConfigData
      = '\n' :: unlines '\n' (pre ++ [hdr]) ++ unlines '\n' (sel ++ tail) := by
    rw [h.data]
    simp
  have hstart : offset (pre ++ [hdr]) + 1 = ('\n' :: unlines '\n' (pre ++ [hdr])).length := by
    rw [length_cons, length_unlines_nl]
  have hstop : offset (pre ++ [hdr] ++ sel) + 1
      = ('\n' :: unlines '\n' (pre ++ [hdr])).length + offset sel := by
    rw [offset_append, length_cons, length_unlines_nl]
    omega
  rw [getKeyList, h.pointers]
  simp only [hstop, hstart]
  rw [hdata, drop_left, lines_unlines (terminated_append.mpr ⟨hsel, htail⟩)]
  exact keyLines_eq hsel _ tail

/-- **`getKeyList` lists the names of the lines of the section.** -/
theorem Delimits.getKeyList_eq (h : Delimits ini name pre hdr sel tail)
    (hvalid : keyPrefix.all keyChar = true) : getKeyList ini keyPrefix = keysOf keyPrefix sel := by
  rw [h.getKeyList_eq_keysFrom, keysFrom_eq_keysOf (notMem_of_all_keyChar hvalid (by decide))]

/-- Remove the parameters, in order. -/
def unsetAll (ini : IniFile) (keys : List (List Char)) : IniFile :=
  keys.foldl (fun ini key => (unset ini key).2) ini

theorem unsetAll_tracked (ini : IniFile) (keys : List (List Char)) :
    Tracked ini (unsetAll ini keys) := by
  induction keys generalizing ini with
  | nil => exact Tracked.refl ini
  | cons key keys ih => exact (unset_tracked ini key).trans (ih _)

/-- Parameters are removed from the start pointer on. -/
theorem Opens.unsetAll_eq {rest : List Line} (h : Opens ini name pre hdr rest)
    {keys : List (List Char)} (hkeys : ∀ k ∈ keys, '\n' ∉ k) :
    Opens (unsetAll ini keys) name pre hdr (forgetAll keys rest) := by
  induction keys generalizing ini rest with
  | nil => exact h
  | cons k keys ih =>
    obtain ⟨ini', hunset, hopen⟩ := h.unset_eq (hkeys k mem_cons_self)
    rw [unsetAll, foldl_cons, hunset, forgetAll_cons]
    exact ih hopen fun x hx => hkeys x (mem_cons_of_mem k hx)

/-- **Removing the listed parameters removes their lines from the section.** -/
theorem Delimits.unsetAll_eq (h : Delimits ini name pre hdr sel tail)
    (hvalid : keyPrefix.all keyChar = true) (hne : keyPrefix ≠ []) :
    Delimits (unsetAll ini (keysOf keyPrefix sel)) name pre hdr
      (sel.filter fun l => listedKey keyPrefix l = none) tail := by
  rw [← forgetAll_keysOf hvalid hne]
  induction hkeys : keysOf keyPrefix sel generalizing ini sel with
  | nil => exact h
  | cons k keys ih =>
    have hmem : k ∈ keysOf keyPrefix sel := hkeys ▸ mem_cons_self
    obtain ⟨-, -, l, hsel, hk⟩ := (mem_keysOf hvalid hne).mp hmem
    have hnl : '\n' ∉ k := fun hc => by
      obtain ⟨t, rfl⟩ := hk
      exact h.terminated_parts.2.1 _ hsel (by simp [hc])
    obtain ⟨a, l, b, rfl, hl, ha⟩ := exists_first ⟨l, hsel, hk⟩
    obtain ⟨ini', hunset, hd⟩ := h.unset_of_line hnl ha hl
    rw [← forget_of_first ha hl] at hd
    rw [unsetAll, foldl_cons, hunset, forgetAll_cons]
    exact ih hd (keysOf_forget_head hvalid hne hkeys)

/-! ## Null characters -/

theorem nul_notMem_unset (h : Char.ofNat 0 ∉ ini.myConfigData) (key : List Char) :
    Char.ofNat 0 ∉ (unset ini key).2.myConfigData := by
  rw [unset]
  split
  · exact h
  · split
    · exact h
    · simp only [mem_append, not_or]
      exact ⟨fun hmem => h (mem_of_mem_take hmem), fun hmem => h (mem_of_mem_drop hmem)⟩

theorem nul_notMem_set {key data : List Char} {r : Bool × IniFile}
    (h : Char.ofNat 0 ∉ ini.myConfigData) (hdata : Char.ofNat 0 ∉ data)
    (hset : set ini key data = some r) : Char.ofNat 0 ∉ r.2.myConfigData := by
  have htake : ∀ n, Char.ofNat 0 ∉ ini.myConfigData.take n := fun n hmem =>
    h (mem_of_mem_take hmem)
  have hdrop : ∀ n, Char.ofNat 0 ∉ ini.myConfigData.drop n := fun n hmem =>
    h (mem_of_mem_drop hmem)
  have hsafe := nul_notMem_escape hdata
  rw [set] at hset
  split at hset
  · cases hset
    exact h
  · by_cases hkey : key.all keyChar = true
    · have hadd : ∀ n, Char.ofNat 0 ∉ ini.myConfigData.take n ++
          (key ++ '=' :: escape data ++ ['\n']) ++ ini.myConfigData.drop n := fun n => by
        simp only [mem_append, mem_cons, not_mem_nil, or_false, not_or]
        exact ⟨⟨htake n, ⟨nul_notMem_of_all_keyChar hkey, by decide, hsafe⟩, by decide⟩, hdrop n⟩
      simp only [hkey, not_true_eq_false, if_false] at hset
      split at hset
      · split_ifs at hset
        cases hset
        exact hadd _
      · split_ifs at hset
        · cases hset
          exact h
        · cases hset
          simp only [mem_append, not_or]
          exact ⟨⟨htake _, hsafe⟩, hdrop _⟩
        · cases hset
          exact hadd _
    · rw [if_pos hkey] at hset
      cases hset
      exact h

end IniFile

end Licq
