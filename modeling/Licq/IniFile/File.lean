import Licq.IniFile.Values

/-!
# IniFile/File — the configuration and its file

`ConfFile` is a configuration with the content of its file.  Writing and reading back gives the
same text (`ConfFile.restart_eq`), as long as every line of it is `Steady`: loading drops the spaces
around an equal sign, once, and stops at a null character.
-/

namespace Licq

open Text List

namespace IniFile

/-! ## Reading and writing the file -/

/-- What a null-terminated buffer holds of a text. -/
def cString (s : List Char) : List Char := s.takeWhile (· ≠ Char.ofNat 0)

theorem nul_notMem_cString (s : List Char) : Char.ofNat 0 ∉ cString s := fun h => by
  simpa using mem_takeWhile_imp h

variable {s key name value : List Char} {ini ini' : IniFile} {ls : List Line}

theorem cString_of_notMem (h : Char.ofNat 0 ∉ s) : cString s = s :=
  takeWhile_eq_self_iff.mpr fun c hc => by
    have hne : c ≠ Char.ofNat 0 := fun he => h (he ▸ hc)
    simpa using hne

/-- A configuration, the content of its file (`none` when it is missing), and whether
`myLastTimestamp` is that of the file. -/
structure ConfFile where
  ini : IniFile
  disk : Option (List Char)
  known : Bool
  deriving DecidableEq, Repr

namespace ConfFile

/-- A new `IniFile` for a file. -/
def opened (disk : Option (List Char)) : ConfFile := ⟨empty, disk, false⟩

def loadFile (f : ConfFile) : Bool × ConfFile :=
  match f.disk with
  | none => (false, f)
  | some text =>
    -- File hasn't changed, no need to reread it
    if !f.ini.myIsModified && f.known then (true, { f with ini := { f.ini with mySection := none } })
    else
      (true, ⟨{ loadRawConfiguration (cString text) with myIsModified := false }, f.disk, true⟩)

def writeFile (f : ConfFile) : Bool × ConfFile :=
  -- If data hasn't been modified there is no point in generating disk I/O
  if !f.ini.myIsModified then (true, f)
  else (true, ⟨{ f.ini with myIsModified := false }, some (getRawConfiguration f.ini), true⟩)

/-- What a new `IniFile` reads from the file. -/
def restart (f : ConfFile) : IniFile := (loadFile (opened f.disk)).2.ini

end ConfFile

/-! ## Lines that survive loading -/

/-- Loading leaves the line as it is. -/
def Steady (l : Line) : Prop := dropSpaces l = l ∧ Char.ofNat 0 ∉ l

theorem steady_nil : Steady [] := ⟨rfl, not_mem_nil⟩

theorem nul_notMem_of_all_keyChar (hkey : key.all keyChar = true) :
    Char.ofNat 0 ∉ key := notMem_of_all_keyChar hkey (by decide)

theorem steady_header (h : Char.ofNat 0 ∉ name) : Steady (header name) := by
  refine ⟨if_pos (Or.inl rfl), ?_⟩
  simp only [header, cons_append, mem_cons, mem_append, not_mem_nil, or_false,
    not_or]
  exact ⟨by decide, h, by decide⟩

theorem nul_notMem_sectionName (raw : List Char) : Char.ofNat 0 ∉ sectionName raw := by
  intro h
  exact absurd (mem_filter.mp h).2 (by decide)

/-- The first equal sign of a parameter line is the one after the name. -/
theorem find_eq_keyLine (hkey : '=' ∉ key) (value : List Char) :
    find ['='] (keyLine key value) = some key.length := find_nl hkey value

/-- Loading drops no spaces from the line of a parameter that `set` wrote. -/
theorem dropSpaces_keyLine (hkey : key.all keyChar = true) (value : List Char) :
    dropSpaces (keyLine key value) = keyLine key value := by
  have hspace : (keyLine key value)[key.length - 1]? ≠ some ' ' := by
    rw [keyLine]
    obtain rfl | hne := eq_or_ne key []
    · simp
    · have hlen : 0 < key.length := length_pos_iff.mpr hne
      rw [getElem?_append_left (by omega)]
      exact fun h => notMem_of_all_keyChar hkey (by decide) (mem_of_getElem? h)
  rw [dropSpaces]
  split_ifs
  · rfl
  · rw [find_eq_keyLine (eq_notMem_of_all_keyChar hkey)]
    exact if_neg fun h => hspace h.1

/-- **A parameter that `set` wrote survives loading.** -/
theorem steady_keyLine (hkey : key.all keyChar = true)
    (hvalue : Char.ofNat 0 ∉ value) : Steady (keyLine key value) := by
  refine ⟨dropSpaces_keyLine hkey value, ?_⟩
  simp only [keyLine, mem_append, mem_cons, not_or]
  exact ⟨nul_notMem_of_all_keyChar hkey, by decide, hvalue⟩

theorem nul_notMem_escape (h : Char.ofNat 0 ∉ s) : Char.ofNat 0 ∉ escape s := by
  induction s using escape.induct with
  | case1 => simp [escape]
  | case2 s ih =>
    simp only [mem_cons, not_or] at h
    rw [escape]
    simp only [mem_cons, not_or]
    exact ⟨by decide, by decide, ih h.2⟩
  | case3 s ih =>
    simp only [mem_cons, not_or] at h
    rw [escape]
    simp only [mem_cons, not_or]
    exact ⟨by decide, by decide, ih h.2⟩
  | case4 c s h1 h2 ih =>
    simp only [mem_cons, not_or] at h
    rw [escape_cons h1 h2, mem_cons, not_or]
    exact ⟨h.1, ih h.2⟩

/-- **What was escaped is read back.** -/
theorem unescape_escape (s : List Char) : unescape (escape s) = s := by
  induction s using escape.induct with
  | case1 => rfl
  | case2 s ih => rw [escape, unescape, ih]
  | case3 s ih => rw [escape, unescape, ih]
  | case4 c s h1 h2 ih =>
    rw [escape_cons h1 h2, unescape_cons h2, ih]

/-! ## The text that is read back -/

/-- The text is lines that survive loading. -/
def Settled (ini : IniFile) : Prop :=
  HasLines ini ini.textLines ∧ ∀ l ∈ ini.textLines, Steady l

instance (ini : IniFile) : Decidable (Settled ini) :=
  decidable_of_iff ((∀ l ∈ ini.textLines, '\n' ∉ l) ∧
      ini.myConfigData = '\n' :: unlines '\n' ini.textLines ∧
      ∀ l ∈ ini.textLines, dropSpaces l = l ∧ Char.ofNat 0 ∉ l)
    ⟨fun h => ⟨⟨h.1, h.2.1⟩, h.2.2⟩, fun h => ⟨h.1.terminated, h.1.data, h.2⟩⟩

theorem textLines_congr (h : ini.myConfigData = ini'.myConfigData) :
    ini.textLines = ini'.textLines := by
  rw [textLines, textLines, h]

theorem settled_congr (h : ini.myConfigData = ini'.myConfigData)
    (hini : Settled ini) : Settled ini' := by
  rw [Settled, ← textLines_congr h]
  exact ⟨⟨hini.1.terminated, h ▸ hini.1.data⟩, hini.2⟩

theorem getRawConfiguration_eq (h : HasLines ini ls) :
    getRawConfiguration ini = unlines '\n' ls := by
  rw [getRawConfiguration, h.data]
  rfl

/-- **Loading a text of lines drops the spaces of each line.** -/
theorem load_unlines (h : Terminated '\n' ls) :
    loadRawConfiguration (unlines '\n' ls)
      = ⟨'\n' :: unlines '\n' (ls.map dropSpaces), none, true⟩ := by
  have hlast : ('\n' :: unlines '\n' ls).getLast? = some '\n' := by
    obtain rfl | hne := eq_or_ne ls []
    · rfl
    · simp [getLast?_cons, getLast?_unlines hne]
  rw [loadRawConfiguration]
  simp only [hlast, if_true, tail_cons]
  rw [lines_unlines h]

/-- **Loading the text of a settled configuration gives that text.** -/
theorem load_settled (h : Settled ini) :
    loadRawConfiguration (cString (getRawConfiguration ini)) = ⟨ini.myConfigData, none, true⟩ := by
  have hnul : ∀ c ∈ unlines '\n' ini.textLines, decide (c ≠ Char.ofNat 0) = true := by
    intro c hc
    obtain ⟨l, hl, hcl⟩ := mem_flatMap.mp hc
    rw [decide_eq_true_eq]
    rintro rfl
    rcases mem_append.mp hcl with hcl | hcl
    · exact (h.2 l hl).2 hcl
    · exact absurd (mem_singleton.mp hcl) (by decide)
  have hmap : ini.textLines.map dropSpaces = ini.textLines :=
    (map_congr_left fun l hl => (h.2 l hl).1).trans (map_id _)
  rw [getRawConfiguration_eq h.1, cString, takeWhile_eq_self_iff.mpr hnul,
    load_unlines h.1.terminated, hmap, ← h.1.data]

/-- A call that leaves the text alone, or marks it modified. -/
def Tracked (ini ini' : IniFile) : Prop :=
  ini'.myIsModified = true ∨
    ini'.myConfigData = ini.myConfigData ∧ ini'.myIsModified = ini.myIsModified

namespace Tracked

theorem refl (ini : IniFile) : Tracked ini ini := Or.inr ⟨rfl, rfl⟩

theorem trans {a b c : IniFile} (h : Tracked a b) (h' : Tracked b c) : Tracked a c := by
  rcases h' with h' | ⟨hdata, hmod⟩
  · exact Or.inl h'
  · rcases h with h | h
    · exact Or.inl (hmod.trans h)
    · exact Or.inr ⟨hdata.trans h.1, hmod.trans h.2⟩

end Tracked

theorem set_tracked {data : List Char} {b : Bool}
    (h : set ini key data = some (b, ini')) : Tracked ini ini' := by
  rw [set] at h
  split at h
  · cases h
    exact Tracked.refl _
  · by_cases hkey : key.all keyChar = true
    · simp only [hkey, not_true_eq_false, if_false] at h
      split at h
      · split_ifs at h
        cases h
        exact Or.inl rfl
      · split_ifs at h
        · cases h
          exact Tracked.refl _
        · cases h
          exact Or.inl rfl
        · cases h
          exact Or.inl rfl
    · rw [if_pos hkey] at h
      cases h
      exact Tracked.refl _

theorem unset_tracked (ini : IniFile) (key : List Char) : Tracked ini (unset ini key).2 := by
  rw [unset]
  split
  · exact Tracked.refl ini
  · split
    · exact Tracked.refl ini
    · exact Or.inl rfl

theorem setAll_tracked {es : List Entry} (h : setAll ini es = some ini') : Tracked ini ini' := by
  induction es generalizing ini with
  | nil =>
    cases h
    exact Tracked.refl _
  | cons e es ih =>
    rw [setAll, Option.bind_eq_some_iff] at h
    obtain ⟨⟨b, ini₁⟩, hset, hrest⟩ := h
    exact (set_tracked hset).trans (ih hrest)

/-- Selecting a section of a text of lines leaves the text alone or appends the section. -/
theorem setSection_tracked (h : HasLines ini ls) (raw : List Char)
    (allowAdd : Bool) : Tracked ini (setSection ini raw allowAdd).2 := by
  by_cases hname : sectionName raw = []
  · rw [setSection]
    simp only [if_pos hname]
    exact Or.inr ⟨rfl, rfl⟩
  · by_cases hmem : ∃ l ∈ ls, header (sectionName raw) <+: l
    · obtain ⟨ini', pre, hdr, sel, tail, hset, rfl, hd, hmod⟩ :=
        setSection_of_named h allowAdd hname hmem
      rw [hset]
      exact Or.inr ⟨by rw [hd.data, h.data], hmod⟩
    · simp only [not_exists, not_and] at hmem
      rw [setSection]
      simp only [if_neg hname, find_header_of_absent h hmem]
      cases allowAdd with
      | false => exact Or.inr ⟨rfl, rfl⟩
      | true => exact Or.inl rfl

/-- Every value of a text without null characters is without them. -/
theorem nul_notMem_unescape (h : Char.ofNat 0 ∉ s) : Char.ofNat 0 ∉ unescape s := by
  induction s using unescape.induct with
  | case1 => exact h
  | case2 s ih =>
    simp only [mem_cons, not_or] at h
    rw [unescape, mem_cons, not_or]
    exact ⟨by decide, ih h.2.2⟩
  | case3 s ih =>
    simp only [mem_cons, not_or] at h
    rw [unescape, mem_cons, not_or]
    exact ⟨by decide, ih h.2.2⟩
  | case4 c s h1 h2 ih =>
    simp only [mem_cons, not_or] at h
    rw [unescape, mem_cons, not_or]
    · exact ⟨h.1, ih h.2⟩
    · exact h1
    · exact h2

theorem nul_notMem_get
    (h : Char.ofNat 0 ∉ ini.myConfigData) (hget : get ini key = some value) :
    Char.ofNat 0 ∉ value := by
  rw [get] at hget
  split at hget
  · cases hget
  · split at hget
    · cases hget
    · split_ifs at hget
      cases hget
      exact nul_notMem_unescape fun hmem => h (mem_of_mem_drop (mem_of_mem_take hmem))

/-- Selecting a section adds no null character. -/
theorem nul_notMem_setSection (h : Char.ofNat 0 ∉ ini.myConfigData)
    (raw : List Char) (allowAdd : Bool) :
    Char.ofNat 0 ∉ (setSection ini raw allowAdd).2.myConfigData := by
  have happend : ∀ {a b : List Char}, Char.ofNat 0 ∉ a → Char.ofNat 0 ∉ b → Char.ofNat 0 ∉ a ++ b :=
    fun ha hb hmem => (mem_append.mp hmem).elim ha hb
  have hheader : Char.ofNat 0 ∉ header (sectionName raw) :=
    (steady_header (nul_notMem_sectionName raw)).2
  have hnl : Char.ofNat 0 ∉ ['\n'] := by decide
  rw [setSection]
  by_cases hname : sectionName raw = []
  · simpa only [if_pos hname] using h
  · simp only [if_neg hname]
    split
    · dsimp only
      split
      · exact h
      · exact happend h hnl
    · split_ifs
      · exact happend (happend (happend h hnl) hheader) hnl
      · exact happend (happend h hheader) hnl
      · exact h

/-! ## Saving a section -/

theorem mem_assign {body : List Line} {l : Line}
    (h : l ∈ assign key value body) : l ∈ body ∨ l = keyLine key value := by
  induction body with
  | nil => exact Or.inr (mem_singleton.mp h)
  | cons x body ih =>
    rw [assign] at h
    split_ifs at h
    · rcases mem_cons.mp h with h | h
      · exact Or.inr h
      · exact Or.inl (mem_cons_of_mem x h)
    · rcases mem_cons.mp h with h | h
      · exact Or.inl (h ▸ mem_cons_self)
      · exact (ih h).imp_left (mem_cons_of_mem x)

theorem mem_assignAll {es : List Entry} {body : List Line} {l : Line}
    (h : l ∈ assignAll es body) : l ∈ body ∨ ∃ e ∈ es, l = keyLine e.1 e.2 := by
  induction es generalizing body with
  | nil => exact Or.inl h
  | cons e es ih =>
    rcases ih h with h | ⟨x, hx, hl⟩
    · rcases mem_assign h with h | h
      · exact Or.inl h
      · exact Or.inr ⟨e, mem_cons_self, h⟩
    · exact Or.inr ⟨x, mem_cons_of_mem e hx, hl⟩

theorem Delimits.settled {pre sel tail : List Line} {hdr : Line}
    (h : Delimits ini name pre hdr sel tail) (hsteady : ∀ l ∈ pre ++ hdr :: (sel ++ tail), Steady l) :
    Settled ini := by
  rw [Settled, h.toHasLines.textLines_eq]
  exact ⟨h.toHasLines, hsteady⟩

theorem Opens.settled {pre rest : List Line} {hdr : Line}
    (h : Opens ini name pre hdr rest) (hsteady : ∀ l ∈ pre ++ hdr :: rest, Steady l) :
    Settled ini := by
  rw [Settled, h.toHasLines.textLines_eq]
  exact ⟨h.toHasLines, hsteady⟩

/-- Removing parameters leaves a text settled. -/
theorem Opens.settled_forgetAll {pre rest : List Line} {hdr : Line} {keys : List (List Char)}
    (h : Opens ini name pre hdr (forgetAll keys rest))
    (hsteady : ∀ l ∈ pre ++ hdr :: rest, Steady l) : Settled ini := by
  refine h.settled fun x hx => hsteady x ?_
  simp only [mem_append, mem_cons] at hx ⊢
  exact hx.imp_right (Or.imp_right mem_of_mem_forgetAll)

theorem length_le_offset (ls : List Line) : ls.length ≤ offset ls := by
  induction ls with
  | nil => rfl
  | cons l ls ih =>
    rw [offset_cons, length_cons]
    omega

/-- There are fewer lines than characters. -/
theorem Opens.length_lt {pre rest : List Line} {hdr : Line} (h : Opens ini name pre hdr rest) :
    rest.length < ini.myConfigData.length + 1 := by
  have := length_le_offset (pre ++ hdr :: rest)
  rw [h.data, length_cons, length_unlines_nl]
  simp only [length_append, length_cons] at this ⊢
  omega

theorem Delimits.length_lt {pre sel tail : List Line} {hdr : Line}
    (h : Delimits ini name pre hdr sel tail) : sel.length < ini.myConfigData.length + 1 := by
  have := h.opens.length_lt
  rw [length_append] at this
  exact Nat.lt_of_add_right_lt this

/-- **Selecting a section and setting parameters in it.** -/
theorem save_section {ini : IniFile} (h : Settled ini) {raw : List Char}
    (hraw : sectionName raw ≠ []) {es : List Entry} (hes : ∀ e ∈ es, Char.ofNat 0 ∉ e.2) :
    ∃ ini₁ ini₂ pre hdr sel tail, setSection ini raw true = (true, ini₁) ∧
      setAll ini₁ es = some ini₂ ∧
      Selection ini ini₁ (sectionName raw) pre hdr sel tail ∧
      Delimits ini₂ (sectionName raw) pre hdr (assignAll (written es) sel) tail ∧
      Tracked ini ini₂ ∧
      ∀ l ∈ pre ++ hdr :: (assignAll (written es) sel ++ tail), Steady l := by
  obtain ⟨ini₁, pre, hdr, sel, tail, hset, hs⟩ := setSection_selection h.1 hraw
  obtain ⟨ini₂, hall, hd₂⟩ := hs.delimits.setAll_eq es
  have htrack : Tracked ini ini₁ := by
    have := setSection_tracked h.1 raw true
    rwa [hset] at this
  have hold : ∀ l ∈ pre ++ hdr :: (sel ++ tail), Steady l := by
    intro l hl
    rcases hs.lines l hl with hl | rfl | rfl
    · exact h.2 l hl
    · exact steady_nil
    · exact steady_header (nul_notMem_sectionName raw)
  refine ⟨ini₁, ini₂, pre, hdr, sel, tail, hset, hall, hs, hd₂,
    htrack.trans (setAll_tracked hall), fun l hl => ?_⟩
  simp only [mem_append, mem_cons] at hl hold
  rcases hl with hl | hl | hl | hl
  · exact hold l (Or.inl hl)
  · exact hold l (Or.inr (Or.inl hl))
  · rcases mem_assignAll hl with hl | ⟨e, he, rfl⟩
    · exact hold l (Or.inr (Or.inr (Or.inl hl)))
    · rw [written, mem_map] at he
      obtain ⟨x, hx, rfl⟩ := he
      rw [mem_filter] at hx
      exact steady_keyLine hx.2 (nul_notMem_escape (hes x hx.1))
  · exact hold l (Or.inr (Or.inr (Or.inr hl)))

namespace ConfFile

/-- **The file holds the text of a configuration that is not modified**: reading it gives that
text. -/
structure InSync (f : ConfFile) : Prop where
  settled : Settled f.ini
  synced : f.ini.myIsModified = false →
    ∃ text, f.disk = some text ∧
      (loadRawConfiguration (cString text)).myConfigData = f.ini.myConfigData

theorem inSync_opened : InSync (opened none) :=
  ⟨⟨⟨Terminated.nil, rfl⟩, nofun⟩, nofun⟩

variable {f : ConfFile} {ini' : IniFile}

/-- **Writing the file and reading it back gives the text in memory.** -/
theorem restart_eq (h : InSync f) (hini : Settled ini')
    (htrack : Tracked f.ini ini') :
    restart (writeFile ⟨ini', f.disk, f.known⟩).2 = ⟨ini'.myConfigData, none, false⟩ := by
  cases hmod : ini'.myIsModified with
  | true =>
    rw [writeFile]
    simp only [hmod, Bool.not_true, Bool.false_eq_true, if_false]
    rw [restart, loadFile, opened]
    simp only [empty, Bool.not_true, Bool.false_and, Bool.false_eq_true, if_false]
    rw [load_settled hini]
  | false =>
    rcases htrack with htrack | ⟨hdata, hsame⟩
    · rw [hmod] at htrack
      exact nomatch htrack
    · obtain ⟨text, htext, hload⟩ := h.synced (hsame ▸ hmod)
      rw [writeFile]
      simp only [hmod, Bool.not_false, if_true]
      rw [restart, loadFile, opened]
      simp only [empty, Bool.not_true, Bool.false_and, Bool.false_eq_true, if_false, htext]
      rw [hdata, ← hload]
      rfl

/-- …and the file is there. -/
theorem exists_loadFile (h : InSync f) (hini : Settled ini')
    (htrack : Tracked f.ini ini') : ∃ conf,
      loadFile (opened (writeFile { f with ini := ini' }).2.disk) = (true, conf) ∧
        conf.ini.myConfigData = ini'.myConfigData := by
  have hrun := restart_eq h hini htrack
  generalize hsaved : (writeFile { f with ini := ini' }).2 = saved at hrun ⊢
  cases hdisk : saved.disk with
  | none =>
    -- A file that is missing is loaded as a text that is modified.
    have hempty : saved.restart = empty := by rw [restart, hdisk]; rfl
    rw [hrun] at hempty
    have hmodified : false = true := congrArg IniFile.myIsModified hempty
    exact absurd hmodified (by decide)
  | some text =>
    refine ⟨(loadFile (opened (some text))).2, rfl, ?_⟩
    rw [restart, hdisk] at hrun
    rw [hrun]

/-- …and the file is in sync with the text in memory again. -/
theorem inSync_writeFile (h : InSync f) (hini : Settled ini')
    (htrack : Tracked f.ini ini') : InSync (writeFile ⟨ini', f.disk, f.known⟩).2 := by
  cases hmod : ini'.myIsModified with
  | true =>
    rw [writeFile]
    simp only [hmod, Bool.not_true, Bool.false_eq_true, if_false]
    exact ⟨⟨⟨hini.1.terminated, hini.1.data⟩, hini.2⟩, fun _ => ⟨_, rfl, by rw [load_settled hini]⟩⟩
  | false =>
    rcases htrack with htrack | ⟨hdata, hsame⟩
    · rw [hmod] at htrack
      exact nomatch htrack
    · obtain ⟨text, htext, hload⟩ := h.synced (hsame ▸ hmod)
      rw [writeFile]
      simp only [hmod, Bool.not_false, if_true]
      exact ⟨hini, fun _ => ⟨text, htext, hload.trans hdata.symm⟩⟩

theorem writeFile_not_modified (f : ConfFile) : (writeFile f).2.ini.myIsModified = false := by
  cases hmod : f.ini.myIsModified with
  | true => simp [writeFile, hmod]
  | false => simp [writeFile, hmod]

theorem writeFile_data (f : ConfFile) : (writeFile f).2.ini.myConfigData = f.ini.myConfigData := by
  cases hmod : f.ini.myIsModified with
  | true => simp [writeFile, hmod]
  | false => simp [writeFile, hmod]

/-- A file that is in sync and not modified is loaded with the text that it has. -/
theorem InSync.loadFile (h : InSync f) (hmod : f.ini.myIsModified = false) :
    InSync (loadFile f).2 ∧ (loadFile f).2.ini.myConfigData = f.ini.myConfigData := by
  obtain ⟨text, htext, hload⟩ := h.synced hmod
  have hsettled : ∀ {ini : IniFile}, ini.myConfigData = f.ini.myConfigData → Settled ini :=
    fun hdata => settled_congr hdata.symm h.settled
  rw [ConfFile.loadFile, htext]
  simp only [hmod, Bool.not_false, Bool.true_and]
  split_ifs
  · exact ⟨⟨hsettled rfl, fun _ => ⟨text, rfl, hload⟩⟩, rfl⟩
  · exact ⟨⟨hsettled hload, fun _ => ⟨text, rfl, rfl⟩⟩, hload⟩

theorem nul_notMem_load {rawConfig : List Char} (h : Char.ofNat 0 ∉ rawConfig) :
    Char.ofNat 0 ∉ (loadRawConfiguration rawConfig).myConfigData := by
  have hdata : Char.ofNat 0 ∉ (if ('\n' :: rawConfig).getLast? = some '\n' then '\n' :: rawConfig
      else '\n' :: rawConfig ++ ['\n']).tail := by
    split_ifs
    · exact h
    · simpa using h
  rw [loadRawConfiguration]
  simp only [mem_cons, not_or]
  refine ⟨by decide, fun hmem => ?_⟩
  obtain ⟨l, hl, hc⟩ := mem_flatMap.mp hmem
  obtain ⟨x, hx, rfl⟩ := mem_map.mp hl
  rcases mem_append.mp hc with hc | hc
  · exact notMem_dropSpaces (by decide) (fun hx' => hdata (mem_of_mem_lines hx hx')) hc
  · exact absurd (mem_singleton.mp hc) (by decide)

/-- The text a new `IniFile` reads has no null character. -/
theorem nul_notMem_restart (f : ConfFile) : Char.ofNat 0 ∉ f.restart.myConfigData := by
  rw [restart, loadFile, opened]
  cases f.disk with
  | none => decide
  | some text =>
    simp only [empty, Bool.not_true, Bool.false_and, Bool.false_eq_true, if_false]
    exact nul_notMem_load (nul_notMem_cString text)

/-- A file that is read, or is missing, gives a text of lines. -/
theorem hasLines_restart (f : ConfFile) : HasLines f.restart f.restart.textLines := by
  rw [restart, loadFile, opened]
  cases f.disk with
  | none => exact ⟨Terminated.nil, rfl⟩
  | some text =>
    have h := (load_refines (cString text)).text
    exact ⟨h.terminated, h.data⟩

/-- A file that was read is in sync. -/
theorem inSync_loadFile {disk : Option (List Char)} (h : Settled (loadFile (opened disk)).2.ini) :
    InSync (loadFile (opened disk)).2 := by
  refine ⟨h, ?_⟩
  rw [loadFile, opened]
  cases disk with
  | none => exact nofun
  | some text => exact fun _ => ⟨text, rfl, rfl⟩

end ConfFile

end IniFile

end Licq
