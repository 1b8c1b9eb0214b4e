import Licq.IniFile.Edit
import Licq.ContactList.GroupFile

/-!
# Daemon/ConfWriters — what the writers of licq.conf set in it

Five parts of the daemon keep a section each in licq.conf: the owners, the groups, the settings of the
daemon, the statistics and the loaded plugins.  `Save.edit` is what each does between loading the file
and writing it, and `Save.edit_spec` is the one fact about it that the rest needs: it edits its own
section, and the last values it sets are there.
-/

namespace Licq

open Text IniFile

namespace LicqConf

/-! ## The owners and the groups -/

/-- `UserManager::saveOwnerList`, up to the writing. -/
def editOwners (l : OwnerLists) (licqConf : IniFile) : Option IniFile := do
  let ini := (setSection licqConf ownersSection true).2
  let (_, ini) ← set ini numOfOwners (decimal l.myOwners.length)
  let ini ← setOwners ini 0 l.myConfiguredOwners
  unsetOwners (ini.myConfigData.length + 1) ini (l.myConfiguredOwners.length + 1)

/-- `UserManager::SaveGroups`, between the loading and the writing. -/
def editGroups (myGroups : GroupMap) (licqConf : IniFile) : Option IniFile := do
  let ini := (setSection licqConf groupsSection true).2
  let (_, ini) ← set ini numOfGroups (decimal myGroups.size)
  let (i, ini) ← saveGroupsFrom 1 myGroups.entries ini
  unsetGroups (ini.myConfigData.length + 1) ini i

/-! ## The settings of the daemon -/

def networkSection : List Char := ['n', 'e', 't', 'w', 'o', 'r', 'k']

/-- What `Daemon::SaveConf` saves. -/
structure Settings where
  myTcpPortsLow : ℕ
  myTcpPortsHigh : ℕ
  myTcpEnabled : Bool
  myBehindFirewall : Bool
  myProxyEnabled : Bool
  myProxyType : ℕ
  myProxyHost : List Char
  myProxyPort : ℕ
  myProxyAuthEnabled : Bool
  myProxyLogin : List Char
  myProxyPasswd : List Char
  myRejectFile : List Char
  myErrorFile : List Char
  myErrorTypes : ℕ
  myTerminal : List Char
  mySendTypingNotification : Bool
  myIgnoreTypes : ℕ
  defaultForeground : ℕ
  defaultBackground : ℕ
  defaultUserEncoding : List Char
  deriving DecidableEq, Repr

def savedSettings (c : Settings) : List Entry :=
  [(['T', 'C', 'P', 'P', 'o', 'r', 't', 's', 'L', 'o', 'w'], decimal c.myTcpPortsLow),
    (['T', 'C', 'P', 'P', 'o', 'r', 't', 's', 'H', 'i', 'g', 'h'], decimal c.myTcpPortsHigh),
    (['T', 'C', 'P', 'E', 'n', 'a', 'b', 'l', 'e', 'd'], boolText c.myTcpEnabled),
    (['F', 'i', 'r', 'e', 'w', 'a', 'l', 'l'], boolText c.myBehindFirewall),
    -- Proxy
    (['P', 'r', 'o', 'x', 'y', 'E', 'n', 'a', 'b', 'l', 'e', 'd'], boolText c.myProxyEnabled),
    (['P', 'r', 'o', 'x', 'y', 'S', 'e', 'r', 'v', 'e', 'r', 'T', 'y', 'p', 'e'],
      decimal c.myProxyType),
    (['P', 'r', 'o', 'x', 'y', 'S', 'e', 'r', 'v', 'e', 'r'], c.myProxyHost),
    (['P', 'r', 'o', 'x', 'y', 'S', 'e', 'r', 'v', 'e', 'r', 'P', 'o', 'r', 't'],
      decimal c.myProxyPort),
    (['P', 'r', 'o', 'x', 'y', 'A', 'u', 't', 'h', 'E', 'n', 'a', 'b', 'l', 'e', 'd'],
      boolText c.myProxyAuthEnabled),
    (['P', 'r', 'o', 'x', 'y', 'L', 'o', 'g', 'i', 'n'], c.myProxyLogin),
    (['P', 'r', 'o', 'x', 'y', 'P', 'a', 's', 's', 'w', 'o', 'r', 'd'], c.myProxyPasswd),
    (['R', 'e', 'j', 'e', 'c', 't', 's'],
      if c.myRejectFile = [] then ['n', 'o', 'n', 'e'] else c.myRejectFile),
    (['E', 'r', 'r', 'o', 'r', 's'], c.myErrorFile),
    (['E', 'r', 'r', 'o', 'r', 'T', 'y', 'p', 'e', 's'], decimal c.myErrorTypes),
    (['T', 'e', 'r', 'm', 'i', 'n', 'a', 'l'], c.myTerminal),
    (['S', 'e', 'n', 'd', 'T', 'y', 'p', 'i', 'n', 'g', 'N', 'o', 't', 'i', 'f', 'i', 'c', 'a', 't',
      'i', 'o', 'n'], boolText c.mySendTypingNotification),
    (['I', 'g', 'n', 'o', 'r', 'e', 'T', 'y', 'p', 'e', 's'], decimal c.myIgnoreTypes),
    (['F', 'o', 'r', 'e', 'g', 'r', 'o', 'u', 'n', 'd', 'C', 'o', 'l', 'o', 'r'],
      decimal c.defaultForeground),
    (['B', 'a', 'c', 'k', 'g', 'r', 'o', 'u', 'n', 'd', 'C', 'o', 'l', 'o', 'r'],
      decimal c.defaultBackground),
    (['D', 'e', 'f', 'a', 'u', 'l', 't', 'U', 's', 'e', 'r', 'E', 'n', 'c', 'o', 'd', 'i', 'n', 'g'],
      c.defaultUserEncoding)]

/-- `Daemon::SaveConf`, between the loading and the writing. -/
def editSettings (c : Settings) (licqConf : IniFile) : Option IniFile :=
  setAll (setSection licqConf networkSection true).2 (savedSettings c)

/-! ## The statistics -/

def statsSection : List Char := ['s', 't', 'a', 't', 's']

/-- What `Statistics::writeCounters` saves: the counters are those of the events sent, received and
rejected and of the auto responses checked. -/
structure Counters where
  myResetTime : ℕ
  sent : ℤ
  received : ℤ
  rejected : ℤ
  autoResponse : ℤ
  deriving DecidableEq, Repr

def savedCounters (c : Counters) : List Entry :=
  [(['R', 'e', 's', 'e', 't'], decimal c.myResetTime), (['S', 'e', 'n', 't'], decimalInt c.sent),
    (['R', 'e', 'c', 'v'], decimalInt c.received), (['R', 'e', 'j', 'e', 'c', 't'], decimalInt c.rejected),
    (['A', 'R', 'C'], decimalInt c.autoResponse)]

/-- `Statistics::writeCounters`, between the loading and the writing. -/
def editCounters (c : Counters) (licqConf : IniFile) : Option IniFile :=
  setAll (setSection licqConf statsSection true).2 (savedCounters c)

/-! ## The plugins -/

def pluginsSection : List Char := ['p', 'l', 'u', 'g', 'i', 'n', 's']

def numPlugins : List Char := ['N', 'u', 'm', 'P', 'l', 'u', 'g', 'i', 'n', 's']

def numProtoPlugins : List Char :=
  ['N', 'u', 'm', 'P', 'r', 'o', 't', 'o', 'P', 'l', 'u', 'g', 'i', 'n', 's']

def pluginTag : List Char := ['P', 'l', 'u', 'g', 'i', 'n']

def protoPluginTag : List Char := ['P', 'r', 'o', 't', 'o', 'P', 'l', 'u', 'g', 'i', 'n']

/-- "Plugin%d" and "ProtoPlugin%d". -/
def pluginKey (tag : List Char) (i : ℕ) : List Char := tag ++ decimal i

/-- The library names of the loaded plugins. -/
structure LoadedPlugins where
  general : List (List Char)
  protocols : List (List Char)
  deriving DecidableEq, Repr

/-- The loop of `SaveLoadedPlugins` over plugins; the counter is an `unsigned short`. -/
def setPlugins (tag : List Char) : ℕ → List (List Char) → IniFile → Option (ℕ × IniFile)
  | i, [], ini => some (i, ini)
  | i, libraryName :: plugins, ini => do
    let (_, ini) ← set ini (pluginKey tag i) libraryName
    setPlugins tag ((i + 1) % 2 ^ 16) plugins ini

/-- Don't leave old higher numbered plugins in config. -/
def unsetPlugins (tag : List Char) : ℕ → IniFile → ℕ → Option IniFile
  | 0, _, _ => none
  | fuel + 1, ini, i =>
    let r := unset ini (pluginKey tag i)
    if r.1 then unsetPlugins tag fuel r.2 ((i + 1) % 2 ^ 16) else some r.2

/-- One of the two halves of `SaveLoadedPlugins`. -/
def editPluginList (num tag : List Char) (plugins : List (List Char)) (ini : IniFile) :
    Option IniFile := do
  let (_, ini) ← set ini num (decimal plugins.length)
  let (i, ini) ← setPlugins tag 1 plugins ini
  unsetPlugins tag (ini.myConfigData.length + 1) ini i

/-- `CLicq::SaveLoadedPlugins`, between the loading and the writing. -/
def editPlugins (p : LoadedPlugins) (licqConf : IniFile) : Option IniFile := do
  let ini := (setSection licqConf pluginsSection true).2
  let ini ← editPluginList numPlugins pluginTag p.general ini
  editPluginList numProtoPlugins protoPluginTag p.protocols ini

/-- The parameters of plugins, from a number on. -/
def pluginEntries (tag : List Char) (i : ℕ) : List (List Char) → List Entry
  | [] => []
  | libraryName :: plugins => (pluginKey tag i, libraryName) :: pluginEntries tag (i + 1) plugins

def savedPluginList (num tag : List Char) (plugins : List (List Char)) : List Entry :=
  (num, decimal plugins.length) :: pluginEntries tag 1 plugins

/-- The parameters that `SaveLoadedPlugins` sets. -/
def savedPlugins (p : LoadedPlugins) : List Entry :=
  savedPluginList numPlugins pluginTag p.general
    ++ savedPluginList numProtoPlugins protoPluginTag p.protocols

/-! ## The five writers -/

/-- The parts of the daemon that keep a section in licq.conf. -/
inductive Writer
  | owners
  | groups
  | network
  | stats
  | plugins
  deriving DecidableEq, Repr

def Writer.sectionOf : Writer → List Char
  | owners => ownersSection
  | groups => groupsSection
  | network => networkSection
  | stats => statsSection
  | plugins => pluginsSection

/-- What a writer has to save. -/
inductive Save
  | owners (l : OwnerLists)
  | groups (myGroups : GroupMap)
  | network (c : Settings)
  | stats (c : Counters)
  | plugins (p : LoadedPlugins)

namespace Save

def writer : Save → Writer
  | owners _ => .owners
  | groups _ => .groups
  | network _ => .network
  | stats _ => .stats
  | plugins _ => .plugins

/-- The parameters that are set. -/
def entries : Save → List Entry
  | owners l => savedOwners l
  | groups myGroups => savedGroups myGroups
  | network c => savedSettings c
  | stats c => savedCounters c
  | plugins p => savedPlugins p

/-- What is done to the text. -/
def edit : Save → IniFile → Option IniFile
  | owners l => editOwners l
  | groups myGroups => editGroups myGroups
  | network c => editSettings c
  | stats c => editCounters c
  | plugins p => editPlugins p

end Save

/-! ## Setting the parameters -/

variable {ini : IniFile} {name : List Char} {pre sel sel₀ tail : List Line} {hdr : Line}

/-- A section that is selected and written. -/
theorem exists_setAll (h : HasLines ini ini.textLines) {raw : List Char} (hraw : sectionName raw ≠ [])
    (es : List Entry) : ∃ ini₁ ini₂ pre hdr sel tail,
      setAll (setSection ini raw true).2 es = some ini₂ ∧
      Selection ini ini₁ (sectionName raw) pre hdr sel tail ∧
      Delimits ini₂ (sectionName raw) pre hdr (assignAll (written es) sel) tail ∧ Tracked ini ini₂ := by
  obtain ⟨ini₁, pre, hdr, sel, tail, hset, hs⟩ := setSection_selection h hraw
  obtain ⟨ini₂, hall, hd⟩ := hs.delimits.setAll_eq es
  have htrack := setSection_tracked h raw true
  rw [hset] at htrack
  refine ⟨ini₁, ini₂, pre, hdr, sel, tail, ?_, hs, hd, htrack.trans (setAll_tracked hall)⟩
  rw [hset, hall]

/-- **A writer that only sets parameters.** -/
theorem setAll_edited (h : HasLines ini ini.textLines) {raw : List Char} (hraw : sectionName raw ≠ [])
    (es : List Entry) : ∃ ini' pre hdr sel tail sel',
      setAll (setSection ini raw true).2 es = some ini' ∧
      Edited ini ini' (sectionName raw) es pre hdr sel tail sel' := by
  obtain ⟨ini₁, ini₂, pre, hdr, sel, tail, hall, hs, hd, htrack⟩ := exists_setAll h hraw es
  exact ⟨ini₂, pre, hdr, sel, tail, _, hall, hs.edited hd.toHasLines (.assignAll es sel) htrack⟩

/-! ## The owners -/

theorem editOwners_eq (l : OwnerLists) (licqConf : IniFile) : editOwners l licqConf
    = (setAll (setSection licqConf ownersSection true).2 (savedOwners l)).bind fun ini =>
        unsetOwners (ini.myConfigData.length + 1) ini (l.myConfiguredOwners.length + 1) := by
  simp only [editOwners, savedOwners, setAll, setOwners_eq, Option.bind_eq_bind, Option.bind_assoc]

/-- The parameters that the loop over leftover owners looks for. -/
def OwnerLeftover (count : ℕ) (key : List Char) : Prop :=
  ∃ c f, count < c ∧ (f = idField ∨ f = protocolField) ∧ key = ownerKey c f

/-- **Saving the owners edits their section**, when no section behind it has a parameter that the loop
over leftover owners looks for. -/
theorem editOwners_edited (h : HasLines ini ini.textLines) (l : OwnerLists)
    (hnone : NoneBehind ini (sectionName ownersSection) (OwnerLeftover l.myConfiguredOwners.length)) :
    ∃ ini' pre hdr sel tail sel', editOwners l ini = some ini' ∧
      Edited ini ini' (sectionName ownersSection) (savedOwners l) pre hdr sel tail sel' := by
  obtain ⟨ini₁, ini₂, pre, hdr, sel, tail, hall, hs, hd, htrack⟩ :=
    exists_setAll h (by decide : sectionName ownersSection ≠ []) (savedOwners l)
  obtain ⟨keys, hunset, hkeys⟩ :=
    unsetOwners_spec hd.opens (l.myConfiguredOwners.length + 1) hd.opens.length_lt
  have hvalid : ∀ k ∈ keys, k.all keyChar = true := fun k hk => by
    obtain ⟨c, f, -, hf, rfl⟩ := hkeys k hk
    exact ownerKey_valid c hf
  have hopen := hd.opens.unsetAll_eq fun k hk => notMem_of_all_keyChar (hvalid k hk) (by decide)
  have hlines := hopen.toHasLines
  rw [forgetAll_append_lines fun k hk => ?_] at hlines
  · refine ⟨_, pre, hdr, sel, tail, _, ?_, hs.edited hlines
      ((Wrote.assignAll (savedOwners l) sel).forgetAll fun k hk => ?_)
      (htrack.trans (unsetAll_tracked ini₂ keys))⟩
    · rw [editOwners_eq, hall, Option.bind_some, hunset]
    · obtain ⟨c, f, hc, hf, rfl⟩ := hkeys k hk
      exact ⟨eq_notMem_of_all_keyChar (ownerKey_valid c hf), fun e he => savedOwners_ne he hc⟩
  · obtain ⟨c, f, hc, hf, rfl⟩ := hkeys k hk
    exact hs.absent hnone ⟨c, f, hc, hf, rfl⟩ (head_ne_of_all_keyChar (ownerKey_valid c hf))

/-! ## The groups -/

theorem editGroups_eq (myGroups : GroupMap) (licqConf : IniFile) : editGroups myGroups licqConf
    = (setAll (setSection licqConf groupsSection true).2 (savedGroups myGroups)).bind fun ini =>
        unsetGroups (ini.myConfigData.length + 1) ini (1 + myGroups.entries.length) := by
  simp only [editGroups, savedGroups, setAll, saveGroupsFrom_eq, Option.bind_eq_bind, Option.bind_assoc,
    Option.bind_map, Function.comp_def]

theorem not_groupPrefix_savedGroups {myGroups : GroupMap} {e : Entry} (he : e ∈ savedGroups myGroups)
    {j : ℕ} (hj : 1 + myGroups.entries.length ≤ j) : ¬ groupPrefix j <+: e.1 := by
  rcases List.mem_cons.mp he with rfl | he
  · exact not_groupPrefix_numOfGroups j
  · obtain ⟨i, group, hi, he⟩ := mem_groupsEntries.mp he
    have hlt : i < myGroups.entries.length := (List.getElem?_eq_some_iff.mp hi).1
    intro hprefix
    have := groupPrefix_unique hprefix (groupPrefix_of_mem he)
    omega

/-- **Saving the groups edits their section.** -/
theorem editGroups_edited (h : HasLines ini ini.textLines) (myGroups : GroupMap) :
    ∃ ini' pre hdr sel tail sel', editGroups myGroups ini = some ini' ∧
      Edited ini ini' (sectionName groupsSection) (savedGroups myGroups) pre hdr sel tail sel' := by
  obtain ⟨ini₁, ini₂, pre, hdr, sel, tail, hall, hs, hd, htrack⟩ :=
    exists_setAll h (by decide : sectionName groupsSection ≠ []) (savedGroups myGroups)
  obtain ⟨ini₃, sel', hunset, hd₃, htrack', htrim⟩ :=
    unsetGroups_spec hd (1 + myGroups.entries.length) hd.length_lt
  refine ⟨ini₃, pre, hdr, sel, tail, sel', ?_, hs.edited hd₃.toHasLines ⟨fun l hl => ?_, fun e he => ?_⟩
    (htrack.trans htrack')⟩
  · rw [editGroups_eq, hall, Option.bind_some, hunset]
  · exact mem_assignAll (htrim.subset hl)
  · obtain ⟨hmem, hvalid⟩ := mem_of_mem_kept he
    rw [htrim.values e.1 (eq_notMem_of_all_keyChar hvalid)
      fun j hj => not_groupPrefix_savedGroups hmem hj, lookup_kept he]

/-! ## The plugins -/

variable {num tag : List Char}

theorem pluginKey_all_keyChar (htag : tag.all keyChar = true) (i : ℕ) :
    (pluginKey tag i).all keyChar = true := by
  rw [pluginKey, List.all_append, htag, decimal_all_keyChar]
  rfl

theorem pluginKey_inj {i j : ℕ} (h : pluginKey tag i = pluginKey tag j) : i = j :=
  decimal_injective (List.append_cancel_left h)

theorem mem_pluginEntries {i : ℕ} {plugins : List (List Char)} {e : Entry}
    (h : e ∈ pluginEntries tag i plugins) : ∃ c < i + plugins.length, e.1 = pluginKey tag c := by
  induction plugins generalizing i with
  | nil => exact absurd h List.not_mem_nil
  | cons p plugins ih =>
    rw [List.length_cons]
    rcases List.mem_cons.mp h with rfl | h
    · exact ⟨i, by omega, rfl⟩
    · obtain ⟨c, hc, heq⟩ := ih h
      exact ⟨c, by omega, heq⟩

/-- The counter does not wrap while there are fewer than 65535 plugins. -/
theorem setPlugins_eq {i : ℕ} {plugins : List (List Char)} (hfits : i + plugins.length < 2 ^ 16)
    (ini : IniFile) : setPlugins tag i plugins ini
      = (setAll ini (pluginEntries tag i plugins)).map fun ini => (i + plugins.length, ini) := by
  induction plugins generalizing i ini with
  | nil => rfl
  | cons p plugins ih =>
    rw [List.length_cons] at hfits
    rw [setPlugins, pluginEntries, setAll, Option.map_bind, Nat.mod_eq_of_lt (by omega)]
    have hnext : ∀ ini, setPlugins tag (i + 1) plugins ini
        = (setAll ini (pluginEntries tag (i + 1) plugins)).map fun ini =>
            (i + (p :: plugins).length, ini) := by
      intro ini
      rw [ih (by omega), List.length_cons, Nat.add_right_comm, Nat.add_assoc]
    simp only [hnext]
    rfl

/-- **The loop over leftover plugins ends before its counter wraps**, when a number is free, and removes
higher numbers only. -/
theorem unsetPlugins_spec (h : Delimits ini name pre hdr sel tail) (htag : tag.all keyChar = true)
    {i j fuel : ℕ} (hij : i ≤ j) (hj : j < 2 ^ 16)
    (htail : ∀ c, i ≤ c → ∀ l ∈ tail, ¬ HasKey (pluginKey tag c) l)
    (hfree : ∀ l ∈ sel, ¬ HasKey (pluginKey tag j) l) (hfuel : sel.length < fuel) :
    ∃ ini' keys, unsetPlugins tag fuel ini i = some ini' ∧
      Delimits ini' name pre hdr (forgetAll keys sel) tail ∧ Tracked ini ini' ∧
      ∀ k ∈ keys, ∃ c, i ≤ c ∧ k = pluginKey tag c := by
  induction fuel generalizing ini sel i with
  | zero => exact absurd hfuel (Nat.not_lt_zero _)
  | succ fuel ih =>
    have hnl : '\n' ∉ pluginKey tag i :=
      notMem_of_all_keyChar (pluginKey_all_keyChar htag i) (by decide)
    obtain ⟨ini₁, hunset, hd⟩ := h.unset_eq hnl (htail i (le_refl i))
    have htrack := unset_tracked ini (pluginKey tag i)
    rw [hunset] at htrack
    rw [unsetPlugins, hunset]
    by_cases hfound : ∃ l ∈ sel, HasKey (pluginKey tag i) l
    · have hlt : i < j := by
        refine lt_of_le_of_ne hij fun heq => ?_
        obtain ⟨l, hl, hhas⟩ := hfound
        exact hfree l hl (heq ▸ hhas)
      simp only [decide_eq_true hfound, if_true]
      rw [Nat.mod_eq_of_lt (by omega)]
      have hshorter := length_forget_lt hfound
      obtain ⟨ini', keys, hrun, hd', htrack', hkeys⟩ := ih hd hlt
        (fun c hc => htail c (by omega)) (fun l hl => hfree l (List.mem_of_mem_eraseP hl)) (by omega)
      refine ⟨ini', pluginKey tag i :: keys, hrun, hd', htrack.trans htrack', fun k hk => ?_⟩
      rcases List.mem_cons.mp hk with rfl | hk
      · exact ⟨i, le_refl i, rfl⟩
      · obtain ⟨c, hc, rfl⟩ := hkeys k hk
        exact ⟨c, by omega, rfl⟩
    · simp only [decide_eq_false hfound, Bool.false_eq_true, if_false]
      exact ⟨ini₁, [pluginKey tag i], rfl, hd, htrack, fun k hk =>
        ⟨i, le_refl i, List.mem_singleton.mp hk⟩⟩

/-- A number behind the plugins is free in their section, and small enough for the counter. -/
def FreeNumber (ini : IniFile) (tag : List Char) (plugins : List (List Char)) : Prop :=
  ∃ j, plugins.length < j ∧ j < 2 ^ 16 ∧
    lookup (pluginKey tag j) (ini.sectionLines (sectionName pluginsSection)) = none

/-- The parameters that the loops over leftover plugins look for. -/
def PluginLeftover (p : LoadedPlugins) (key : List Char) : Prop :=
  (∃ c, p.general.length < c ∧ key = pluginKey pluginTag c) ∨
    ∃ c, p.protocols.length < c ∧ key = pluginKey protoPluginTag c

/-- **One half of the list of plugins.** -/
theorem editPluginList_spec (h : Delimits ini name pre hdr sel tail) {es : List Entry}
    (hwrote : Wrote es sel₀ sel) (htag : tag.all keyChar = true)
    (hne : ∀ c, num ≠ pluginKey tag c) (hes : ∀ e ∈ es, ∀ c, e.1 ≠ pluginKey tag c)
    {plugins : List (List Char)} {j : ℕ} (hlt : plugins.length < j) (hj : j < 2 ^ 16)
    (hfree : ∀ l ∈ sel₀, ¬ HasKey (pluginKey tag j) l)
    (htail : ∀ c, plugins.length < c → ∀ l ∈ tail, ¬ HasKey (pluginKey tag c) l) :
    ∃ ini' sel', editPluginList num tag plugins ini = some ini' ∧
      Delimits ini' name pre hdr sel' tail ∧ Tracked ini ini' ∧
      Wrote (es ++ savedPluginList num tag plugins) sel₀ sel' := by
  have hkey : ∀ c, '=' ∉ pluginKey tag c := fun c =>
    eq_notMem_of_all_keyChar (pluginKey_all_keyChar htag c)
  have hsaved : ∀ e ∈ es ++ savedPluginList num tag plugins, ∀ c, plugins.length < c →
      e.1 ≠ pluginKey tag c := by
    intro e he c hc
    rcases List.mem_append.mp he with he | he
    · exact hes e he c
    · rcases List.mem_cons.mp he with rfl | he
      · exact hne c
      · obtain ⟨d, hd, heq⟩ := mem_pluginEntries he
        exact fun hc' => absurd (pluginKey_inj (heq.symm.trans hc')) (by omega)
  obtain ⟨ini₂, hall, hd₂⟩ := h.setAll_eq (savedPluginList num tag plugins)
  have hwrote₂ := hwrote.append (savedPluginList num tag plugins)
  obtain ⟨ini₃, keys, hunset, hd₃, htrack, hkeys⟩ := unsetPlugins_spec hd₂ htag
    (i := 1 + plugins.length) (by omega) hj (fun c hc => htail c (by omega))
    (hwrote₂.absent (hkey j) hfree fun e he => hsaved e he j hlt) hd₂.length_lt
  refine ⟨ini₃, _, ?_, hd₃, (setAll_tracked hall).trans htrack, hwrote₂.forgetAll fun k hk => ?_⟩
  · rw [savedPluginList, setAll] at hall
    simp only [editPluginList, setPlugins_eq (show 1 + plugins.length < 2 ^ 16 by omega),
      Option.bind_eq_bind, Option.bind_map, Function.comp_def]
    rw [← Option.bind_assoc, hall, Option.bind_some, hunset]
  · obtain ⟨c, hc, rfl⟩ := hkeys k hk
    exact ⟨hkey c, fun e he => hsaved e he c (by omega)⟩

theorem pluginTag_valid : pluginTag.all keyChar = true := by decide

theorem protoPluginTag_valid : protoPluginTag.all keyChar = true := by decide

theorem numPlugins_ne (i : ℕ) : numPlugins ≠ pluginKey pluginTag i := fun h => by
  have hhead : some 'N' = some 'P' := congrArg List.head? h
  exact absurd hhead (by decide)

theorem numProtoPlugins_ne (i : ℕ) : numProtoPlugins ≠ pluginKey protoPluginTag i := fun h => by
  have hhead : some 'N' = some 'P' := congrArg List.head? h
  exact absurd hhead (by decide)

/-- A parameter of the general plugins is none of the protocols. -/
theorem savedGeneral_ne {plugins : List (List Char)} {e : Entry}
    (he : e ∈ savedPluginList numPlugins pluginTag plugins) (c : ℕ) :
    e.1 ≠ pluginKey protoPluginTag c := by
  intro h
  rcases List.mem_cons.mp he with rfl | he
  · have hhead : numPlugins.head? = some 'P' := congrArg List.head? h
    exact absurd hhead (by decide)
  · obtain ⟨d, -, heq⟩ := mem_pluginEntries he
    have hsecond : some 'l' = some 'r' := congrArg (·[1]?) (heq.symm.trans h)
    exact absurd hsecond (by decide)

/-- **Saving the plugins edits their section**, when no section behind it has a parameter that the loops
over leftover plugins look for, and a number is free in each list. -/
theorem editPlugins_edited (h : HasLines ini ini.textLines) (p : LoadedPlugins)
    (hnone : NoneBehind ini (sectionName pluginsSection) (PluginLeftover p))
    (hgeneral : FreeNumber ini pluginTag p.general)
    (hprotocols : FreeNumber ini protoPluginTag p.protocols) :
    ∃ ini' pre hdr sel tail sel', editPlugins p ini = some ini' ∧
      Edited ini ini' (sectionName pluginsSection) (savedPlugins p) pre hdr sel tail sel' := by
  obtain ⟨ini₁, pre, hdr, sel, tail, hset, hs⟩ :=
    setSection_selection h (by decide : sectionName pluginsSection ≠ [])
  have htrack := setSection_tracked h pluginsSection true
  rw [hset] at htrack
  have htail : ∀ {key}, PluginLeftover p key → key.all keyChar = true → ∀ l ∈ tail, ¬ HasKey key l :=
    fun hkey hvalid => hs.absent hnone hkey (head_ne_of_all_keyChar hvalid)
  have hfree : ∀ {tag j}, lookup (pluginKey tag j) (ini.sectionLines (sectionName pluginsSection)) = none →
      ∀ l ∈ sel, ¬ HasKey (pluginKey tag j) l := by
    intro tag j hnone
    rw [← hs.selected, lookup_nonblank] at hnone
    exact lookup_eq_none_iff.mp hnone
  obtain ⟨i, hi, hi', hnone₁⟩ := hgeneral
  obtain ⟨j, hj, hj', hnone₂⟩ := hprotocols
  have hstart : Wrote [] sel sel := ⟨fun l hl => .inl hl, nofun⟩
  obtain ⟨ini₂, sel₂, hrun₂, hd₂, htrack₂, hwrote₂⟩ :=
    editPluginList_spec hs.delimits hstart pluginTag_valid numPlugins_ne (nofun)
      hi hi' (hfree hnone₁)
      fun c hc => htail (.inl ⟨c, hc, rfl⟩) (pluginKey_all_keyChar pluginTag_valid c)
  obtain ⟨ini₃, sel₃, hrun₃, hd₃, htrack₃, hwrote₃⟩ :=
    editPluginList_spec hd₂ hwrote₂ protoPluginTag_valid numProtoPlugins_ne
      (fun e he c => savedGeneral_ne (by simpa using he) c) hj hj' (hfree hnone₂)
      fun c hc => htail (.inr ⟨c, hc, rfl⟩) (pluginKey_all_keyChar protoPluginTag_valid c)
  rw [List.nil_append] at hwrote₃
  refine ⟨ini₃, pre, hdr, sel, tail, sel₃, ?_, hs.edited hd₃.toHasLines hwrote₃
    (htrack.trans (htrack₂.trans htrack₃))⟩
  simp only [editPlugins, hset, Option.bind_eq_bind, hrun₂, Option.bind_some, hrun₃]

/-! ## Every writer -/

namespace Save

/-- What a save asks of the text: the loops that remove leftover parameters find none behind the section,
and come to an end. -/
def Fits (ini : IniFile) : Save → Prop
  | owners l =>
    NoneBehind ini (sectionName ownersSection) (OwnerLeftover l.myConfiguredOwners.length)
  | plugins p => NoneBehind ini (sectionName pluginsSection) (PluginLeftover p) ∧
      FreeNumber ini pluginTag p.general ∧ FreeNumber ini protoPluginTag p.protocols
  | groups _ | network _ | stats _ => True

/-- **What a save does to the text.** -/
theorem edit_spec (save : Save) (h : HasLines ini ini.textLines) (hfits : save.Fits ini) :
    ∃ ini' pre hdr sel tail sel', save.edit ini = some ini' ∧
      Edited ini ini' (sectionName save.writer.sectionOf) save.entries pre hdr sel tail sel' := by
  cases save with
  | owners l => exact editOwners_edited h l hfits
  | groups myGroups => exact editGroups_edited h myGroups
  | network c => exact setAll_edited h (by decide : sectionName networkSection ≠ []) (savedSettings c)
  | stats c => exact setAll_edited h (by decide : sectionName statsSection ≠ []) (savedCounters c)
  | plugins p => exact editPlugins_edited h p hfits.1 hfits.2.1 hfits.2.2

end Save

/-- The writers have different sections. -/
theorem apart {w w' : Writer} (h : w ≠ w') :
    Edited.Apart (sectionName w.sectionOf) (sectionName w'.sectionOf) := by
  intro l hl hl'
  rcases List.prefix_or_prefix_of_prefix hl hl' with hp | hp
  · revert h hp
    cases w <;> cases w' <;> decide
  · revert h hp
    cases w <;> cases w' <;> decide

theorem nul_notMem_sectionOf (w : Writer) : Char.ofNat 0 ∉ sectionName w.sectionOf :=
  nul_notMem_sectionName _

end LicqConf

end Licq
