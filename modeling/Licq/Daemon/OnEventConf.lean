import Licq.Daemon.FilterConf
import Licq.IniFile.Whole

/-!
# Daemon/OnEventConf — the on-event settings of users and their file

`OnEventData::save` writes the settings of a user to a section of onevent.conf that is named by the
ids of the user, and `OnEventManager::initialize` reads all of these sections.  The ids are also
parameters in the section, as its name has only the characters that are allowed there; but two
users can have the same section.

The **main result** `keepsSettings_iff` says which sets of users keep their settings.
-/

namespace Licq

open Text IniFile List

/-! ## The sections of a file -/

/-- The loop of `getSections` over the rest of the text.  The character after a match is the
bracket, so that the next search may start at it. -/
def IniFile.sectionsIn (namePrefix : List Char) : List Char → List (List Char)
  | [] => []
  | c :: data =>
    let rest := sectionsIn namePrefix data
    if '\n' :: '[' :: namePrefix <+: c :: data then
      -- Find end of section name and make sure it ends on the same line
      match find [']'] (data.drop 1), find ['\n'] (data.drop 1) with
      | some secend, some nl => if nl < secend then rest else (data.drop 1).take secend :: rest
      | _, _ => rest
    else rest

def IniFile.getSections (ini : IniFile) (namePrefix : List Char) : List (List Char) :=
  sectionsIn namePrefix ini.myConfigData

namespace OnEventConf

/-! ## The settings -/

inductive OnEventType where
  | message
  | url
  | chat
  | file
  | online
  | sysMsg
  | msgSent
  deriving DecidableEq

namespace OnEventType

def all : List OnEventType := [message, url, chat, file, online, sysMsg, msgSent]

def key : OnEventType → List Char
  | message => ['M', 'e', 's', 's', 'a', 'g', 'e']
  | url => ['U', 'r', 'l']
  | chat => ['C', 'h', 'a', 't']
  | file => ['F', 'i', 'l', 'e']
  | online => ['O', 'n', 'l', 'i', 'n', 'e', 'N', 'o', 't', 'i', 'f', 'y']
  | sysMsg => ['S', 'y', 's', 'M', 's', 'g']
  | msgSent => ['M', 's', 'g', 'S', 'e', 'n', 't']

/-- The sound of the event, in the directory of sounds. -/
def sound : OnEventType → List Char
  | message => ['M', 'e', 's', 's', 'a', 'g', 'e', '.', 'w', 'a', 'v']
  | url => ['U', 'R', 'L', '.', 'w', 'a', 'v']
  | chat => ['C', 'h', 'a', 't', '.', 'w', 'a', 'v']
  | file => ['F', 'i', 'l', 'e', '.', 'w', 'a', 'v']
  | online => ['O', 'n', 'l', 'i', 'n', 'e', '.', 'w', 'a', 'v']
  | sysMsg => ['S', 'y', 's', 't', 'e', 'm', '.', 'w', 'a', 'v']
  | msgSent => ['M', 'e', 's', 's', 'a', 'g', 'e', '.', 'w', 'a', 'v']

theorem mem_all (event : OnEventType) : event ∈ all := by cases event <;> decide

end OnEventType

def protocolKey : List Char := ['P', 'r', 'o', 't', 'o', 'c', 'o', 'l']

def ownerKey : List Char := ['O', 'w', 'n', 'e', 'r']

def userKey : List Char := ['U', 's', 'e', 'r']

def enableKey : List Char := ['E', 'n', 'a', 'b', 'l', 'e']

def alwaysOnlineNotifyKey : List Char :=
  ['A', 'l', 'w', 'a', 'y', 's', 'O', 'n', 'l', 'i', 'n', 'e', 'N', 'o', 't', 'i', 'f', 'y']

def commandKey : List Char := ['C', 'o', 'm', 'm', 'a', 'n', 'd']

/-- `OnEventData::Default` -/
def Default : List Char := ['d', 'e', 'f', 'a', 'u', 'l', 't']

def enabledDefault : ℤ := -1

def enabledOnline : ℤ := 1

@[ext]
structure OnEventSettings where
  enabled : ℤ
  alwaysOnlineNotify : ℤ
  command : List Char
  parameters : OnEventType → List Char

def loadDefaults : OnEventSettings := ⟨enabledDefault, -1, Default, fun _ => Default⟩

/-- `OnEventData::load` from the parameters of the selected section. -/
def load (isGlobal : Bool) (soundDir : List Char) (conf : ValueMap) : OnEventSettings where
  enabled := ((conf enableKey).map atoi).getD (if isGlobal then enabledOnline else enabledDefault)
  alwaysOnlineNotify := ((conf alwaysOnlineNotifyKey).map atoi).getD (if isGlobal then 1 else -1)
  command := (conf commandKey).getD (if isGlobal then ['p', 'l', 'a', 'y'] else Default)
  parameters event :=
    (conf event.key).getD (if isGlobal then soundDir ++ event.sound else Default)

/-! ## The data of a user, a group or all -/

structure OnEventData where
  iniSection : List Char
  /-- None is an invalid id. -/
  userId : Option UserId
  settings : OnEventSettings
  hasChanged : Bool

def AllDefault (settings : OnEventSettings) : Prop :=
  settings.enabled = enabledDefault ∧ settings.alwaysOnlineNotify = -1 ∧
    settings.command = Default ∧ ∀ event ∈ OnEventType.all, settings.parameters event = Default

instance (settings : OnEventSettings) : Decidable (AllDefault settings) :=
  inferInstanceAs (Decidable (_ ∧ _ ∧ _ ∧ _))

def idEntries (userId : UserId) : List Entry :=
  [(protocolKey, protocolIdToString userId.protocolId),
    (ownerKey, userId.ownerId.accountId), (userKey, userId.accountId)]

def settingsEntries (settings : OnEventSettings) : List Entry :=
  [(enableKey, decimalInt settings.enabled),
      (alwaysOnlineNotifyKey, decimalInt settings.alwaysOnlineNotify),
      (commandKey, settings.command)] ++
    OnEventType.all.map fun event => (event.key, settings.parameters event)

namespace OnEventData

def save (data : OnEventData) (conf : IniFile) : Option IniFile :=
  if AllDefault data.settings then
    -- Everything is set to default, no point in having this section in file
    some (removeSection conf data.iniSection)
  else
    setAll (setSection conf data.iniSection true).2
      ((data.userId.toList.flatMap idEntries) ++ settingsEntries data.settings)

/-- `OnEventManager::unlock`: the new content of the file. -/
def unlock (data : OnEventData) (save : Bool) (disk : Option (List Char)) :
    Option (Option (List Char)) := do
  if save ∧ data.hasChanged then
    let conf := (ConfFile.loadFile (ConfFile.opened disk)).2
    let ini ← data.save conf.ini
    some (ConfFile.writeFile { conf with ini := ini }).2.disk
  else some disk

end OnEventData

/-- The section that `lockUser` gives to a user. -/
def userSection (userId : UserId) : List Char :=
  ['U', 's', 'e', 'r', '.'] ++ userId.ownerId.toString ++ ['.'] ++ userId.accountId

/-! ## The manager -/

structure OnEventManager where
  globalData : OnEventSettings
  groupData : ℤ → Option OnEventData
  userData : UserId → Option OnEventData

def globalSection : List Char := ['g', 'l', 'o', 'b', 'a', 'l']

def groupPrefix : List Char := ['G', 'r', 'o', 'u', 'p', '.']

def userPrefix : List Char := ['U', 's', 'e', 'r', '.']

def loadGroups : List (List Char) → IniFile × (ℤ → Option OnEventData) →
    IniFile × (ℤ → Option OnEventData)
  | [], state => state
  | name :: names, (conf, groupData) =>
    let conf := (setSection conf name true).2
    let groupId := atoi (name.drop 6)
    if groupId ≤ 0 then loadGroups names (conf, groupData)
    else loadGroups names (conf, Function.update groupData groupId
      (some ⟨name, none, load false [] (get conf), false⟩))

/-- The user of the selected section: the id in the header is not reliable, so it is read from the
parameters. -/
def readUser (plugins : List ProtocolPlugin) (conf : ValueMap) :
    Option (UserId × OnEventSettings) :=
  let protocolId := protocolIdFromString plugins ((conf protocolKey).getD [])
  let ownerIdStr := (conf ownerKey).getD []
  let userIdStr := (conf userKey).getD []
  if protocolId = 0 ∨ ownerIdStr = [] ∨ userIdStr = [] then none
  else some (UserId.user (UserId.owner protocolId ownerIdStr) userIdStr, load false [] conf)

def loadUsers (plugins : List ProtocolPlugin) : List (List Char) →
    IniFile × (UserId → Option OnEventData) → IniFile × (UserId → Option OnEventData)
  | [], state => state
  | name :: names, (conf, userData) =>
    let conf := (setSection conf name true).2
    match readUser plugins (get conf) with
    | none => loadUsers plugins names (conf, userData)
    | some (userId, settings) => loadUsers plugins names
        (conf, Function.update userData userId (some ⟨name, some userId, settings, false⟩))

namespace OnEventManager

/-- `OnEventManager::initialize`.  The sections of users come after those of groups, which are gone
through twice. -/
def start (plugins : List ProtocolPlugin) (shareDir : List Char) (disk : Option (List Char)) :
    OnEventManager :=
  let conf := (ConfFile.loadFile (ConfFile.opened disk)).2.ini
  let conf := (setSection conf globalSection true).2
  let soundDir := shareDir ++ ['s', 'o', 'u', 'n', 'd', 's', '/', 'i', 'c', 'q', '/']
  let globalData := load true soundDir (get conf)
  let sections := getSections conf groupPrefix
  let (conf, groupData) := loadGroups sections (conf, fun _ => none)
  let sections := sections ++ getSections conf userPrefix
  ⟨globalData, groupData, (loadUsers plugins sections (conf, fun _ => none)).2⟩

/-- The settings that `lockUser` finds for a user, or creates. -/
def lockUser (m : OnEventManager) (userId : UserId) : OnEventSettings :=
  ((m.userData userId).map OnEventData.settings).getD loadDefaults

end OnEventManager

/-! ## What is claimed of them -/

/-- A user of a protocol that is loaded, with its settings. -/
structure UserSettings (plugins : List ProtocolPlugin) where
  userId : UserId
  settings : OnEventSettings
  protocol_ne : userId.protocolId ≠ 0
  recognised : Filter.Recognised plugins userId.protocolId
  owner_ne : userId.ownerAccountId ≠ []
  account_ne : userId.accountId ≠ []
  /-- They are numbers of the type `int`. -/
  enabled_int : -2 ^ 31 ≤ settings.enabled ∧ settings.enabled < 2 ^ 31
  notify_int : -2 ^ 31 ≤ settings.alwaysOnlineNotify ∧ settings.alwaysOnlineNotify < 2 ^ 31

variable {plugins : List ProtocolPlugin}

/-- The data of the user, after a change. -/
def UserSettings.data (u : UserSettings plugins) : OnEventData :=
  ⟨userSection u.userId, some u.userId, u.settings, true⟩

/-- The file after all have been saved, one after the other. -/
def saveUsers : List (UserSettings plugins) → Option (List Char) → Option (Option (List Char))
  | [], disk => some disk
  | u :: users, disk => (u.data.unlock true disk).bind fun disk => saveUsers users disk

/-- Saving the users and starting again restores the settings of each. -/
def Restores (shareDir : List Char) (disk : Option (List Char))
    (users : List (UserSettings plugins)) : Prop :=
  ∃ disk', saveUsers users disk = some disk' ∧
    ∀ u ∈ users, (OnEventManager.start plugins shareDir disk').lockUser u.userId = u.settings

/-- The users have the same section: `setSection` looks for the same name. -/
def SharesSection (u v : UserSettings plugins) : Prop :=
  sectionName u.data.iniSection = sectionName v.data.iniSection

instance (u v : UserSettings plugins) : Decidable (SharesSection u v) :=
  inferInstanceAs (Decidable (_ = _))

/-- **Each user's settings are restored, and no two users share a section.** -/
structure KeepsSettings (shareDir : List Char) (disk : Option (List Char))
    (users : List (UserSettings plugins)) : Prop where
  restores : Restores shareDir disk users
  apart : users.Pairwise fun u v => ¬ SharesSection u v

/-- What is left of the ids of a user in a section name: protocol, owner and account. -/
def UserSettings.keptId (u : UserSettings plugins) : List Char :=
  (protocolIdToString u.userId.protocolId ++ u.userId.ownerAccountId
    ++ '.' :: u.userId.accountId).filter sectionChar

/-- No text of the user has a null character. -/
structure UserSettings.Clean (u : UserSettings plugins) : Prop where
  owner : Char.ofNat 0 ∉ u.userId.ownerAccountId
  account : Char.ofNat 0 ∉ u.userId.accountId
  command : Char.ofNat 0 ∉ u.settings.command
  parameters : ∀ event, Char.ofNat 0 ∉ u.settings.parameters event

/-- The text of a file as it is loaded. -/
def confOf (disk : Option (List Char)) : IniFile :=
  (ConfFile.loadFile (ConfFile.opened disk)).2.ini

/-- The values of parameters in the lines of a section. -/
def valuesIn (body : List Line) : ValueMap := fun key => (lookup key body).map unescape

/-- No section of the text has the settings of a user. -/
def NoUsers (plugins : List ProtocolPlugin) (ini : IniFile) : Prop :=
  ∀ s ∈ (Conf.ofLines ini.textLines).sections, readUser plugins (valuesIn s.body) = none

instance (plugins : List ProtocolPlugin) (ini : IniFile) : Decidable (NoUsers plugins ini) :=
  inferInstanceAs (Decidable (∀ s ∈ _, _ = none))

/-! ## The sections that are listed -/

section Listed

variable {namePrefix name : List Char} {ini : IniFile}

theorem mem_sectionsIn_append {t : List Char} (s : List Char) (h : name ∈ sectionsIn namePrefix t) :
    name ∈ sectionsIn namePrefix (s ++ t) := by
  induction s with
  | nil => exact h
  | cons c s ih =>
    rw [cons_append, sectionsIn]
    split_ifs
    · split
      · split_ifs
        · exact ih
        · exact mem_cons_of_mem _ ih
      · exact ih
    · exact ih

theorem mem_sectionsIn_header {t rest : List Char} (hname : ']' ∉ name)
    (hnl : '\n' ∉ name ++ ']' :: t) (hstart : namePrefix <+: name) :
    name ∈ sectionsIn namePrefix ('\n' :: '[' :: (name ++ ']' :: t ++ '\n' :: rest)) := by
  have hmatch :
      '\n' :: '[' :: namePrefix <+: '\n' :: '[' :: (name ++ ']' :: t ++ '\n' :: rest) := by
    obtain ⟨x, rfl⟩ := hstart
    exact ⟨x ++ ']' :: t ++ '\n' :: rest, by simp⟩
  have hsecend : find [']'] (name ++ ']' :: t ++ '\n' :: rest) = some name.length := by
    rw [append_assoc, cons_append, find_nl hname]
  have hline := find_nl hnl rest
  rw [sectionsIn, if_pos hmatch]
  simp only [drop_succ_cons, drop_zero, hsecend, hline]
  rw [if_neg (by simp), append_assoc, take_left]
  exact mem_cons_self

/-- **A section of the file is listed.** -/
theorem mem_getSections {ls : List Line} (h : HasLines ini ls) {l : Line} (hl : l ∈ ls)
    (hnamed : header name <+: l) (hname : ']' ∉ name) (hstart : namePrefix <+: name) :
    name ∈ getSections ini namePrefix := by
  obtain ⟨hterm, hdata⟩ := h
  rw [getSections, hdata]
  clear hdata
  induction ls with
  | nil => exact nomatch hl
  | cons x ls ih =>
    rw [terminated_cons] at hterm
    rw [unlines_cons]
    rcases mem_cons.mp hl with rfl | hl
    · obtain ⟨t, rfl⟩ := hnamed
      have hnl := hterm.1
      simp only [header, cons_append, append_assoc, nil_append, mem_cons,
        not_or] at hnl ⊢
      have hmem : name ∈ sectionsIn namePrefix
          ('\n' :: '[' :: (name ++ ']' :: t ++ '\n' :: unlines '\n' ls)) :=
        mem_sectionsIn_header hname hnl.2 hstart
      rwa [append_assoc, cons_append] at hmem
    · exact mem_sectionsIn_append ('\n' :: x) (ih hl hterm.2)

end Listed

/-! ## Selecting sections one after the other -/

section Selecting

variable {ini ini₀ : IniFile}

theorem apart_of_ne {name other : List Char} (h : name ≠ other) (hname : ']' ∉ name)
    (hother : ']' ∉ other) : Edited.Apart name other := fun _ hl hl' =>
  h (header_unique hname hother hl hl')

/-- The lines that names select are those of another text. -/
structure SameLines (ini₀ ini : IniFile) : Prop where
  text : HasLines ini ini.textLines
  lines : ∀ raw, ini.sectionLines (sectionName raw) = ini₀.sectionLines (sectionName raw)

/-- **Selecting a section changes no lines**, also when it adds the section. -/
theorem SameLines.setSection (h : SameLines ini₀ ini) (raw : List Char) :
    SameLines ini₀ (setSection ini raw true).2 := by
  by_cases hraw : sectionName raw = []
  · have hset : IniFile.setSection ini raw true = (false, { ini with mySection := none }) := by
      rw [IniFile.setSection]
      simp only [if_pos hraw]
    rw [hset]
    exact ⟨⟨h.text.terminated, h.text.data⟩, h.lines⟩
  · obtain ⟨ini', pre, hdr, sel, tail, hset, hs⟩ := setSection_selection h.text hraw
    have hedit := hs.edited hs.delimits.toHasLines (Wrote.assignAll [] sel)
      (by have := setSection_tracked h.text raw true; rwa [hset] at this)
    rw [hset]
    refine ⟨hedit.lines.textLines_eq.symm ▸ hedit.lines, fun other => ?_⟩
    rw [← h.lines]
    by_cases hne : sectionName raw = sectionName other
    · rw [← hne, hedit.sectionLines_self]
      exact hs.selected
    · exact hedit.sectionLines_other (apart_of_ne hne (bracket_notMem_sectionName _)
        (bracket_notMem_sectionName _))

/-- A section that is selected is read from its lines. -/
theorem SameLines.get_eq (h : SameLines ini₀ ini) {raw key : List Char}
    (hraw : sectionName raw ≠ []) (hkey : key.all keyChar = true) :
    get (IniFile.setSection ini raw true).2 key =
      valuesIn (ini₀.sectionLines (sectionName raw)) key := by
  rw [get_setSection h.text hraw (notMem_of_all_keyChar hkey (by decide))
    (head_ne_of_all_keyChar hkey), h.lines, valuesIn]

end Selecting

/-! ## What is read -/

section Reading

variable {ini ini₀ : IniFile}

def onEventKeys : List (List Char) :=
  [protocolKey, ownerKey, userKey, enableKey, alwaysOnlineNotifyKey, commandKey] ++
    OnEventType.all.map OnEventType.key

theorem onEventKeys_valid : ∀ key ∈ onEventKeys, key.all keyChar = true := by decide

theorem eventKey_mem (event : OnEventType) : event.key ∈ onEventKeys :=
  mem_append_right _ (mem_map_of_mem event.mem_all)

theorem readUser_congr {v w : ValueMap} (h : ∀ key ∈ onEventKeys, v key = w key) :
    readUser plugins v = readUser plugins w := by
  have hload : load false [] v = load false [] w := by
    simp only [load, h enableKey (by decide), h alwaysOnlineNotifyKey (by decide),
      h commandKey (by decide), h _ (eventKey_mem _)]
  rw [readUser, readUser, hload, h protocolKey (by decide), h ownerKey (by decide),
    h userKey (by decide)]

theorem readUser_none : readUser plugins (fun _ => none) = none := if_pos (.inr (.inl rfl))

/-- What is read under a name. -/
def readAt (plugins : List ProtocolPlugin) (ini : IniFile) (name : List Char) :
    Option (UserId × OnEventSettings) :=
  readUser plugins (get (setSection ini name true).2)

theorem readAt_of_eq_nil {name : List Char} (hname : sectionName name = []) :
    readAt plugins ini name = none := by
  rw [readAt, setSection]
  simp only [if_pos hname]
  exact readUser_none

theorem SameLines.readAt_eq (h : SameLines ini₀ ini) {name : List Char}
    (hname : sectionName name ≠ []) :
    readAt plugins ini name = readUser plugins (valuesIn (ini₀.sectionLines (sectionName name))) :=
  readUser_congr fun key hkey => h.get_eq hname (onEventKeys_valid key hkey)

theorem SameLines.refl (h : HasLines ini ini.textLines) : SameLines ini ini := ⟨h, fun _ => rfl⟩

theorem SameLines.readAt_congr (h : SameLines ini₀ ini) (h₀ : HasLines ini₀ ini₀.textLines)
    (name : List Char) : readAt plugins ini name = readAt plugins ini₀ name := by
  by_cases hname : sectionName name = []
  · rw [readAt_of_eq_nil hname, readAt_of_eq_nil hname]
  · rw [h.readAt_eq hname, (SameLines.refl h₀).readAt_eq hname]

/-- What is read is in the lines of a section. -/
theorem exists_section {name : List Char} {r : UserId × OnEventSettings}
    (h₀ : HasLines ini₀ ini₀.textLines) (h : readAt plugins ini₀ name = some r) :
    ∃ s ∈ (Conf.ofLines ini₀.textLines).sections, s.Named (sectionName name) ∧
      readUser plugins (valuesIn s.body) = some r := by
  have hname : sectionName name ≠ [] := fun hnil => by
    rw [readAt_of_eq_nil hnil] at h
    exact nomatch h
  rw [(SameLines.refl h₀).readAt_eq hname, sectionLines] at h
  cases hlines : (Conf.ofLines ini₀.textLines).lines? (sectionName name) with
  | none =>
    rw [hlines] at h
    exact nomatch readUser_none.symm.trans h
  | some body =>
    rw [hlines, Option.getD_some] at h
    obtain ⟨s, hfind, rfl⟩ := Option.map_eq_some_iff.mp hlines
    exact ⟨s, mem_of_find?_eq_some hfind, by simpa using find?_some hfind, h⟩

/-- **The users that are read** are those of the sections, and no others. -/
theorem loadUsers_spec (h₀ : HasLines ini₀ ini₀.textLines) (h : SameLines ini₀ ini)
    (names : List (List Char)) (userData : UserId → Option OnEventData) (k : UserId) :
    (∀ d, (loadUsers plugins names (ini, userData)).2 k = some d →
      userData k = some d ∨ ∃ name ∈ names, readAt plugins ini₀ name = some (k, d.settings)) ∧
    ((userData k).isSome ∨ (∃ name ∈ names, ∃ settings,
        readAt plugins ini₀ name = some (k, settings)) →
      ((loadUsers plugins names (ini, userData)).2 k).isSome) := by
  induction names generalizing ini userData with
  | nil => exact ⟨fun d hd => .inl hd, fun hk => hk.resolve_right (by simp)⟩
  | cons name names ih =>
    have hread : readUser plugins (get (setSection ini name true).2) = readAt plugins ini₀ name :=
      h.readAt_congr h₀ name
    rw [loadUsers]
    simp only [hread, mem_cons, exists_eq_or_imp]
    cases hcase : readAt plugins ini₀ name with
    | none =>
      obtain ⟨hfrom, hto⟩ := ih (h.setSection name) userData
      refine ⟨fun d hd => (hfrom d hd).imp_right .inr, fun hk => hto (hk.imp_right ?_)⟩
      rintro (⟨_, hnone⟩ | hk)
      · exact nomatch hnone
      · exact hk
    | some r =>
      obtain ⟨userId, settings⟩ := r
      obtain ⟨hfrom, hto⟩ := ih (h.setSection name)
        (Function.update userData userId (some ⟨name, some userId, settings, false⟩))
      by_cases hk : k = userId
      · subst hk
        simp only [Function.update_self] at hfrom hto
        refine ⟨fun d hd => ?_, fun _ => hto (.inl rfl)⟩
        rcases hfrom d hd with hd | hd
        · cases hd
          exact .inr (.inl rfl)
        · exact .inr (.inr hd)
      · simp only [Function.update_of_ne hk] at hfrom hto
        refine ⟨fun d hd => (hfrom d hd).imp_right .inr, fun hk' => hto (hk'.imp_right ?_)⟩
        rintro (⟨_, hsome⟩ | hk')
        · exact absurd (congrArg Prod.fst (Option.some.inj hsome)).symm hk
        · exact hk'

theorem sameLines_loadGroups (h : SameLines ini₀ ini) (names : List (List Char))
    (groupData : ℤ → Option OnEventData) :
    SameLines ini₀ (loadGroups names (ini, groupData)).1 := by
  induction names generalizing ini groupData with
  | nil => exact h
  | cons name names ih =>
    rw [loadGroups]
    split_ifs
    · exact ih (h.setSection name) groupData
    · exact ih (h.setSection name) _

theorem sectionName_sectionName (raw : List Char) :
    sectionName (sectionName raw) = sectionName raw := by
  rw [sectionName, sectionName, filter_filter]
  simp only [Bool.and_self]

/-- **What a manager finds when it starts.** -/
theorem start_spec (shareDir : List Char) {disk : Option (List Char)}
    (h₀ : HasLines (confOf disk) (confOf disk).textLines) (k : UserId) :
    (∀ d, (OnEventManager.start plugins shareDir disk).userData k = some d →
      ∃ name, readAt plugins (confOf disk) name = some (k, d.settings)) ∧
    (∀ raw settings, userPrefix <+: sectionName raw →
      readAt plugins (confOf disk) (sectionName raw) = some (k, settings) →
      ((OnEventManager.start plugins shareDir disk).userData k).isSome) := by
  have hglobal := (SameLines.refl h₀).setSection globalSection
  have hgroups := sameLines_loadGroups hglobal
    (getSections (setSection (confOf disk) globalSection true).2 groupPrefix) fun _ => none
  obtain ⟨hfrom, hto⟩ := @loadUsers_spec plugins _ _ h₀ hgroups
    (getSections (setSection (confOf disk) globalSection true).2 groupPrefix ++
      getSections (loadGroups (getSections (setSection (confOf disk) globalSection true).2
        groupPrefix) ((setSection (confOf disk) globalSection true).2, fun _ => none)).1 userPrefix)
    (fun _ => none) k
  refine ⟨fun d hd => ?_, fun raw settings hprefix hread => ?_⟩
  · obtain ⟨name, -, hname⟩ := (hfrom d hd).resolve_left nofun
    exact ⟨name, hname⟩
  · refine hto (.inr ⟨sectionName raw, mem_append_right _ ?_, settings, hread⟩)
    -- A section that is read has lines, so the text has its header.
    rw [← hgroups.readAt_congr h₀] at hread
    obtain ⟨s, hs, hnamed, -⟩ := exists_section hgroups.text hread
    rw [sectionName_sectionName] at hnamed
    exact mem_getSections hgroups.text (Conf.mem_sections_ofLines hs) hnamed
      (bracket_notMem_sectionName raw) hprefix

end Reading

/-! ## What is saved -/

section Saving

variable {u : UserSettings plugins} {users done : List (UserSettings plugins)} {ini : IniFile}

theorem ownerId_accountId (userId : UserId) : userId.ownerId.accountId = userId.ownerAccountId :=
  userId.owner_normal

theorem sectionName_iniSection (u : UserSettings plugins) :
    sectionName u.data.iniSection = userPrefix ++ u.keptId := by
  have hid : u.userId.ownerId.toString
      = protocolIdToString u.userId.protocolId ++ u.userId.ownerAccountId :=
    congrArg (protocolIdToString u.userId.protocolId ++ ·) (ownerId_accountId u.userId)
  have hprefix : userPrefix.filter sectionChar = userPrefix := by decide
  rw [UserSettings.data, userSection, sectionName, hid, UserSettings.keptId, append_assoc,
    append_assoc, filter_append]
  exact congrArg (· ++ _) hprefix

theorem sectionName_ne_nil (u : UserSettings plugins) : sectionName u.data.iniSection ≠ [] := by
  rw [sectionName_iniSection]
  exact append_ne_nil_of_left_ne_nil (by decide) _

theorem sharesSection_iff {u v : UserSettings plugins} :
    SharesSection u v ↔ u.keptId = v.keptId := by
  rw [SharesSection, sectionName_iniSection, sectionName_iniSection, append_cancel_left_eq]

theorem allDefault_iff {settings : OnEventSettings} :
    AllDefault settings ↔ settings = loadDefaults := by
  constructor
  · rintro ⟨henabled, hnotify, hcommand, hparameters⟩
    exact OnEventSettings.ext henabled hnotify hcommand
      (funext fun event => hparameters event event.mem_all)
  · rintro rfl
    exact ⟨rfl, rfl, rfl, fun _ _ => rfl⟩

/-- All that is set for a user. -/
def entries (u : UserSettings plugins) : List Entry :=
  idEntries u.userId ++ settingsEntries u.settings

theorem kept_entries {e : Entry} (he : e ∈ entries u) : e ∈ kept (entries u) := by
  have hkeys : (entries u).map Prod.fst = onEventKeys := rfl
  have hnodup : ((entries u).map Prod.fst).Nodup := hkeys ▸ (by decide : onEventKeys.Nodup)
  exact mem_kept (fun _ ha _ hb => inj_on_of_nodup_map hnodup ha hb) he
    (onEventKeys_valid _ (hkeys ▸ mem_map_of_mem he))

/-- **The parameters that are set give the user and its settings.** -/
theorem readUser_of_entries {conf : ValueMap} (h : ∀ e ∈ entries u, conf e.1 = some e.2) :
    readUser plugins conf = some (u.userId, u.settings) := by
  have hevent : ∀ event : OnEventType, conf event.key = some (u.settings.parameters event) :=
    fun event => h (event.key, _) (mem_append_right _ (mem_append_right _
      (mem_map_of_mem event.mem_all)))
  simp only [entries, idEntries, settingsEntries, cons_append, nil_append, mem_cons,
    forall_eq_or_imp] at h
  obtain ⟨hprotocol, howner, huser, henable, hnotify, hcommand, -⟩ := h
  have hload : load false [] conf = u.settings := by
    refine OnEventSettings.ext ?_ ?_ ?_ (funext fun event => ?_)
    · rw [load, henable, Option.map_some, Option.getD_some,
        atoi_decimalInt u.enabled_int.1 u.enabled_int.2]
    · rw [load, hnotify, Option.map_some, Option.getD_some,
        atoi_decimalInt u.notify_int.1 u.notify_int.2]
    · rw [load, hcommand, Option.getD_some]
    · change (conf event.key).getD Default = _
      rw [hevent, Option.getD_some]
  have hid : protocolIdFromString plugins (protocolIdToString u.userId.protocolId)
      = u.userId.protocolId := by
    have := Filter.protocolIdFromString_protocolText_iff.mpr u.recognised
    rwa [Filter.protocolText, if_neg u.protocol_ne] at this
  rw [readUser, hload, hprotocol, howner, huser, Option.getD_some, Option.getD_some,
    Option.getD_some, ownerId_accountId]
  simp only [hid]
  rw [if_neg (by simp [u.protocol_ne, u.owner_ne, u.account_ne])]
  exact congrArg (fun k => some (k, u.settings))
    (UserId.ext_ids rfl u.userId.owner_normal u.userId.normal)

theorem nul_notMem_entries (h : u.Clean) : ∀ e ∈ entries u, Char.ofNat 0 ∉ e.2 := by
  simp only [entries, idEntries, settingsEntries, cons_append, nil_append, mem_cons,
    forall_eq_or_imp, mem_map, forall_exists_index, and_imp, forall_apply_eq_imp_iff₂]
  exact ⟨nul_notMem_cString _, ownerId_accountId u.userId ▸ h.owner, h.account,
    Filter.nul_notMem_decimalInt _, Filter.nul_notMem_decimalInt _, h.command,
    fun event _ => h.parameters event⟩

/-- **The text has the settings of the users**, and of no others. -/
structure Keeps (users : List (UserSettings plugins)) (ini : IniFile) : Prop where
  settled : Settled ini
  only : ∀ s ∈ (Conf.ofLines ini.textLines).sections, ∀ r,
    readUser plugins (valuesIn s.body) = some r →
      ∃ u ∈ users, ¬ AllDefault u.settings ∧ r = (u.userId, u.settings)
  kept : ∀ u ∈ users, ¬ AllDefault u.settings →
    readUser plugins (valuesIn (ini.sectionLines (sectionName u.data.iniSection)))
      = some (u.userId, u.settings)

theorem Keeps.congr {ini' : IniFile} (h : Keeps users ini)
    (hdata : ini.myConfigData = ini'.myConfigData) : Keeps users ini' where
  settled := settled_congr hdata h.settled
  only := textLines_congr hdata ▸ h.only
  kept u hu hne := by
    rw [← sectionLines_congr hdata]
    exact h.kept u hu hne

/-- **Removing the section of a user with default settings.** -/
theorem Keeps.remove (h : Keeps done ini) (hnone : ini.mySection = none)
    (hu : AllDefault u.settings) (hapart : ∀ x ∈ done, ¬ SharesSection x u) :
    Keeps (done ++ [u]) (removeSection ini u.data.iniSection) := by
  have hconf := ((Spells.start h.settled.1 hnone).erase (sectionName_ne_nil u)).refines
  have hsurvives :=
    (Conf.survives_ofLines_iff.mpr h.settled.2).erase (sectionName u.data.iniSection)
  refine ⟨⟨hconf.text, Conf.survives_ofLines_iff.mp (hconf.conf.symm ▸ hsurvives)⟩,
    fun s hs r hr => ?_, fun x hx hne => ?_⟩
  · rw [hconf.conf] at hs
    obtain ⟨x, hx, hr⟩ := h.only s (mem_of_mem_eraseP hs) r hr
    exact ⟨x, mem_append_left _ hx, hr⟩
  · rcases mem_append.mp hx with hx | hx
    · rw [sectionLines, hconf.conf, Conf.lines?_erase_of_ne (bracket_notMem_sectionName _)
        (bracket_notMem_sectionName _) (hapart x hx)]
      exact h.kept x hx hne
    · obtain rfl := mem_singleton.mp hx
      exact absurd hu hne

/-- **Writing the section of a user.** -/
theorem Keeps.write (h : Keeps done ini) (hu : ¬ AllDefault u.settings) (hclean : u.Clean)
    (hapart : ∀ x ∈ done, ¬ SharesSection x u) : ∃ ini',
      setAll (setSection ini u.data.iniSection true).2 (entries u) = some ini' ∧
        Tracked ini ini' ∧ Keeps (done ++ [u]) ini' := by
  obtain ⟨ini₁, ini₂, pre, hdr, sel, tail, hset, hall, hs, hd, htrack, hsteady⟩ :=
    save_section h.settled (sectionName_ne_nil u) (nul_notMem_entries hclean)
  have hedit := hs.edited hd.toHasLines (Wrote.assignAll (entries u) sel) htrack
  have hread : readUser plugins (valuesIn (ini₂.sectionLines (sectionName u.data.iniSection)))
      = some (u.userId, u.settings) := readUser_of_entries fun e he => by
    rw [valuesIn, hedit.lookup_self (kept_entries he), Option.map_some, unescape_escape]
  refine ⟨ini₂, by rw [hset]; exact hall, htrack, hd.settled hsteady, fun s hs r hr => ?_,
    fun x hx hne => ?_⟩
  · have hold : s ∈ (Conf.ofLines ini.textLines).sections →
        ∃ x ∈ done ++ [u], ¬ AllDefault x.settings ∧ r = (x.userId, x.settings) := fun hs => by
      obtain ⟨x, hx, hr⟩ := h.only s hs r hr
      exact ⟨x, mem_append_left _ hx, hr⟩
    rw [hedit.sections_eq] at hs
    rcases mem_append.mp hs with hs | hs
    · exact hold ((takeWhile_sublist _).subset hs)
    · rcases mem_cons.mp hs with rfl | hs
      · rw [hedit.sectionLines_self] at hread
        exact ⟨u, by simp, hu, Option.some.inj (hr.symm.trans hread)⟩
      · exact hold ((dropWhile_sublist _).subset (mem_of_mem_tail hs))
  · rcases mem_append.mp hx with hx | hx
    · rw [hedit.sectionLines_other (apart_of_ne (Ne.symm (hapart x hx))
        (bracket_notMem_sectionName _) (bracket_notMem_sectionName _))]
      exact h.kept x hx hne
    · obtain rfl := mem_singleton.mp hx
      exact hread

/-- **Saving one user.** -/
theorem Keeps.unlock {disk : Option (List Char)} (h : Keeps done (confOf disk))
    (hclean : ¬ AllDefault u.settings → u.Clean) (hapart : ∀ x ∈ done, ¬ SharesSection x u) :
    ∃ disk', u.data.unlock true disk = some disk' ∧ Keeps (done ++ [u]) (confOf disk') := by
  have hnone : (confOf disk).mySection = none := by cases disk <;> rfl
  have hsave : ∃ ini', u.data.save (confOf disk) = some ini' ∧ Tracked (confOf disk) ini' ∧
      Keeps (done ++ [u]) ini' := by
    rw [OnEventData.save]
    by_cases hu : AllDefault u.settings
    · exact ⟨_, if_pos hu, removeSection_tracked h.settled.1 _, h.remove hnone hu hapart⟩
    · obtain ⟨ini', hall, hkeeps⟩ := h.write hu (hclean hu) hapart
      exact ⟨ini', (if_neg hu).trans hall, hkeeps⟩
  obtain ⟨ini', hsave, htrack, hkeeps⟩ := hsave
  obtain ⟨conf, hload, hdata⟩ := ConfFile.exists_loadFile (ConfFile.inSync_loadFile h.settled)
    hkeeps.settled htrack
  refine ⟨(ConfFile.writeFile { (ConfFile.loadFile (ConfFile.opened disk)).2 with
    ini := ini' }).2.disk, ?_, hkeeps.congr ?_⟩
  · rw [OnEventData.unlock, if_pos ⟨rfl, rfl⟩]
    exact congrArg (Option.bind · _) hsave
  · rw [confOf, hload, hdata]

/-- **Saving all users.** -/
theorem Keeps.saveUsers {disk : Option (List Char)} (h : Keeps done (confOf disk))
    (hclean : ∀ u ∈ users, ¬ AllDefault u.settings → u.Clean)
    (hapart : (done ++ users).Pairwise fun u v => ¬ SharesSection u v) :
    ∃ disk', OnEventConf.saveUsers users disk = some disk' ∧
      Keeps (done ++ users) (confOf disk') := by
  induction users generalizing done disk with
  | nil => exact ⟨disk, rfl, by rwa [append_nil]⟩
  | cons u users ih =>
    obtain ⟨disk₁, hunlock, h₁⟩ := h.unlock (hclean u mem_cons_self) fun x hx =>
      (pairwise_append.mp hapart).2.2 x hx u mem_cons_self
    obtain ⟨disk₂, hsave, h₂⟩ := ih h₁ (fun x hx => hclean x (mem_cons_of_mem u hx))
      (by rwa [append_assoc])
    rw [append_assoc] at h₂
    exact ⟨disk₂, by rw [OnEventConf.saveUsers, hunlock, Option.bind_some, hsave], h₂⟩

end Saving

/-! ## The main result -/

section Main

variable {users : List (UserSettings plugins)} {shareDir : List Char} {disk : Option (List Char)}

/-- **A manager that starts finds what the text has.** -/
theorem Keeps.lockUser (h : Keeps users (confOf disk))
    (hnodup : (users.map UserSettings.userId).Nodup) {u : UserSettings plugins} (hu : u ∈ users) :
    (OnEventManager.start plugins shareDir disk).lockUser u.userId = u.settings := by
  obtain ⟨hfrom, hto⟩ := @start_spec plugins shareDir _ h.settled.1 u.userId
  have honly : ∀ d, (OnEventManager.start plugins shareDir disk).userData u.userId = some d →
      ¬ AllDefault u.settings ∧ d.settings = u.settings := fun d hd => by
    obtain ⟨name, hname⟩ := hfrom d hd
    obtain ⟨s, hs, -, hr⟩ := exists_section h.settled.1 hname
    obtain ⟨x, hx, hne, hr⟩ := h.only s hs _ hr
    obtain rfl : u = x := inj_on_of_nodup_map hnodup hu hx (congrArg Prod.fst hr)
    exact ⟨hne, congrArg Prod.snd hr⟩
  rw [OnEventManager.lockUser]
  cases hdata : (OnEventManager.start plugins shareDir disk).userData u.userId with
  | some d => exact (honly d hdata).2
  | none =>
    by_cases hne : AllDefault u.settings
    · exact (allDefault_iff.mp hne).symm
    · have hread := h.kept u hu hne
      rw [← sectionName_sectionName] at hread
      rw [← (SameLines.refl h.settled.1).readAt_eq (by
        rw [sectionName_sectionName]; exact sectionName_ne_nil u)] at hread
      have := hto u.data.iniSection _ ⟨_, (sectionName_iniSection u).symm⟩ hread
      rw [hdata] at this
      exact nomatch this

theorem clean_readUser {conf : ValueMap} {k : UserId} {settings : OnEventSettings}
    (hconf : ∀ key value, conf key = some value → Char.ofNat 0 ∉ value)
    (h : readUser plugins conf = some (k, settings)) :
    (Char.ofNat 0 ∉ k.ownerAccountId ∧ Char.ofNat 0 ∉ k.accountId) ∧
      Char.ofNat 0 ∉ settings.command ∧ ∀ event, Char.ofNat 0 ∉ settings.parameters event := by
  have hget : ∀ key defValue, Char.ofNat 0 ∉ defValue → Char.ofNat 0 ∉ (conf key).getD defValue :=
    fun key defValue hdef => by
      cases hkey : conf key with
      | none => exact hdef
      | some value => exact hconf key value hkey
  rw [readUser] at h
  split_ifs at h
  cases h
  exact ⟨⟨nul_notMem_normalizeId (hget _ _ not_mem_nil) _,
    nul_notMem_normalizeId (hget _ _ not_mem_nil) _⟩,
    hget _ Default (by decide), fun event => hget event.key Default (by decide)⟩

/-- Settings that come back have no null character. -/
theorem clean_of_lockUser {u : UserSettings plugins} (hu : ¬ AllDefault u.settings)
    (h : (OnEventManager.start plugins shareDir disk).lockUser u.userId = u.settings) :
    u.Clean := by
  rw [OnEventManager.lockUser] at h
  cases hdata : (OnEventManager.start plugins shareDir disk).userData u.userId with
  | none =>
    rw [hdata] at h
    exact absurd (allDefault_iff.mpr h.symm) hu
  | some d =>
    rw [hdata] at h
    obtain ⟨name, hname⟩ := (start_spec shareDir (ConfFile.hasLines_restart
      (ConfFile.opened disk)) u.userId).1 d hdata
    have hnul := nul_notMem_setSection
      (ConfFile.nul_notMem_restart (ConfFile.opened disk)) name true
    obtain ⟨⟨howner, haccount⟩, hcommand, hparameters⟩ :=
      clean_readUser (fun key value => nul_notMem_get hnul) hname
    have hsettings : d.settings = u.settings := h
    rw [hsettings] at hcommand hparameters
    exact ⟨howner, haccount, hcommand, hparameters⟩

/-- **The settings of all users are kept exactly when** the ids of no two users are the same without
the characters that a section name may not have, and no user with other settings than the default
ones has a null character in a text. -/
theorem keepsSettings_iff (hdisk : Settled (confOf disk)) (hnone : NoUsers plugins (confOf disk))
    (hnodup : (users.map UserSettings.userId).Nodup) :
    KeepsSettings shareDir disk users ↔ users.Pairwise (fun u v => u.keptId ≠ v.keptId) ∧
      ∀ u ∈ users, ¬ AllDefault u.settings → u.Clean := by
  simp only [← sharesSection_iff, ne_eq]
  constructor
  · rintro ⟨⟨disk', -, hlock⟩, hapart⟩
    exact ⟨hapart, fun u hu hne => clean_of_lockUser hne (hlock u hu)⟩
  · rintro ⟨hapart, hclean⟩
    have hstart : Keeps ([] : List (UserSettings plugins)) (confOf disk) :=
      ⟨hdisk, fun s hs r hr => absurd ((hnone s hs).symm.trans hr) nofun, fun _ hu => nomatch hu⟩
    obtain ⟨disk', hsave, hkeeps⟩ := hstart.saveUsers hclean hapart
    exact ⟨⟨disk', hsave, fun u hu => hkeeps.lockUser hnodup hu⟩, hapart⟩

end Main

/-- Users of Jabber on the list of one owner. -/
def jabberUser (accountId : List Char) (h : accountId ≠ []) (command : List Char) :
    UserSettings [] where
  userId := ⟨jabberPpid, ['m'], accountId, rfl, by cases accountId <;> rfl⟩
  settings := { loadDefaults with command := command }
  protocol_ne := (by decide : jabberPpid ≠ 0)
  recognised := .inl (by decide : jabberPpid ∈ [icqPpid, msnPpid, jabberPpid])
  owner_ne := List.cons_ne_nil _ _
  account_ne := h
  enabled_int := (by decide : -2 ^ 31 ≤ (-1 : ℤ) ∧ (-1 : ℤ) < 2 ^ 31)
  notify_int := (by decide : -2 ^ 31 ≤ (-1 : ℤ) ∧ (-1 : ℤ) < 2 ^ 31)

theorem clean_jabberUser {accountId command : List Char} {h : accountId ≠ []}
    (haccount : Char.ofNat 0 ∉ accountId) (hcommand : Char.ofNat 0 ∉ command) :
    (jabberUser accountId h command).Clean :=
  ⟨(by decide : Char.ofNat 0 ∉ ['m']), haccount, hcommand,
    fun _ => (by decide : Char.ofNat 0 ∉ Default)⟩

/-- Two users that are told apart by their names: "a.b" and "a". -/
theorem keepsSettings_two : KeepsSettings [] none
    [jabberUser ['a', '.', 'b'] (by decide) ['x'], jabberUser ['a'] (by decide) ['y']] :=
  (keepsSettings_iff (by decide) (by decide) (by decide)).mpr
    ⟨by decide, List.forall_mem_cons.mpr ⟨fun _ => clean_jabberUser (by decide) (by decide),
      List.forall_mem_singleton.mpr fun _ => clean_jabberUser (by decide) (by decide)⟩⟩

/-- "a!b" and "ab" have one section, with the settings of the second. -/
theorem not_keepsSettings_mark :
    ¬ KeepsSettings [] none
        [jabberUser ['a', '!', 'b'] (by decide) ['x'], jabberUser ['a', 'b'] (by decide) ['y']] ∧
      (saveUsers [jabberUser ['a', '!', 'b'] (by decide) ['x'],
        jabberUser ['a', 'b'] (by decide) ['y']] none).map (fun disk =>
          ((OnEventManager.start [] [] disk).lockUser
            (jabberUser ['a', '!', 'b'] (by decide) ['x']).userId).command) =
        some Default := by
  refine ⟨fun h => ?_, by decide +kernel⟩
  have hapart := (List.pairwise_cons.mp h.apart).1 _ List.mem_cons_self
  exact hapart (by decide)

end OnEventConf

end Licq
