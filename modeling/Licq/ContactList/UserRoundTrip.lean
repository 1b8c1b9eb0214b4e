import Licq.ContactList.UserConf
import Licq.ContactList.Owners

/-!
# ContactList/UserRoundTrip — what constructing a user again restores

Saving everything sets every parameter once, or twice to the same value (`consistent_entries`), so
that each is read back as it was set (`save_spec`).  What is left is what the constructor makes of the
values: `Restored` says it field by field.
-/

namespace Licq.UserConf

open Text IniFile List

/-! ## The parameters that are set -/

/-- The values that C++ types hold, and the properties of a user. -/
structure User.Typed (u : User) : Prop where
  timezone : -2 ^ 31 ≤ u.myTimezone ∧ u.myTimezone < 2 ^ 31
  serverGroup : -2 ^ 31 ≤ u.myServerGroup ∧ u.myServerGroup < 2 ^ 31
  times : ∀ t ∈ [u.lastOnline, u.lastSentEvent, u.lastReceivedEvent, u.lastCheckedAutoResponse,
    u.m_nRegisteredTime], -2 ^ 63 ≤ t ∧ t < 2 ^ 63
  groups : ∀ g ∈ u.myGroups, -2 ^ 31 ≤ g ∧ g < 2 ^ 31
  groupCount : u.myGroups.card < 2 ^ 32
  properties : u.myUserInfo.map (fun p => (p.1, p.2.type)) = initUserInfo.map fun p => (p.1, p.2.type)
  uints : ∀ p ∈ u.myUserInfo, ∀ n, p.2 = .uint n → n < 2 ^ 32

/-- The parameters that older versions wrote, which saving removes. -/
def oldKeys : List (List Char) := [historyKey, groupsSystemKey, gsidKey, groupsUserKey]

/-- Everything that is set, in order. -/
def entries (own : List Entry) (u : User) (newMessages : ℕ) : List Entry :=
  userInfo u ++ licqInfo u newMessages ++ groupInfo u ++ own ++
    [(newMessagesKey, decimal newMessages)] ++ [(picturePresentKey, boolText u.m_bPicturePresent)]

variable {u : User} {own : List Entry} {n : ℕ}

theorem User.Typed.keys (h : u.Typed) : u.myUserInfo.map Prod.fst = initUserInfo.map Prod.fst := by
  have := congrArg (map Prod.fst) h.properties
  rwa [map_map, map_map] at this

/-- The names of the parameters, numbered groups and those of an owner apart. -/
def userKeys : List (List Char) :=
  [aliasKey, keepAliasOnUpdateKey, timezoneKey, authorizationKey] ++ initUserInfo.map Prod.fst

def licqKeys : List (List Char) :=
  [onVisibleListKey, onInvisibleListKey, onIgnoreListKey, onlineNotifyKey, newUserKey, ipKey,
    intIpKey, portKey, newMessagesKey, lastOnlineKey, lastSentKey, lastRecvKey, lastCheckedARKey,
    registeredTimeKey, autoAcceptKey, statusToUserKey, customAutoRspKey, sendIntIpKey, userEncodingKey,
    awaitingAuthKey, useGPGKey, gpgKey, sendServerKey]

def ownerKeys : List (List Char) :=
  [startupStatusKey, serverHostKey, serverPortKey, autoResponseKey, useGlobalStatusKey, passwordKey]

/-- All names that are not numbered. -/
def namedKeys : List (List Char) :=
  userKeys ++ (licqKeys ++ [serverGroupKey]) ++ [groupCountKey] ++ ownerKeys ++ [picturePresentKey]

theorem namedKeys_nodup : namedKeys.Nodup := by decide +kernel

theorem namedKeys_valid : ∀ k ∈ namedKeys, k.all keyChar = true := by decide +kernel

/-- The name is that of a numbered group. -/
def GroupLike (key : List Char) : Prop := key.take 5 = ['G', 'r', 'o', 'u', 'p'] ∧
  (key[5]?).any Char.isDigit = true

instance (key : List Char) : Decidable (GroupLike key) := inferInstanceAs (Decidable (_ ∧ _))

theorem not_groupLike_namedKeys : ∀ k ∈ namedKeys ++ oldKeys, ¬ GroupLike k := by decide +kernel

theorem groupLike_groupKey (i : ℕ) : GroupLike (groupKey i) := by
  refine ⟨rfl, ?_⟩
  obtain ⟨c, s, hc⟩ := exists_cons_of_ne_nil (decimal_ne_nil i)
  have hdigit : c.isDigit = true := isDigit_of_mem_decimal (hc ▸ mem_cons_self)
  rw [groupKey, hc]
  simpa using hdigit

variable {i : ℕ} {e : Entry} {ini : IniFile} {myConf : ConfFile}

theorem groupKey_injective {j : ℕ} (h : groupKey i = groupKey j) : i = j :=
  decimal_injective (append_cancel_left h)

theorem groupKey_valid (i : ℕ) : (groupKey i).all keyChar = true := by
  rw [groupKey, all_append, decimal_all_keyChar]
  rfl

/-! ### Each name is set to one value -/

theorem keys_userInfo (h : u.Typed) : (userInfo u).map Prod.fst = userKeys := by
  rw [userKeys, ← h.keys, userInfo]
  simp only [map_cons, map_map, cons_append, nil_append]
  rfl

theorem keys_licqInfo (u : User) (n : ℕ) :
    ((licqInfo u n).map Prod.fst).Sublist (licqKeys ++ [serverGroupKey]) := by
  have hkeys : (licqInfo u n).map Prod.fst = licqKeys
      ++ (if -1 < u.myServerGroup then [(serverGroupKey, decimalInt u.myServerGroup)] else []).map
        Prod.fst := rfl
  rw [hkeys, append_sublist_append_left]
  split_ifs
  · exact List.Sublist.refl _
  · exact nil_sublist _

theorem mem_numbered {gs : List ℤ} (h : e ∈ numbered i gs) : ∃ j, i ≤ j ∧ e.1 = groupKey j := by
  induction gs generalizing i with
  | nil => exact absurd h not_mem_nil
  | cons g gs ih =>
    rcases mem_cons.mp h with rfl | h
    · exact ⟨i, le_refl i, rfl⟩
    · obtain ⟨j, hj, heq⟩ := ih h
      exact ⟨j, by omega, heq⟩

theorem nodup_numbered (i : ℕ) (gs : List ℤ) : ((numbered i gs).map Prod.fst).Nodup := by
  induction gs generalizing i with
  | nil => exact nodup_nil
  | cons g gs ih =>
    refine nodup_cons.mpr ⟨fun h => ?_, ih (i + 1)⟩
    obtain ⟨e, he, heq⟩ := mem_map.mp h
    obtain ⟨j, hj, heq'⟩ := mem_numbered he
    have := groupKey_injective (heq.symm.trans heq')
    omega

/-- What an owner sets besides what a user does. -/
def OwnEntries (u : User) (own : List Entry) : Prop :=
  ∃ own' : List Entry, (own'.map Prod.fst).Sublist ownerKeys ∧
    ∀ e ∈ own, e = (authorizationKey, boolText u.m_bAuthorization) ∨ e ∈ own'

/-- The entries, those apart that are set a second time. -/
def mainEntries (own' : List Entry) (u : User) (n : ℕ) : List Entry :=
  userInfo u ++ licqInfo u n ++ [(groupCountKey, decimal (u.myGroups.card % 2 ^ 32))] ++ own' ++
    [(picturePresentKey, boolText u.m_bPicturePresent)]

theorem keys_mainEntries (h : u.Typed) {own' : List Entry}
    (hown : (own'.map Prod.fst).Sublist ownerKeys) :
    ((mainEntries own' u n).map Prod.fst).Sublist namedKeys := by
  simp only [mainEntries, map_append, keys_userInfo h, namedKeys]
  exact ((((List.Sublist.refl _).append (keys_licqInfo u n)).append (List.Sublist.refl _)).append
    hown).append (List.Sublist.refl _)

theorem mem_entries_cases {own' : List Entry}
    (hown : ∀ e ∈ own, e = (authorizationKey, boolText u.m_bAuthorization) ∨ e ∈ own')
    (he : e ∈ entries own u n) :
    e ∈ mainEntries own' u n ∨ e ∈ (groupInfo u).tail := by
  have hauth : (authorizationKey, boolText u.m_bAuthorization) ∈ userInfo u :=
    mem_of_getElem? (show (userInfo u)[3]? = _ from rfl)
  have hmessages : (newMessagesKey, decimal n) ∈ licqInfo u n :=
    mem_of_getElem? (show (licqInfo u n)[8]? = _ from rfl)
  simp only [entries, groupInfo, mem_append, mem_cons, not_mem_nil, or_false] at he
  simp only [mainEntries, mem_append, mem_singleton]
  rcases he with ((((he | he) | he | he) | he) | rfl) | rfl
  · exact .inl (.inl (.inl (.inl (.inl he))))
  · exact .inl (.inl (.inl (.inl (.inr he))))
  · exact .inl (.inl (.inl (.inr he)))
  · exact .inr he
  · rcases hown e he with rfl | he
    · exact .inl (.inl (.inl (.inl (.inl hauth))))
    · exact .inl (.inl (.inr he))
  · exact .inl (.inl (.inl (.inl (.inr hmessages))))
  · exact .inl (.inr rfl)

/-- **Every name is set to one value.** -/
theorem consistent_entries (h : u.Typed) (hown : OwnEntries u own) :
    ∀ e ∈ entries own u n, ∀ e' ∈ entries own u n, e.1 = e'.1 → e = e' := by
  obtain ⟨own', hkeys, hown⟩ := hown
  have hsub := keys_mainEntries (n := n) h hkeys
  have hapart : ∀ e ∈ mainEntries own' u n, ∀ e' ∈ numbered 1 (u.myGroups.sort (· ≤ ·)),
      e.1 ≠ e'.1 := by
    intro e he e' he' heq
    obtain ⟨j, -, hj⟩ := mem_numbered he'
    have hnamed := hsub.subset (mem_map_of_mem he)
    refine not_groupLike_namedKeys e.1 (mem_append_left _ hnamed) ?_
    rw [heq, hj]
    exact groupLike_groupKey j
  intro e he e' he' heq
  rcases mem_entries_cases hown he with he | he
  · rcases mem_entries_cases hown he' with he' | he'
    · exact inj_on_of_nodup_map (namedKeys_nodup.sublist hsub) he he' heq
    · exact absurd heq (hapart e he e' he')
  · rcases mem_entries_cases hown he' with he' | he'
    · exact absurd heq.symm (hapart e' he' e he)
    · exact inj_on_of_nodup_map (nodup_numbered _ _) he he' heq

theorem entries_valid (h : u.Typed) (hown : OwnEntries u own) (he : e ∈ entries own u n) :
    e.1.all keyChar = true := by
  obtain ⟨own', hkeys, hown⟩ := hown
  rcases mem_entries_cases hown he with he | he
  · exact namedKeys_valid e.1 ((keys_mainEntries h hkeys).subset (mem_map_of_mem he))
  · obtain ⟨j, -, hj⟩ := mem_numbered he
    rw [hj]
    exact groupKey_valid j

/-- No name is one that older versions wrote. -/
theorem entries_ne_old (h : u.Typed) (hown : OwnEntries u own) (he : e ∈ entries own u n)
    {k : List Char} (hk : k ∈ oldKeys) : e.1 ≠ k := by
  have hold : ∀ k ∈ oldKeys, k ∉ namedKeys := by decide +kernel
  obtain ⟨own', hkeys, hown⟩ := hown
  rintro rfl
  rcases mem_entries_cases hown he with he | he
  · exact hold e.1 hk ((keys_mainEntries h hkeys).subset (mem_map_of_mem he))
  · obtain ⟨j, -, hj⟩ := mem_numbered he
    refine not_groupLike_namedKeys e.1 (mem_append_right _ hk) ?_
    rw [hj]
    exact groupLike_groupKey j

/-! ## Saving everything -/

/-- **Saving everything edits the section of the user.** -/
theorem save_edited (h : HasLines ini ini.textLines) (hu : u.Typed)
    (hown : OwnEntries u own) (hnone : NoneBehind ini (sectionName userSection) (· ∈ oldKeys)) :
    ∃ ini' pre hdr sel tail sel',
      (do let ini ← setAll (setSection ini userSection true).2 (userInfo u)
          let ini ← saveLicqInfo u n ini
          let ini ← setAll ini own
          let ini ← setAll ini [(newMessagesKey, decimal n)]
          setAll ini [(picturePresentKey, boolText u.m_bPicturePresent)]) = some ini' ∧
      Edited ini ini' (sectionName userSection) (entries own u n) pre hdr sel tail sel' := by
  obtain ⟨ini₀, pre, hdr, sel, tail, hset, hs⟩ :=
    setSection_selection h (by decide : sectionName userSection ≠ [])
  have htrack := setSection_tracked h userSection true
  rw [hset] at htrack ⊢
  have hvalid : ∀ k ∈ oldKeys, k.all keyChar = true := by decide
  -- The old parameters are nowhere behind the section, and are not among those that are set.
  have hunset : ∀ {es ini k}, k ∈ oldKeys → (∀ e ∈ es, e ∈ entries own u n) →
      Editing ini₀ (sectionName userSection) es pre hdr sel tail ini →
      Editing ini₀ (sectionName userSection) es pre hdr sel tail (unset ini k).2 :=
    fun hk hes hedit => hedit.unset (hvalid _ hk)
      (hs.absent hnone hk (head_ne_of_all_keyChar (hvalid _ hk)))
      fun e he => entries_ne_old hu hown (hes e he) hk
  obtain ⟨ini₁, h₁, hedit⟩ := (Editing.start hs.delimits (Tracked.refl ini₀)).setAll (userInfo u)
  rw [nil_append] at hedit
  have hmem₁ : ∀ e ∈ userInfo u, e ∈ entries own u n := fun e he => by simp [entries, he]
  have hedit := hunset (k := historyKey) (by decide) hmem₁ hedit
  have hedit := hunset (k := groupsSystemKey) (by decide) hmem₁ hedit
  obtain ⟨ini₂, h₂, hedit⟩ := hedit.setAll (licqInfo u n)
  have hmem₂ : ∀ e ∈ userInfo u ++ licqInfo u n, e ∈ entries own u n := fun e he => by
    rcases mem_append.mp he with he | he
    · simp [entries, he]
    · simp [entries, he]
  have hedit := hunset (k := gsidKey) (by decide) hmem₂ hedit
  have hedit := hunset (k := groupsUserKey) (by decide) hmem₂ hedit
  obtain ⟨ini₃, h₃, hedit⟩ := hedit.setAll (groupInfo u)
  obtain ⟨ini₄, h₄, hedit⟩ := hedit.setAll own
  obtain ⟨ini₅, h₅, hedit⟩ := hedit.setAll [(newMessagesKey, decimal n)]
  obtain ⟨ini₆, h₆, sel', hd, hwrote, htrack'⟩ :=
    hedit.setAll [(picturePresentKey, boolText u.m_bPicturePresent)]
  refine ⟨ini₆, pre, hdr, sel, tail, sel', ?_,
    hs.edited hd.toHasLines hwrote (htrack.trans htrack')⟩
  simp only [saveLicqInfo, Option.bind_eq_bind, h₁, h₂, h₃, h₄, h₅, h₆, Option.bind_some]

/-- The file can be saved to: it is there, loading its text once more changes nothing, and no later
section has a parameter of an older version. -/
structure Savable (myConf : ConfFile) : Prop where
  exists_file : myConf.disk ≠ none
  sync : (ConfFile.loadFile myConf).2.InSync
  noneBehind : NoneBehind (ConfFile.loadFile myConf).2.ini (sectionName userSection) (· ∈ oldKeys)

theorem loadFile_fst (h : myConf.disk ≠ none) : (ConfFile.loadFile myConf).1 = true := by
  rw [ConfFile.loadFile]
  cases hdisk : myConf.disk with
  | none => exact absurd hdisk h
  | some text =>
    simp only
    split_ifs
    · rfl
    · rfl

/-- Saving everything writes the edited text. -/
theorem save_eq (h : Savable myConf) (hu : u.Typed) (hown : OwnEntries u own)
    (n : ℕ) : ∃ ini' pre hdr sel tail sel',
      save own u n myConf
        = some (ConfFile.writeFile { (ConfFile.loadFile myConf).2 with ini := ini' }).2 ∧
      Edited (ConfFile.loadFile myConf).2.ini ini' (sectionName userSection) (entries own u n) pre hdr
        sel tail sel' := by
  obtain ⟨ini', pre, hdr, sel, tail, sel', hrun, hedit⟩ :=
    save_edited (n := n) h.sync.settled.1 hu hown h.noneBehind
  refine ⟨ini', pre, hdr, sel, tail, sel', ?_, hedit⟩
  rw [save]
  simp only [loadFile_fst h.exists_file, Bool.not_true, Bool.false_eq_true, if_false]
  simp only [Option.bind_eq_bind, Option.bind_eq_some_iff] at hrun ⊢
  obtain ⟨a, ha, b, hb, c, hc, d, hd, hrun⟩ := hrun
  exact ⟨a, ha, b, hb, c, hc, d, hd, ini', hrun, rfl⟩

/-- **Saving everything, and what a new `IniFile` reads then.** -/
theorem save_spec (h : Savable myConf) (hu : u.Typed) (hown : OwnEntries u own)
    (hnul : ∀ e ∈ entries own u n, Char.ofNat 0 ∉ e.2) :
    ∃ f, save own u n myConf = some f ∧ Savable f ∧ ∀ e ∈ entries own u n,
      get (setSection f.restart userSection true).2 e.1 = some e.2 := by
  obtain ⟨ini', pre, hdr, sel, tail, sel', hsave, hedit⟩ := save_eq h hu hown n
  have hsettled := hedit.settled h.sync.settled (nul_notMem_sectionName userSection) hnul
  have hrestart := ConfFile.restart_eq h.sync hsettled hedit.tracked
  have hsync := ConfFile.inSync_writeFile h.sync hsettled hedit.tracked
  have hmod := ConfFile.writeFile_not_modified { (ConfFile.loadFile myConf).2 with ini := ini' }
  refine ⟨_, hsave, ?_, fun e he => ?_⟩
  · obtain ⟨hloaded, hdata⟩ := hsync.loadFile hmod
    obtain ⟨text, htext, -⟩ := hsync.synced hmod
    refine ⟨htext ▸ Option.some_ne_none text, hloaded, ?_⟩
    rw [NoneBehind, sectionsFrom_congr (hdata.trans (ConfFile.writeFile_data _))]
    exact hedit.noneBehind h.noneBehind
  · have hvalid := entries_valid hu hown he
    have hkept := mem_kept (consistent_entries hu hown) he hvalid
    have hlines : HasLines (⟨ini'.myConfigData, none, false⟩ : IniFile) ini'.textLines :=
      ⟨hsettled.1.terminated, hsettled.1.data⟩
    rw [hrestart, get_setSection hlines (by decide : sectionName userSection ≠ [])
      (notMem_of_all_keyChar hvalid (by decide)) (head_ne_of_all_keyChar hvalid)]
    have hlookup := hedit.lookup_self hkept
    change (lookup e.1 (ini'.sectionLines (sectionName userSection))).map unescape = some e.2
    rw [hlookup, Option.map_some, unescape_escape]

/-! ## Values that are taken for others -/

theorem bmod_toNat_emod {m : ℕ} {t : ℤ} (hlow : -m ≤ 2 * t) (hhigh : 2 * t < m) :
    ((t % m).toNat : ℤ).bmod m = t := by
  rw [Int.toNat_of_nonneg (Int.emod_nonneg t (by omega)), Int.emod_bmod]
  exact Int.bmod_eq_of_le (by omega) (by omega)

theorem toTime_toULong {t : ℤ} (hlow : -2 ^ 63 ≤ t) (hhigh : t < 2 ^ 63) :
    toTime (toULong t) = t :=
  @bmod_toNat_emod (2 ^ 64) t (by push_cast; omega) (by push_cast; omega)

theorem toULong_lt (t : ℤ) : toULong t < 2 ^ 64 := by
  have := Int.emod_lt_of_pos t (by decide : (0 : ℤ) < 2 ^ 64)
  rw [toULong]
  omega

/-- **A time zone is kept unless it is one that older versions wrote.** -/
theorem readTimezone_eq_self_iff (z : ℤ) :
    readTimezone z = z ↔ z ≠ -100 ∧ (z = 0 ∨ z ≤ -24 ∨ 24 < z) := by
  simp only [readTimezone, TimezoneUnknown]
  split_ifs <;> omega

/-- The statuses that can be shown to a user. -/
def shownStatuses : List ℕ :=
  OfflineStatus :: [0, AwayStatus, NotAvailableStatus, OccupiedStatus, DoNotDisturbStatus,
    FreeForChatStatus].flatMap fun flag =>
      [OnlineStatus ||| flag, OnlineStatus ||| flag ||| InvisibleStatus]

theorem statusOfIcq_icqStatusToUser_mem (status : ℕ) :
    statusOfIcq (icqStatusToUser status) ∈ shownStatuses := by
  simp only [icqStatusToUser]
  split_ifs <;> decide

/-- **A status to a user is kept when it is one of those.** -/
theorem statusOfIcq_icqStatusToUser_iff (status : ℕ) :
    statusOfIcq (icqStatusToUser status) = status ↔ status ∈ shownStatuses := by
  have hkept : ∀ status ∈ shownStatuses, statusOfIcq (icqStatusToUser status) = status := by decide
  exact ⟨fun h => h ▸ statusOfIcq_icqStatusToUser_mem status, hkept status⟩

theorem icqStatusToUser_lt (status : ℕ) : icqStatusToUser status < 2 ^ 32 := by
  simp only [icqStatusToUser]
  split_ifs <;> decide

/-- The statuses that have a name, in parentheses or not. -/
def namedStatuses : List ℕ :=
  OfflineStatus :: [0, IdleStatus, AwayStatus, NotAvailableStatus, OccupiedStatus, DoNotDisturbStatus,
    FreeForChatStatus].flatMap fun flag =>
      [OnlineStatus ||| flag, OnlineStatus ||| flag ||| InvisibleStatus]

/-- **A startup status is kept when it has a name of its own**, as long as the names are not
translated. -/
theorem stringToStatus_statusToString_iff {tr : List Char → List Char} (htr : ∀ t, tr t = t)
    (status : ℕ) : (stringToStatus (statusToString tr status true true)).getD OfflineStatus = status ↔
      status ∈ namedStatuses := by
  obtain rfl : tr = id := funext htr
  have hmem : (stringToStatus (statusToString id status true true)).getD OfflineStatus
      ∈ namedStatuses := by
    by_cases hoffline : status = OfflineStatus
    · rw [hoffline]
      decide +kernel
    · simp only [statusToString, id, if_neg hoffline]
      split_ifs <;> decide +kernel
  have hkept : ∀ status ∈ namedStatuses,
      (stringToStatus (statusToString id status true true)).getD OfflineStatus = status := by
    decide +kernel
  exact ⟨fun h => h ▸ hmem, hkept status⟩

/-- **The flags of what is accepted are the bits they were put in.** -/
theorem has_autoAcceptFlags (u : User) :
    has (autoAcceptFlags u) 0x0001 = u.myAcceptInAway ∧
    has (autoAcceptFlags u) 0x0002 = u.myAcceptInNotAvailable ∧
    has (autoAcceptFlags u) 0x0004 = u.myAcceptInOccupied ∧
    has (autoAcceptFlags u) 0x0008 = u.myAcceptInDoNotDisturb ∧
    has (autoAcceptFlags u) 0x0100 = u.myAutoAcceptChat ∧
    has (autoAcceptFlags u) 0x0200 = u.myAutoAcceptFile ∧
    has (autoAcceptFlags u) 0x0400 = u.myAutoSecure := by
  rw [autoAcceptFlags]
  generalize u.myAcceptInAway = a, u.myAcceptInNotAvailable = b, u.myAcceptInOccupied = c,
    u.myAcceptInDoNotDisturb = d, u.myAutoAcceptChat = e, u.myAutoAcceptFile = f, u.myAutoSecure = g
  revert a b c d e f g
  decide +kernel

theorem autoAcceptFlags_lt (u : User) : autoAcceptFlags u < 2 ^ 32 := by
  rw [autoAcceptFlags]
  generalize u.myAcceptInAway = a, u.myAcceptInNotAvailable = b, u.myAcceptInOccupied = c,
    u.myAcceptInDoNotDisturb = d, u.myAutoAcceptChat = e, u.myAutoAcceptFile = f, u.myAutoSecure = g
  revert a b c d e f g
  decide +kernel

/-! ## Reading the groups -/

theorem numbered_get {j : ℕ} {gs : List ℤ} {g : ℤ} (h : gs[j]? = some g) :
    (groupKey (i + j), decimalInt g) ∈ numbered i gs := by
  induction gs generalizing i j with
  | nil => cases h
  | cons x gs ih =>
    cases j with
    | zero =>
      obtain rfl : x = g := by simpa using h
      exact mem_cons_self
    | succ j =>
      have := @ih (i + 1) j (by simpa using h)
      rw [show i + (j + 1) = i + 1 + j by omega]
      exact mem_cons_of_mem _ this

theorem foldl_addToGroup (gs : List ℤ) (myGroups : Finset ℤ) :
    gs.foldl addToGroup myGroups = myGroups ∪ gs.toFinset.filter (0 < ·) := by
  induction gs generalizing myGroups with
  | nil => simp
  | cons g gs ih =>
    rw [foldl_cons, ih, addToGroup, toFinset_cons, Finset.filter_insert]
    by_cases hg : g ≤ 0
    · rw [if_pos hg, if_neg (by omega)]
    · rw [if_neg hg, if_pos (by omega), Finset.insert_union, Finset.union_insert]

/-- **The groups that are read are those with positive numbers.** -/
theorem loadGroups_eq (hu : u.Typed)
    (hget : ∀ e ∈ groupInfo u, get ini e.1 = some e.2) :
    loadGroups ini = u.myGroups.filter (0 < ·) := by
  have hcount := hget (groupCountKey, decimal (u.myGroups.card % 2 ^ 32)) mem_cons_self
  rw [Nat.mod_eq_of_lt hu.groupCount] at hcount
  have hlength : (u.myGroups.sort (· ≤ ·)).length = u.myGroups.card := Finset.length_sort _
  have hmap : (range' 1 u.myGroups.card).map (fun i => getInt ini (groupKey i) 0)
      = u.myGroups.sort (· ≤ ·) := by
    refine ext_getElem (by simp) fun i h₁ h₂ => ?_
    have hmem : (u.myGroups.sort (· ≤ ·))[i] ∈ u.myGroups :=
      (Finset.mem_sort _).mp (getElem_mem h₂)
    obtain ⟨hlow, hhigh⟩ := hu.groups _ hmem
    have hnumbered := numbered_get (i := 1) (getElem?_eq_getElem h₂)
    have hgroup := hget _ (mem_cons_of_mem _ hnumbered)
    rw [getElem_map, getElem_range', Nat.one_mul, getInt_of_get hgroup hlow hhigh]
  rw [loadGroups, hcount]
  simp only
  rw [getUnsigned_of_get hcount hu.groupCount, ← foldl_map, hmap, foldl_addToGroup,
    Finset.sort_toFinset, Finset.empty_union]

/-! ## What is restored -/

/-- The settings that reading them restores, the encoding apart, and when it does for those that can
be taken for something else. -/
structure Restored (s : Session) (u v : User) : Prop where
  myAlias : v.myAlias = u.myAlias
  myTimezone : v.myTimezone = u.myTimezone ↔
    u.myTimezone ≠ -100 ∧ (u.myTimezone = 0 ∨ u.myTimezone ≤ -24 ∨ 24 < u.myTimezone)
  myUserInfo : v.myUserInfo = u.myUserInfo
  flags : v.m_bAuthorization = u.m_bAuthorization ∧ v.m_bPicturePresent = u.m_bPicturePresent ∧
    v.m_bSendIntIp = u.m_bSendIntIp ∧ v.m_bAwaitingAuth = u.m_bAwaitingAuth ∧
    v.m_bUseGPG = u.m_bUseGPG ∧ v.m_bSendServer = u.m_bSendServer
  lists : v.myOnVisibleList = u.myOnVisibleList ∧ v.myOnInvisibleList = u.myOnInvisibleList ∧
    v.myOnIgnoreList = u.myOnIgnoreList ∧ v.myOnlineNotify = u.myOnlineNotify ∧
    v.myNewUser = u.myNewUser
  times : v.lastOnline = u.lastOnline ∧ v.lastSentEvent = u.lastSentEvent ∧
    v.lastReceivedEvent = u.lastReceivedEvent ∧
    v.lastCheckedAutoResponse = u.lastCheckedAutoResponse ∧ v.m_nRegisteredTime = u.m_nRegisteredTime
  autoAccept : v.myAcceptInAway = u.myAcceptInAway ∧
    v.myAcceptInNotAvailable = u.myAcceptInNotAvailable ∧
    v.myAcceptInOccupied = u.myAcceptInOccupied ∧
    v.myAcceptInDoNotDisturb = u.myAcceptInDoNotDisturb ∧ v.myAutoAcceptChat = u.myAutoAcceptChat ∧
    v.myAutoAcceptFile = u.myAutoAcceptFile ∧ v.myAutoSecure = u.myAutoSecure
  myStatusToUser : v.myStatusToUser = u.myStatusToUser ↔ u.myStatusToUser ∈ shownStatuses
  myCustomAutoResponse : v.myCustomAutoResponse = u.myCustomAutoResponse
  myGpgKey : v.myGpgKey = u.myGpgKey
  myGroups : v.myGroups = u.myGroups ↔ ∀ g ∈ u.myGroups, 0 < g
  myServerGroup : (if s.canSingleGroup then 0 ≤ u.myServerGroup else u.myServerGroup = -1) →
    v.myServerGroup = u.myServerGroup

theorem Restored.encoding {s : Session} {v : User} (h : Restored s u v) (myEncoding : List Char) :
    Restored s u { v with myEncoding := myEncoding } := { h with }

/-- A property is read as it was set. -/
theorem getProperty_of_get {key : List Char} {p : Property}
    (h : get ini key = some p.text) (hp : ∀ n, p = .uint n → n < 2 ^ 32) :
    getProperty ini key p.type = p := by
  cases p with
  | string value => exact congrArg Property.string (getString_of_get h [])
  | uint n => exact congrArg Property.uint (getUnsigned_of_get h (hp n rfl) 0)
  | bool b => exact congrArg Property.bool (getBool_of_get h false)

/-- **The properties are read as they were set.** -/
theorem properties_eq (hu : u.Typed)
    (hget : ∀ p ∈ u.myUserInfo, get ini p.1 = some p.2.text) :
    initUserInfo.map (fun p => (p.1, getProperty ini p.1 p.2.type)) = u.myUserInfo := by
  have hread : initUserInfo.map (fun p => (p.1, getProperty ini p.1 p.2.type))
      = u.myUserInfo.map fun p => (p.1, getProperty ini p.1 p.2.type) := by
    have := congrArg (map fun x : List Char × PropertyType => (x.1, getProperty ini x.1 x.2))
      hu.properties
    rw [map_map, map_map] at this
    exact this.symm
  rw [hread]
  refine (map_congr_left fun p hp => ?_).trans (map_id _)
  rw [getProperty_of_get (hget p hp) (hu.uints p hp)]
  rfl

theorem filter_pos_eq_self_iff (groups : Finset ℤ) :
    groups.filter (0 < ·) = groups ↔ ∀ g ∈ groups, 0 < g := Finset.filter_eq_self

/-- **The constructor restores what was set.** -/
theorem construct_restored (s : Session) (isUser : Bool) {myConf : IniFile} (hu : u.Typed)
    (hget : ∀ e ∈ entries own u n, get (setSection myConf userSection true).2 e.1 = some e.2) :
    Restored s u (User.construct s isUser myConf) ∧
      (User.construct s isUser myConf).myEncoding = u.myEncoding := by
  generalize hini : (setSection myConf userSection true).2 = ini at hget
  have huser : ∀ {k : ℕ} {e : Entry}, (userInfo u)[k]? = some e → get ini e.1 = some e.2 :=
    fun h => hget _ (by simp [entries, mem_of_getElem? h])
  have hlicq : ∀ {k : ℕ} {e : Entry}, (licqInfo u n)[k]? = some e → get ini e.1 = some e.2 :=
    fun h => hget _ (by simp [entries, mem_of_getElem? h])
  have hgroups : ∀ e ∈ groupInfo u, get ini e.1 = some e.2 :=
    fun e he => hget e (by simp [entries, he])
  have hproperties : ∀ p ∈ u.myUserInfo, get ini p.1 = some p.2.text := fun p hp =>
    hget (p.1, p.2.text) (by
      simp only [entries, userInfo, mem_append, mem_cons, mem_map]
      exact .inl (.inl (.inl (.inl (.inl (.inr (.inr (.inr (.inr ⟨p, hp, rfl⟩)))))))))
  have htime : ∀ {key : List Char} {t : ℤ}, t ∈ [u.lastOnline, u.lastSentEvent, u.lastReceivedEvent,
      u.lastCheckedAutoResponse, u.m_nRegisteredTime] → get ini key = some (decimal (toULong t)) →
      toTime (getULong ini key 0) = t := fun ht h => by
    rw [getULong_of_get h (toULong_lt _), toTime_toULong (hu.times _ ht).1 (hu.times _ ht).2]
  have honline := @htime lastOnlineKey u.lastOnline (by simp) (hlicq (k := 9) rfl)
  have hsent := @htime lastSentKey u.lastSentEvent (by simp) (hlicq (k := 10) rfl)
  have hreceived := @htime lastRecvKey u.lastReceivedEvent (by simp) (hlicq (k := 11) rfl)
  have hchecked := @htime lastCheckedARKey u.lastCheckedAutoResponse (by simp) (hlicq (k := 12) rfl)
  have hregistered := @htime registeredTimeKey u.m_nRegisteredTime (by simp) (hlicq (k := 13) rfl)
  have hflags : getUnsigned ini autoAcceptKey 0 = autoAcceptFlags u :=
    getUnsigned_of_get (hlicq (k := 14) rfl) (autoAcceptFlags_lt u) 0
  have hstatus : get ini statusToUserKey = some (decimal (icqStatusToUser u.myStatusToUser)) :=
    hlicq (k := 15) rfl
  obtain ⟨haway, hna, hoccupied, hdnd, hchat, hfile, hsecure⟩ := has_autoAcceptFlags u
  rw [User.construct]
  simp only [hini]
  exact ⟨
    { myAlias := getString_of_get (huser (k := 0) rfl) _
      myTimezone := by
        rw [getInt_of_get (huser (k := 2) rfl) hu.timezone.1 hu.timezone.2, readTimezone_eq_self_iff]
      myUserInfo := properties_eq hu hproperties
      flags := ⟨getBool_of_get (huser (k := 3) rfl) _,
        getBool_of_get (hget (picturePresentKey, boolText u.m_bPicturePresent) (by simp [entries])) _,
        getBool_of_get (hlicq (k := 17) rfl) _, getBool_of_get (hlicq (k := 19) rfl) _,
        getBool_of_get (hlicq (k := 20) rfl) _, getBool_of_get (hlicq (k := 22) rfl) _⟩
      lists := ⟨getBool_of_get (hlicq (k := 0) rfl) _, getBool_of_get (hlicq (k := 1) rfl) _,
        getBool_of_get (hlicq (k := 2) rfl) _, getBool_of_get (hlicq (k := 3) rfl) _,
        getBool_of_get (hlicq (k := 4) rfl) _⟩
      times := by
        dsimp only
        exact ⟨honline, hsent, hreceived, hchecked, hregistered⟩
      autoAccept := by
        rw [hflags]
        exact ⟨haway, hna, hoccupied, hdnd, hchat, hfile, hsecure⟩
      myStatusToUser := by
        rw [getUnsigned_of_get hstatus (icqStatusToUser_lt _), statusOfIcq_icqStatusToUser_iff]
      myCustomAutoResponse := getString_of_get (hlicq (k := 16) rfl) _
      myGpgKey := getString_of_get (hlicq (k := 21) rfl) _
      myGroups := by rw [loadGroups_eq hu hgroups, filter_pos_eq_self_iff]
      myServerGroup := fun hgroup => by
        rw [loadServerGroup]
        by_cases hsingle : s.canSingleGroup
        · rw [if_pos hsingle] at hgroup ⊢
          have hset : get ini serverGroupKey = some (decimalInt u.myServerGroup) :=
            hget (serverGroupKey, decimalInt u.myServerGroup)
              (by simp [entries, licqInfo, show -1 < u.myServerGroup by omega])
          rw [hset]
          exact getInt_of_get hset hu.serverGroup.1 hu.serverGroup.2 0
        · rw [if_neg hsingle] at hgroup ⊢
          exact hgroup.symm },
    getString_of_get (hlicq (k := 18) rfl) _⟩

/-- What reading an owner restores besides its encoding, and when. -/
structure OwnerRestored (tr : List Char → List Char) (o v : Owner) : Prop where
  myEncoding : v.myEncoding = o.myEncoding ↔ o.myEncoding ≠ []
  myPassword : v.myPassword = o.myPassword ↔ o.m_bSavePassword = true ∨ o.myPassword = []
  myStartupStatus : (∀ t, tr t = t) →
    (v.myStartupStatus = o.myStartupStatus ↔ o.myStartupStatus ∈ namedStatuses)
  myServerHost : v.myServerHost = o.myServerHost
  myServerPort : v.myServerPort = o.myServerPort
  myAutoResponse : v.myAutoResponse = o.myAutoResponse
  myUseGlobalStatus : v.myUseGlobalStatus = o.myUseGlobalStatus

theorem ownEntries_nil : OwnEntries u [] := ⟨[], nil_sublist _, nofun⟩

theorem ownEntries_ownerInfo (tr : List Char → List Char) (o : Owner) :
    OwnEntries o.toUser (ownerInfo tr o) := by
  refine ⟨(ownerInfo tr o).tail, List.Sublist.refl ownerKeys, fun e he => ?_⟩
  rw [ownerInfo] at he ⊢
  exact mem_cons.mp he

/-- **The constructor of an owner restores what was set for it.** -/
theorem construct_ownerRestored (s : Session) {tr : List Char → List Char} {o : Owner}
    {myConf : IniFile} (hport : -2 ^ 31 ≤ o.myServerPort ∧ o.myServerPort < 2 ^ 31)
    (hencoding : (User.construct s false myConf).myEncoding = o.myEncoding)
    (hget : ∀ e ∈ ownerInfo tr o, get (setSection myConf userSection true).2 e.1 = some e.2) :
    OwnerRestored tr o (Owner.construct s myConf) := by
  rw [Owner.construct]
  simp only [hencoding]
  generalize (setSection myConf userSection true).2 = ini at hget
  have hown : ∀ {k : ℕ} {e : Entry}, (ownerInfo tr o)[k]? = some e → get ini e.1 = some e.2 :=
    fun h => hget _ (mem_of_getElem? h)
  have hpassword : getString ini passwordKey [] = if o.m_bSavePassword then o.myPassword else [] :=
    getString_of_get (hown (k := 6) rfl) []
  have hstatus : getString ini startupStatusKey [] = statusToString tr o.myStartupStatus true true :=
    getString_of_get (hown (k := 1) rfl) []
  exact
    { myEncoding := by
        by_cases h : o.myEncoding = []
        · simp [h, utf8]
        · simp [h]
      myPassword := by
        rw [hpassword]
        cases o.m_bSavePassword with
        | true => simp
        | false => simp [eq_comm]
      myStartupStatus := fun htr => by
        rw [hstatus, stringToStatus_statusToString_iff htr]
      myServerHost := getString_of_get (hown (k := 2) rfl) _
      myServerPort := getInt_of_get (hown (k := 3) rfl) hport.1 hport.2 0
      myAutoResponse := getString_of_get (hown (k := 4) rfl) _
      myUseGlobalStatus := getBool_of_get (hown (k := 5) rfl) _ }

/-! ## The settings of a contact, and those of an owner -/

theorem save_construct (s : Session) (h : Savable myConf) (hu : u.Typed)
    (hnul : ∀ e ∈ entries [] u n, Char.ofNat 0 ∉ e.2) :
    ∃ f, save [] u n myConf = some f ∧ Savable f ∧ Restored s u (User.construct s true f.restart) ∧
      (User.construct s true f.restart).myEncoding = u.myEncoding := by
  obtain ⟨f, hsave, hsavable, hget⟩ := save_spec h hu ownEntries_nil hnul
  exact ⟨f, hsave, hsavable, construct_restored s true hu hget⟩

theorem save_constructOwner (s : Session) (tr : List Char → List Char) {o : Owner}
    (h : Savable myConf) (ho : o.Typed) (hport : -2 ^ 31 ≤ o.myServerPort ∧ o.myServerPort < 2 ^ 31)
    (hnul : ∀ e ∈ entries (ownerInfo tr o) o.toUser n, Char.ofNat 0 ∉ e.2) :
    ∃ f, save (ownerInfo tr o) o.toUser n myConf = some f ∧ Savable f ∧
      Restored s o.toUser (Owner.construct s f.restart).toUser ∧
      OwnerRestored tr o (Owner.construct s f.restart) := by
  obtain ⟨f, hsave, hsavable, hget⟩ := save_spec h ho (ownEntries_ownerInfo tr o) hnul
  obtain ⟨hrestored, hencoding⟩ := construct_restored s false ho hget
  exact ⟨f, hsave, hsavable, hrestored.encoding _,
    construct_ownerRestored s hport hencoding fun e he => hget e (by simp [entries, he])⟩

/-- **Saving everything and constructing again.**  Every setting of a contact or of an owner is
restored, those that have another meaning where they are read exactly when they do not have it; and the
file can be saved to again. -/
theorem restores_settings (s : Session) (tr : List Char → List Char) (n : ℕ) {myConf : ConfFile}
    (h : Savable myConf) :
    (∀ u : User, u.Typed → (∀ e ∈ entries [] u n, Char.ofNat 0 ∉ e.2) →
      ∃ f, save [] u n myConf = some f ∧ Savable f ∧ Restored s u (User.construct s true f.restart) ∧
        (User.construct s true f.restart).myEncoding = u.myEncoding) ∧
    ∀ o : Owner, o.Typed → -2 ^ 31 ≤ o.myServerPort ∧ o.myServerPort < 2 ^ 31 →
      (∀ e ∈ entries (ownerInfo tr o) o.toUser n, Char.ofNat 0 ∉ e.2) →
      ∃ f, save (ownerInfo tr o) o.toUser n myConf = some f ∧ Savable f ∧
        Restored s o.toUser (Owner.construct s f.restart).toUser ∧
        OwnerRestored tr o (Owner.construct s f.restart) :=
  ⟨fun _ hu hnul => save_construct s h hu hnul,
    fun _ ho hport hnul => save_constructOwner s tr h ho hport hnul⟩

/-! ### A contact and an owner -/

/-- A protocol with single groups, and an interface that is not translated. -/
def singleGroups : Session := ⟨id, false, true, fun _ => 0⟩

/-- The file of the user, with some more lines. -/
def fileWith (text : List Char) : ConfFile :=
  ConfFile.opened (some (header userSection ++ ['\n'] ++ text))

/-- A contact with an alias, in a group. -/
def contact : User :=
  { User.construct singleGroups true empty with
    myAlias := ['A', 'n', 'n'], myTimezone := 3600, myStatusToUser := OnlineStatus ||| AwayStatus,
    myGroups := {2}, myServerGroup := 3 }

/-- An owner that is away when it starts. -/
def owner : Owner :=
  { contact with
    myEncoding := utf8, m_bSavePassword := true, myPassword := ['p'], myAutoResponse := [],
    myStartupStatus := OnlineStatus ||| AwayStatus, myServerHost := ['h'], myServerPort := 5190,
    myUseGlobalStatus := true }

theorem User.Typed.change (h : u.Typed) {myTimezone : ℤ} {myGroups : Finset ℤ}
    (htimezone : -2 ^ 31 ≤ myTimezone ∧ myTimezone < 2 ^ 31)
    (hgroups : ∀ g ∈ myGroups, -2 ^ 31 ≤ g ∧ g < 2 ^ 31) (hcount : myGroups.card < 2 ^ 32)
    (myAlias : List Char) (myStatusToUser : ℕ) :
    { u with
      myAlias := myAlias, myTimezone := myTimezone, myStatusToUser := myStatusToUser,
      myGroups := myGroups }.Typed :=
  { h with timezone := htimezone, groups := hgroups, groupCount := hcount }

theorem User.Typed.encoding (h : u.Typed) (myEncoding : List Char) :
    { u with myEncoding := myEncoding }.Typed := { h with }

theorem typed_contact : contact.Typed where
  timezone := by decide
  serverGroup := by decide
  times := by decide +kernel
  groups := by decide
  groupCount := by decide
  properties := by decide +kernel
  uints p hp n hn := by
    have huint : ∀ p ∈ contact.myUserInfo,
        p.2 = .uint (getUnsigned empty p.1 0) ∨ p.2.type ≠ .uint := by decide +kernel
    have hzero : ∀ p ∈ contact.myUserInfo, getUnsigned empty p.1 0 = 0 := by decide +kernel
    rcases huint p hp with h | h
    · have := Property.uint.inj (hn.symm.trans h)
      rw [hzero p hp] at this
      omega
    · exact absurd (by rw [hn]; rfl) h

theorem typed_owner : owner.Typed := typed_contact.encoding utf8

theorem savable_fileWith_nil : Savable (fileWith []) where
  exists_file := by decide
  sync := ConfFile.inSync_loadFile (by decide +kernel)
  noneBehind key _ hhas := by
    have hlast : ((ConfFile.loadFile (fileWith [])).2.ini.sectionsFrom
        (sectionName userSection)).tail = [] := by decide +kernel
    obtain ⟨s, hs, -⟩ := hlast ▸ hhas
    cases hs

theorem restores_settings_contact :
    (∃ f, save [] contact 0 (fileWith []) = some f ∧ Savable f ∧
      Restored singleGroups contact (User.construct singleGroups true f.restart) ∧
      (User.construct singleGroups true f.restart).myEncoding = contact.myEncoding) ∧
    ∃ f, save (ownerInfo id owner) owner.toUser 0 (fileWith []) = some f ∧ Savable f ∧
      Restored singleGroups owner.toUser (Owner.construct singleGroups f.restart).toUser ∧
      OwnerRestored id owner (Owner.construct singleGroups f.restart) := by
  obtain ⟨hcontact, howner⟩ := restores_settings singleGroups id 0 savable_fileWith_nil
  exact ⟨hcontact contact typed_contact (by decide +kernel),
    howner owner typed_owner (by decide) (by decide +kernel)⟩

/-- A contact whose settings are taken for others. -/
def misread : User :=
  { contact with
    myTimezone := 12, myStatusToUser := OnlineStatus ||| IdleStatus, myGroups := {0} }

/-- An owner without an encoding, that does not save its password and starts idle and away. -/
def forgetful : Owner :=
  { owner with
    myEncoding := [], m_bSavePassword := false,
    myStartupStatus := OnlineStatus ||| AwayStatus ||| IdleStatus }

/-- A contact whose alias is one character. -/
def nameless (c : Char) : User := { contact with myAlias := [c] }

theorem typed_nameless (c : Char) : (nameless c).Typed :=
  typed_contact.change typed_contact.timezone typed_contact.groups typed_contact.groupCount _ _

/-- The word that the interface shows for a status. -/
def german (t : List Char) : List Char :=
  if t = ['A', 'w', 'a', 'y'] then ['A', 'b', 'w', 'e', 's', 'e', 'n', 'd'] else t

/-- A line with two spaces on each side of the sign, and a later section with an old parameter. -/
def oddLines : List Char :=
  aliasKey ++ [' ', ' ', '=', ' ', ' ', 'x', '\n'] ++ ['[', 'x', ']', '\n'] ++ historyKey ++
    ['=', '1', '\n']

/-- A contact on a list, with a server group that its setter takes. -/
def listed : User := { contact with myOnVisibleList := true, myServerGroup := -5 }

/-- **Settings that are not restored**: those with another meaning; a text with a null character; a
server group below zero; the startup status in another language; and settings whose file is missing, has
a line with two spaces on each side of its sign, or a later section with an old parameter. -/
theorem not_restores_settings :
    (∃ f, save [] misread 0 (fileWith []) = some f ∧
      (User.construct singleGroups true f.restart).myTimezone ≠ misread.myTimezone ∧
      (User.construct singleGroups true f.restart).myStatusToUser ≠ misread.myStatusToUser ∧
      (User.construct singleGroups true f.restart).myGroups ≠ misread.myGroups) ∧
    (∃ f, save (ownerInfo id forgetful) forgetful.toUser 0 (fileWith []) = some f ∧
      (Owner.construct singleGroups f.restart).myEncoding ≠ forgetful.myEncoding ∧
      (Owner.construct singleGroups f.restart).myPassword ≠ forgetful.myPassword ∧
      (Owner.construct singleGroups f.restart).myStartupStatus ≠ forgetful.myStartupStatus) ∧
    (∃ f, save (ownerInfo german owner) owner.toUser 0 (fileWith []) = some f ∧
      (Owner.construct singleGroups f.restart).myStartupStatus ≠ owner.myStartupStatus) ∧
    (∃ f, save [] (nameless (Char.ofNat 0)) 0 (fileWith []) = some f ∧
      (User.construct singleGroups true f.restart).myAlias ≠ (nameless (Char.ofNat 0)).myAlias) ∧
    (∃ f, save [] contact 0 (ConfFile.opened none) = some f ∧
      (User.construct singleGroups true f.restart).myAlias ≠ contact.myAlias) ∧
    (save [] listed 0 (fileWith oddLines)).map (fun f =>
      let v := User.construct singleGroups true f.restart
      (v.myAlias, v.myOnVisibleList, v.myServerGroup)) = some (['x'], false, 0) := by
  refine ⟨?_, ?_, ?_, ?_, ?_, ?_⟩
  · obtain ⟨f, hsave, -, hread, -⟩ := save_construct (u := misread) (n := 0) singleGroups
      savable_fileWith_nil (typed_contact.change (by decide) (by decide) (by decide) _ _)
      (by decide +kernel)
    refine ⟨f, hsave, fun h => ?_, fun h => ?_, fun h => ?_⟩
    · exact absurd (hread.myTimezone.mp h) (by decide)
    · exact absurd (hread.myStatusToUser.mp h) (by decide)
    · exact absurd (hread.myGroups.mp h) (by decide)
  · obtain ⟨f, hsave, -, -, hread⟩ := save_constructOwner (o := forgetful) (n := 0) singleGroups id
      savable_fileWith_nil (typed_owner.encoding []) (by decide) (by decide +kernel)
    refine ⟨f, hsave, fun h => ?_, fun h => ?_, fun h => ?_⟩
    · exact absurd (hread.myEncoding.mp h) (by decide)
    · exact absurd (hread.myPassword.mp h) (by decide)
    · exact absurd ((hread.myStartupStatus fun _ => rfl).mp h) (by decide)
  · obtain ⟨f, hsave, -, hget⟩ := save_spec (n := 0) savable_fileWith_nil typed_owner
      (ownEntries_ownerInfo german owner) (by decide +kernel)
    refine ⟨f, hsave, ?_⟩
    have hstatus := hget (startupStatusKey, _)
      (by simp only [entries, List.mem_append]
          exact .inl (.inl (.inr (List.mem_cons_of_mem _ List.mem_cons_self))))
    rw [Owner.construct]
    simp only [getString_of_get hstatus]
    decide
  · obtain ⟨ini', -, -, -, -, -, hsave, -⟩ :=
      save_eq savable_fileWith_nil (typed_nameless (Char.ofNat 0)) ownEntries_nil 0
    refine ⟨_, hsave, fun h => ?_⟩
    have hmem : Char.ofNat 0 ∈ (nameless (Char.ofNat 0)).myAlias := List.mem_cons_self
    rw [← h, User.construct] at hmem
    revert hmem
    simp only [getString]
    cases hget : get _ aliasKey with
    | none => decide
    | some value =>
      exact nul_notMem_get (nul_notMem_setSection (ConfFile.nul_notMem_restart _) _ _) hget
  · exact ⟨_, rfl, by decide +kernel⟩
  · decide +kernel

end Licq.UserConf
