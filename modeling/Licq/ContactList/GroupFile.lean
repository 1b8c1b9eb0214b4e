import Mathlib.Data.List.Sort
import Licq.ContactList.Groups
import Licq.ContactList.Owners
import Licq.IniFile.KeyList

/-!
# ContactList/GroupFile — saving and loading the groups

`SaveGroups` numbers the groups by their place in the map and writes each under its number,
`Group::save`; the groups part of `Load` reads as many numbers back.  A group keeps a server id for
each owner, and the owner is a part of the name of the parameter: `set` refuses some names, and
nobody removes a name that an earlier group left under the same number.

The **main result** `restoresGroups_iff` says for which groups and which file loading gives back
what was saved.
-/

namespace Licq

open Text IniFile List

/-! ## Server ids of a group -/

namespace Group

/-- `serverId`; 0 if there is none. -/
def serverId (group : Group) (ownerId : UserId) : ℕ :=
  ((group.serverIds.find? fun s => s.1 = ownerId).map Prod.snd).getD 0

/-- The server ids with one more, or with one replaced. -/
def insertServerId (ownerId : UserId) (serverId : ℕ) (serverIds : List (UserId × ℕ)) :
    List (UserId × ℕ) :=
  (serverIds.filter fun s => s.1 ≠ ownerId).orderedInsert (fun a b => a.1 ≤ b.1) (ownerId, serverId)

theorem perm_insertServerId (ownerId : UserId) (serverId : ℕ) (serverIds : List (UserId × ℕ)) :
    (insertServerId ownerId serverId serverIds).Perm
      ((ownerId, serverId) :: serverIds.filter fun s => s.1 ≠ ownerId) :=
  perm_orderedInsert _ _ _

theorem nodup_insertServerId (ownerId : UserId) (serverId : ℕ) {serverIds : List (UserId × ℕ)}
    (h : (serverIds.map Prod.fst).Nodup) :
    ((insertServerId ownerId serverId serverIds).map Prod.fst).Nodup := by
  rw [((perm_insertServerId ownerId serverId serverIds).map Prod.fst).nodup_iff, map_cons,
    nodup_cons]
  refine ⟨fun hmem => ?_, h.sublist (filter_sublist.map _)⟩
  obtain ⟨s, hs, rfl⟩ := mem_map.mp hmem
  simpa using (mem_filter.mp hs).2

def setServerId (group : Group) (ownerId : UserId) (serverId : ℕ) : Group :=
  ⟨group.name, group.sortIndex, insertServerId ownerId serverId group.serverIds,
    nodup_insertServerId ownerId serverId group.serverIds_nodup⟩

/-- The entry of an owner is found. -/
theorem find?_eq_some_iff {serverIds : List (UserId × ℕ)} (h : (serverIds.map Prod.fst).Nodup)
    {s : UserId × ℕ} {ownerId : UserId} :
    serverIds.find? (fun s => s.1 = ownerId) = some s ↔ s ∈ serverIds ∧ s.1 = ownerId := by
  constructor
  · intro hfind
    exact ⟨mem_of_find?_eq_some hfind, by simpa using find?_some hfind⟩
  · rintro ⟨hmem, rfl⟩
    obtain ⟨x, hx⟩ := Option.isSome_iff_exists.mp
      (find?_isSome (p := fun x : UserId × ℕ => decide (x.1 = s.1)) |>.mpr ⟨s, hmem, by simp⟩)
    have hfst : x.1 = s.1 := by simpa using find?_some hx
    obtain rfl := inj_on_of_nodup_map h (mem_of_find?_eq_some hx) hmem hfst
    exact hx

/-- **Setting the server id of an owner** leaves those of the others. -/
theorem serverId_setServerId (group : Group) (ownerId o : UserId) (serverId : ℕ) :
    (group.setServerId ownerId serverId).serverId o
      = if o = ownerId then serverId else group.serverId o := by
  have hnodup := nodup_insertServerId ownerId serverId group.serverIds_nodup
  have hmem : ∀ {s : UserId × ℕ}, s ∈ insertServerId ownerId serverId group.serverIds ↔
      s = (ownerId, serverId) ∨ s ∈ group.serverIds ∧ s.1 ≠ ownerId := by
    intro s
    rw [(perm_insertServerId ownerId serverId group.serverIds).mem_iff]
    simp
  have hfind : (insertServerId ownerId serverId group.serverIds).find? (fun s => s.1 = o)
      = if o = ownerId then some (ownerId, serverId)
        else group.serverIds.find? fun s => s.1 = o := by
    refine Option.ext fun s => ?_
    rw [find?_eq_some_iff hnodup, hmem]
    split_ifs with ho
    · subst ho
      constructor
      · rintro ⟨rfl | ⟨-, hne⟩, hs⟩
        · rfl
        · exact absurd hs hne
      · rintro ⟨⟩
        exact ⟨Or.inl rfl, rfl⟩
    · rw [find?_eq_some_iff group.serverIds_nodup]
      constructor
      · rintro ⟨rfl | ⟨hs, -⟩, rfl⟩
        · exact absurd rfl ho
        · exact ⟨hs, rfl⟩
      · rintro ⟨hs, rfl⟩
        exact ⟨Or.inr ⟨hs, ho⟩, rfl⟩
  change ((List.find? _ (insertServerId _ _ _)).map Prod.snd).getD 0 = _
  rw [hfind]
  split_ifs <;> rfl

end Group

/-! ## Saving -/

def groupsSection : List Char := ['g', 'r', 'o', 'u', 'p', 's']

def numOfGroups : List Char := ['N', 'u', 'm', 'O', 'f', 'G', 'r', 'o', 'u', 'p', 's']

/-- "Group%d." -/
def groupPrefix (num : ℕ) : List Char := ['G', 'r', 'o', 'u', 'p'] ++ decimal num ++ ['.']

def groupIdKey (num : ℕ) : List Char := groupPrefix num ++ ['i', 'd']

def groupNameKey (num : ℕ) : List Char := groupPrefix num ++ ['n', 'a', 'm', 'e']

def groupSortingKey (num : ℕ) : List Char :=
  groupPrefix num ++ ['S', 'o', 'r', 't', 'i', 'n', 'g']

/-- "Group%d.ServerId." -/
def serverIdPrefix (num : ℕ) : List Char :=
  groupPrefix num ++ ['S', 'e', 'r', 'v', 'e', 'r', 'I', 'd', '.']

/-- The loop of `Group::save`. -/
def saveServerIds (num : ℕ) : List (UserId × ℕ) → IniFile → Option IniFile
  | [], file => some file
  | (ownerId, serverId) :: serverIds, file => do
    let (_, file) ← set file (serverIdPrefix num ++ ownerId.toString) (decimal serverId)
    saveServerIds num serverIds file

/-- `Group::save` -/
def Group.save (myId : ℤ) (group : Group) (file : IniFile) (num : ℕ) : Option IniFile := do
  let (_, file) ← set file (groupIdKey num) (decimalInt myId)
  let (_, file) ← set file (groupNameKey num) group.name
  let (_, file) ← set file (groupSortingKey num) (decimalInt group.sortIndex)
  saveServerIds num group.serverIds file

/-- The loop of `SaveGroups` over the groups. -/
def saveGroupsFrom (i : ℕ) : List (Σ _ : ℤ, Group) → IniFile → Option (ℕ × IniFile)
  | [], file => some (i, file)
  | group :: groups, file => do
    let file ← group.2.save group.1 file i
    saveGroupsFrom (i + 1) groups file

/-- Don't leave old higher numbered groups in config. -/
def unsetGroups : ℕ → IniFile → ℕ → Option IniFile
  | 0, _, _ => none
  | fuel + 1, ini, i =>
    let groupKeys := getKeyList ini (groupPrefix i)
    if groupKeys = [] then some ini else unsetGroups fuel (unsetAll ini groupKeys) (i + 1)

def saveGroups (myGroups : GroupMap) (licqConf : ConfFile) : Option ConfFile := do
  -- Load the group info from licq.conf
  let licqConf := (ConfFile.loadFile licqConf).2
  let ini := (setSection licqConf.ini groupsSection true).2
  let (_, ini) ← set ini numOfGroups (decimal myGroups.size)
  let (i, ini) ← saveGroupsFrom 1 myGroups.entries ini
  let ini ← unsetGroups (ini.myConfigData.length + 1) ini i
  some (ConfFile.writeFile { licqConf with ini := ini }).2

/-! ## Loading -/

/-- One turn of the loop of `Load` over the server ids of a group. -/
def loadServerId (plugins : List ProtocolPlugin) (oldOwners : List (ℕ × List Char)) (num : ℕ)
    (ini : IniFile) (newGroup : Group) (serverIdKey : List Char) : Option (IniFile × Group) :=
  let serverId := getULong ini serverIdKey 0
  let id := serverIdKey.drop (serverIdPrefix num).length
  let protocolId := protocolIdFromString plugins (id.take 4)
  if id.length ≤ 4 then
    -- Old (pre 1.8.0) config with only protocol id
    match oldOwners.lookup protocolId with
    | some accountId => do
      -- Update configuration with full owner id in key
      let (_, ini) ← set (unset ini serverIdKey).2 (serverIdKey ++ accountId) (decimal serverId)
      some (ini, if accountId = [] then newGroup
        else newGroup.setServerId (UserId.owner protocolId accountId) serverId)
    | none => some (ini, newGroup)
  else some (ini, newGroup.setServerId (UserId.owner protocolId (id.drop 4)) serverId)

def loadServerIds (plugins : List ProtocolPlugin) (oldOwners : List (ℕ × List Char)) (num : ℕ) :
    List (List Char) → IniFile → Group → Option (IniFile × Group)
  | [], ini, newGroup => some (ini, newGroup)
  | serverIdKey :: serverIdKeys, ini, newGroup => do
    let (ini, newGroup) ← loadServerId plugins oldOwners num ini newGroup serverIdKey
    loadServerIds plugins oldOwners num serverIdKeys ini newGroup

/-- One turn of the loop of `Load` over the groups. -/
def loadGroup (plugins : List ProtocolPlugin) (oldOwners : List (ℕ × List Char)) (i : ℕ)
    (ini : IniFile) (myGroups : GroupMap) : Option (IniFile × GroupMap) := do
  let newGroup : Group := ⟨getString ini (groupNameKey i) [],
    getInt ini (groupSortingKey i) (i - 1), [], List.nodup_nil⟩
  let groupId := getInt ini (groupIdKey i) 0
  let (ini, newGroup) ←
    loadServerIds plugins oldOwners i (getKeyList ini (serverIdPrefix i)) ini newGroup
  some (ini, myGroups.insert groupId newGroup)

/-- The loop of `Load` over the groups, with the number of groups that are left. -/
def loadGroupsFrom (plugins : List ProtocolPlugin) (oldOwners : List (ℕ × List Char)) :
    ℕ → ℕ → IniFile → GroupMap → Option (IniFile × GroupMap)
  | 0, _, ini, myGroups => some (ini, myGroups)
  | left + 1, i, ini, myGroups => do
    let (ini, myGroups) ← loadGroup plugins oldOwners i ini myGroups
    loadGroupsFrom plugins oldOwners left (i + 1) ini myGroups

/-- The groups part of `Load`; none where the counter, an `unsigned`, cannot pass the number. -/
def loadGroups (plugins : List ProtocolPlugin) (oldOwners : List (ℕ × List Char))
    (licqConf : IniFile) : Option (IniFile × GroupMap) :=
  let ini := (setSection licqConf groupsSection true).2
  let nGroups := getUnsigned ini numOfGroups 0
  if nGroups = 2 ^ 32 - 1 then none
  else loadGroupsFrom plugins oldOwners nGroups 1 ini SortedMap.empty

/-! ## What is claimed of them -/

/-- The groups have the same name, sorting index and server ids. -/
def SameGroup (a b : Group) : Prop :=
  a.name = b.name ∧ a.sortIndex = b.sortIndex ∧ ∀ ownerId, a.serverId ownerId = b.serverId ownerId

/-- **Saving the groups and loading the file again restores the groups.** -/
def RestoresGroups (plugins : List ProtocolPlugin) (oldOwners : List (ℕ × List Char))
    (myGroups : GroupMap) (licqConf : ConfFile) : Prop :=
  ∃ f ini r, saveGroups myGroups licqConf = some f ∧
    loadGroups plugins oldOwners f.restart = some (ini, r) ∧
    ∀ id, Option.Rel SameGroup (r.find? id) (myGroups.find? id)

/-- The numbers are of the types that hold them: `int` ids and sorting indexes, and an `int` that
counts the groups. -/
structure GroupMap.Fits (myGroups : GroupMap) : Prop where
  count : myGroups.size < 2 ^ 31
  ids : ∀ group ∈ myGroups.entries, -2 ^ 31 ≤ group.1 ∧ group.1 < 2 ^ 31
  sortIndexes : ∀ group ∈ myGroups.entries,
    -2 ^ 31 ≤ group.2.sortIndex ∧ group.2.sortIndex < 2 ^ 31

/-- The parameters of the server ids of a group. -/
def serverEntries (num : ℕ) (group : Group) : List Entry :=
  group.serverIds.map fun s => (serverIdPrefix num ++ s.1.toString, decimal s.2)

/-- The owner in the name of a server id parameter; none in the format that has a protocol only. -/
def ownerOfKey (plugins : List ProtocolPlugin) (num : ℕ) (serverIdKey : List Char) :
    Option UserId :=
  let id := serverIdKey.drop (serverIdPrefix num).length
  if id.length ≤ 4 then none
  else some (UserId.owner (protocolIdFromString plugins (id.take 4)) (id.drop 4))

/-- The server id parameters under a number: those in the file, and behind them the names that the
group has, that `set` accepts and that are not there. -/
def serverKeys (num : ℕ) (group : Group) (ls : List Line) : List (List Char) :=
  keysWith (serverIdPrefix num) (written (serverEntries num group)) ls

/-- The server id of a parameter: the one that the group has for that name, or else the one in the
file. -/
def serverIdOf (num : ℕ) (group : Group) (ls : List Line) (serverIdKey : List Char) : ℕ :=
  (valueWith (serverEntries num group) ls serverIdKey).elim 0 strtoul

/-- **The server ids survive**: for every owner, the last parameter that names it has the server id
of the group. -/
def ServerIdsKept (plugins : List ProtocolPlugin) (num : ℕ) (group : Group) (ls : List Line) :
    Prop :=
  ∀ ownerId, group.serverId ownerId =
    (((serverKeys num group ls).reverse.find? fun k => ownerOfKey plugins num k = some ownerId).map
      (serverIdOf num group ls)).getD 0

/-- No key is in the format of an old configuration, for an owner that is known. -/
def NewKeys (plugins : List ProtocolPlugin) (oldOwners : List (ℕ × List Char)) (num : ℕ)
    (keys : List (List Char)) : Prop :=
  ∀ k ∈ keys, (k.drop (serverIdPrefix num).length).length ≤ 4 →
    oldOwners.lookup (protocolIdFromString plugins ((k.drop (serverIdPrefix num).length).take 4))
      = none

/-- The lines of the groups before they are saved. -/
def groupLines (licqConf : ConfFile) : List Line :=
  (ConfFile.loadFile licqConf).2.ini.sectionLines (sectionName groupsSection)

/-! ## The names of the parameters -/

theorem groupPrefix_valid (num : ℕ) : (groupPrefix num).all keyChar = true := by
  rw [groupPrefix, all_append, all_append, decimal_all_keyChar]
  decide

theorem groupPrefix_ne_nil (num : ℕ) : groupPrefix num ≠ [] := by
  rw [groupPrefix]
  simp

variable {i num : ℕ} {myGroups : GroupMap} {ls : List Line}

/-- **A name has one number.** -/
theorem groupPrefix_unique {j : ℕ} {key : List Char} (hi : groupPrefix i <+: key)
    (hj : groupPrefix j <+: key) : i = j := by
  obtain ⟨s, rfl⟩ := hi
  obtain ⟨t, ht⟩ := hj
  simp only [groupPrefix, append_assoc, append_cancel_left_eq, singleton_append] at ht
  exact decimal_injective (append_nl_inj (dot_notMem_decimal j) (dot_notMem_decimal i) ht).1.symm

theorem not_groupPrefix_numOfGroups (num : ℕ) : ¬ groupPrefix num <+: numOfGroups := by
  rintro ⟨t, ht⟩
  have hhead : some 'G' = some 'N' := congrArg head? ht
  exact absurd hhead (by decide)

theorem serverIdPrefix_valid (num : ℕ) : (serverIdPrefix num).all keyChar = true := by
  rw [serverIdPrefix, all_append, groupPrefix_valid]
  decide

theorem serverIdPrefix_ne_nil (num : ℕ) : serverIdPrefix num ≠ [] := by
  rw [serverIdPrefix]
  simp

theorem groupPrefix_of_serverIdPrefix {key : List Char} (h : serverIdPrefix num <+: key) :
    groupPrefix num <+: key := (prefix_append _ _).trans h

/-- The parameters of a group. -/
def groupEntries (num : ℕ) (myId : ℤ) (group : Group) : List Entry :=
  (groupIdKey num, decimalInt myId) :: (groupNameKey num, group.name) ::
    (groupSortingKey num, decimalInt group.sortIndex) :: serverEntries num group

/-- The parameters of the groups, from a number on. -/
def groupsEntries (num : ℕ) : List (Σ _ : ℤ, Group) → List Entry
  | [] => []
  | group :: groups => groupEntries num group.1 group.2 ++ groupsEntries (num + 1) groups

/-- The parameters that `saveGroups` sets. -/
def savedGroups (myGroups : GroupMap) : List Entry :=
  (numOfGroups, decimal myGroups.size) :: groupsEntries 1 myGroups.entries

theorem groupPrefix_of_mem {myId : ℤ} {group : Group} {e : Entry}
    (h : e ∈ groupEntries num myId group) : groupPrefix num <+: e.1 := by
  simp only [groupEntries, mem_cons, serverEntries, mem_map] at h
  rcases h with rfl | rfl | rfl | ⟨s, -, rfl⟩
  · exact prefix_append _ _
  · exact prefix_append _ _
  · exact prefix_append _ _
  · exact groupPrefix_of_serverIdPrefix (prefix_append _ _)

theorem mem_groupsEntries {groups : List (Σ _ : ℤ, Group)} {e : Entry} :
    e ∈ groupsEntries num groups ↔
      ∃ i group, groups[i]? = some group ∧ e ∈ groupEntries (num + i) group.1 group.2 := by
  induction groups generalizing num with
  | nil => simp [groupsEntries]
  | cons g groups ih =>
    rw [groupsEntries, mem_append, ih]
    constructor
    · rintro (h | ⟨i, group, hi, h⟩)
      · exact ⟨0, g, rfl, h⟩
      · exact ⟨i + 1, group, hi, by rwa [Nat.add_right_comm] at h⟩
    · rintro ⟨i, group, hi, h⟩
      cases i with
      | zero =>
        obtain rfl : g = group := by simpa using hi
        exact Or.inl h
      | succ i => exact Or.inr ⟨i, group, hi, by rwa [Nat.add_right_comm, Nat.add_assoc]⟩

/-- The parameters whose names start with "Group%d.ServerId." are those of the server ids. -/
theorem filter_groupEntries (num : ℕ) (myId : ℤ) (group : Group) :
    (groupEntries num myId group).filter (fun e => serverIdPrefix num <+: e.1)
      = serverEntries num group := by
  have hserver : (serverEntries num group).filter (fun e => serverIdPrefix num <+: e.1)
      = serverEntries num group := by
    refine filter_eq_self.mpr fun e he => ?_
    obtain ⟨s, -, rfl⟩ := mem_map.mp he
    simp
  have hfield : ∀ field : List Char,
      ¬ ['S', 'e', 'r', 'v', 'e', 'r', 'I', 'd', '.'] <+: field →
      ¬ serverIdPrefix num <+: groupPrefix num ++ field := fun field h => by
    rwa [serverIdPrefix, prefix_append_right_inj]
  have hid : ¬ serverIdPrefix num <+: groupIdKey num := hfield _ (by decide)
  have hname : ¬ serverIdPrefix num <+: groupNameKey num := hfield _ (by decide)
  have hsorting : ¬ serverIdPrefix num <+: groupSortingKey num := hfield _ (by decide)
  rw [groupEntries, filter_cons_of_neg (by simpa using hid),
    filter_cons_of_neg (by simpa using hname),
    filter_cons_of_neg (by simpa using hsorting), hserver]

theorem filter_groupEntries_of_ne (hne : num ≠ i) (myId : ℤ) (group : Group) :
    (groupEntries i myId group).filter (fun e => serverIdPrefix num <+: e.1) = [] := by
  refine filter_eq_nil_iff.mpr fun e he hstart => hne ?_
  exact groupPrefix_unique (groupPrefix_of_serverIdPrefix (by simpa using hstart))
    (groupPrefix_of_mem he)

/-- **The parameters under a number are those of the group there.** -/
theorem filter_groupsEntries {num i : ℕ} {groups : List (Σ _ : ℤ, Group)} {group : Σ _ : ℤ, Group}
    (h : groups[i]? = some group) : (groupsEntries num groups).filter
      (fun e => serverIdPrefix (num + i) <+: e.1) = serverEntries (num + i) group.2 := by
  have hnone : ∀ {m : ℕ} (k : ℕ) (gs : List (Σ _ : ℤ, Group)), m < k →
      (groupsEntries k gs).filter (fun e => serverIdPrefix m <+: e.1) = [] := by
    intro m k gs hlt
    induction gs generalizing k with
    | nil => rfl
    | cons g gs ih =>
      rw [groupsEntries, filter_append, filter_groupEntries_of_ne (Nat.ne_of_lt hlt),
        ih (k + 1) (Nat.lt_succ_of_lt hlt), nil_append]
  induction groups generalizing num i with
  | nil => cases h
  | cons g groups ih =>
    rw [groupsEntries, filter_append]
    cases i with
    | zero =>
      obtain rfl : g = group := by simpa using h
      rw [Nat.add_zero, filter_groupEntries, hnone _ _ (Nat.lt_succ_self num), append_nil]
    | succ i =>
      have := @ih (num + 1) i h
      rw [Nat.add_right_comm, Nat.add_assoc] at this
      rw [filter_groupEntries_of_ne (by omega), this, nil_append]

theorem filter_savedGroups {group : Σ _ : ℤ, Group}
    (h : myGroups.entries[i]? = some group) :
    (savedGroups myGroups).filter (fun e => serverIdPrefix (i + 1) <+: e.1)
      = serverEntries (i + 1) group.2 := by
  have hnum : ¬ serverIdPrefix (i + 1) <+: numOfGroups := fun hstart =>
    not_groupPrefix_numOfGroups _ (groupPrefix_of_serverIdPrefix hstart)
  have := @filter_groupsEntries 1 i _ _ h
  rw [Nat.add_comm 1] at this
  rw [savedGroups, filter_cons_of_neg (by simpa using hnum), this]

/-! ## What is saved -/

/-- The lines with only parameters removed that have a number from `i` on. -/
structure Trimmed (i : ℕ) (ls ls' : List Line) : Prop where
  subset : ls' ⊆ ls
  values : ∀ key, '=' ∉ key → (∀ j, i ≤ j → ¬ groupPrefix j <+: key) →
    lookup key ls' = lookup key ls
  keys : ∀ keyPrefix, keyPrefix.all keyChar = true → keyPrefix ≠ [] →
    (∀ j, i ≤ j → ∀ key, groupPrefix j <+: key → ¬ keyPrefix <+: key) →
    keysOf keyPrefix ls' = keysOf keyPrefix ls

theorem Trimmed.refl (i : ℕ) (ls : List Line) : Trimmed i ls ls :=
  ⟨fun _ h => h, fun _ _ _ => rfl, fun _ _ _ _ => rfl⟩

theorem Trimmed.nonblank {ls' : List Line} (h : Trimmed i ls ls') :
    Trimmed i (nonblank ls) (Licq.nonblank ls') where
  subset l hl := by
    obtain ⟨hmem, hne⟩ := mem_filter.mp hl
    exact mem_filter.mpr ⟨h.subset hmem, hne⟩
  values key hkey hnum := by rw [lookup_nonblank, lookup_nonblank, h.values key hkey hnum]
  keys keyPrefix hvalid hne hnum := by
    rw [keysOf_nonblank, keysOf_nonblank, h.keys keyPrefix hvalid hne hnum]

/-- **The loop over leftover groups ends, and removes higher numbers only.** -/
theorem unsetGroups_spec {ini : IniFile} {name : List Char} {pre sel tail : List Line} {hdr : Line}
    (h : Delimits ini name pre hdr sel tail) (i : ℕ) {fuel : ℕ} (hfuel : sel.length < fuel) :
    ∃ ini' sel', unsetGroups fuel ini i = some ini' ∧ Delimits ini' name pre hdr sel' tail ∧
      Tracked ini ini' ∧ Trimmed i sel sel' := by
  induction fuel generalizing ini sel i with
  | zero => exact absurd hfuel (Nat.not_lt_zero _)
  | succ fuel ih =>
    have hvalid := groupPrefix_valid i
    have hne := groupPrefix_ne_nil i
    rw [unsetGroups, h.getKeyList_eq hvalid]
    by_cases hnone : keysOf (groupPrefix i) sel = []
    · simp only [if_pos hnone]
      exact ⟨ini, sel, rfl, h, Tracked.refl ini, Trimmed.refl i sel⟩
    · simp only [if_neg hnone]
      have hlt : (sel.filter fun l => listedKey (groupPrefix i) l = none).length < sel.length := by
        refine length_filter_lt_length_iff_exists.mpr ?_
        obtain ⟨k, hk⟩ := exists_mem_of_ne_nil _ hnone
        obtain ⟨l, hl, hlisted⟩ := mem_filterMap.mp hk
        exact ⟨l, hl, by simp [hlisted]⟩
      obtain ⟨ini', sel', hrun, hd, htrack, htrim⟩ :=
        ih (h.unsetAll_eq hvalid hne) (i + 1) (by omega)
      refine ⟨ini', sel', hrun, hd, (unsetAll_tracked ini _).trans htrack,
        fun l hl => mem_of_mem_filter (htrim.subset hl), fun key hkey hnum => ?_,
        fun p hp hpne hnum => ?_⟩
      · rw [htrim.values key hkey fun j hj => hnum j (by omega),
          lookup_filter_listedKey hvalid hne hkey (hnum i (le_refl i))]
      · rw [htrim.keys p hp hpne fun j hj => hnum j (by omega),
          keysOf_filter_listedKey hvalid hne hp hpne (hnum i (le_refl i))]

theorem saveServerIds_eq (num : ℕ) (group : Group) (file : IniFile) :
    saveServerIds num group.serverIds file = setAll file (serverEntries num group) := by
  rw [serverEntries]
  induction group.serverIds generalizing file with
  | nil => rfl
  | cons s serverIds ih =>
    rw [saveServerIds, map_cons, setAll]
    simp only [ih]
    rfl

theorem save_eq (num : ℕ) (myId : ℤ) (group : Group) (file : IniFile) :
    group.save myId file num = setAll file (groupEntries num myId group) := by
  rw [Group.save, groupEntries]
  simp only [saveServerIds_eq, setAll]
  rfl

theorem saveGroupsFrom_eq (i : ℕ) (groups : List (Σ _ : ℤ, Group)) (file : IniFile) :
    saveGroupsFrom i groups file
      = (setAll file (groupsEntries i groups)).map fun file => (i + groups.length, file) := by
  induction groups generalizing i file with
  | nil => rfl
  | cons group groups ih =>
    rw [saveGroupsFrom, save_eq, groupsEntries, setAll_append, Option.map_bind]
    simp only [ih, length_cons, Nat.add_assoc, Nat.add_comm 1]
    rfl

theorem nul_notMem_decimal (n : ℕ) : Char.ofNat 0 ∉ decimal n := fun h =>
  absurd (isDigit_of_mem_decimal h) (by decide)

/-- The values that are saved have no null characters, as long as the names have none. -/
theorem nul_notMem_savedGroups
    (hnul : ∀ group ∈ myGroups.entries, Char.ofNat 0 ∉ group.2.name) :
    ∀ e ∈ savedGroups myGroups, Char.ofNat 0 ∉ e.2 := by
  have hdecimalInt : ∀ z : ℤ, Char.ofNat 0 ∉ decimalInt z := by
    intro z
    cases z with
    | ofNat n => exact nul_notMem_decimal n
    | negSucc n =>
      rw [decimalInt, mem_cons, not_or]
      exact ⟨by decide, nul_notMem_decimal _⟩
  intro e he
  rcases mem_cons.mp he with rfl | he
  · exact nul_notMem_decimal _
  · obtain ⟨i, group, hi, he⟩ := mem_groupsEntries.mp he
    simp only [groupEntries, mem_cons, serverEntries, mem_map] at he
    rcases he with rfl | rfl | rfl | ⟨s, -, rfl⟩
    · exact hdecimalInt _
    · exact hnul group (mem_of_getElem? hi)
    · exact hdecimalInt _
    · exact nul_notMem_decimal _

/-- **What the saved file says about the groups.** -/
theorem saveGroups_spec {licqConf : ConfFile}
    (hsync : (ConfFile.loadFile licqConf).2.InSync)
    (hnul : ∀ group ∈ myGroups.entries, Char.ofNat 0 ∉ group.2.name) :
    ∃ f, saveGroups myGroups licqConf = some f ∧ HasLines f.restart f.restart.textLines ∧
      Trimmed (myGroups.size + 1)
        (assignAll (written (savedGroups myGroups)) (groupLines licqConf))
        (f.restart.sectionLines (sectionName groupsSection)) := by
  obtain ⟨ini₁, ini₂, pre, hdr, sel, tail, hset, hall, hs, hd, htrack, hsteady⟩ :=
    save_section hsync.settled (by decide : sectionName groupsSection ≠ [])
      (nul_notMem_savedGroups hnul)
  obtain ⟨ini₃, sel', hunset, hd₃, htrack', htrim⟩ :=
    unsetGroups_spec hd (myGroups.size + 1) hd.length_lt
  have hsettled : Settled ini₃ := hd₃.settled fun x hx => hsteady x (by
    simp only [mem_append, mem_cons] at hx ⊢
    rcases hx with hx | hx | hx | hx
    · exact Or.inl hx
    · exact Or.inr (Or.inl hx)
    · exact Or.inr (Or.inr (Or.inl (htrim.subset hx)))
    · exact Or.inr (Or.inr (Or.inr hx)))
  have hrun := ConfFile.restart_eq hsync hsettled (htrack.trans htrack')
  have hlines : (ConfFile.writeFile
      ⟨ini₃, (ConfFile.loadFile licqConf).2.disk, (ConfFile.loadFile licqConf).2.known⟩).2.restart.sectionLines
        (sectionName groupsSection) = nonblank sel' := by
    rw [← hd₃.sectionLines_eq, hrun]
    rfl
  refine ⟨(ConfFile.writeFile ⟨ini₃, (ConfFile.loadFile licqConf).2.disk,
    (ConfFile.loadFile licqConf).2.known⟩).2, ?_, ?_, ?_⟩
  · have hsetall : (do
        let (_, ini) ← set ini₁ numOfGroups (decimal myGroups.size)
        saveGroupsFrom 1 myGroups.entries ini) = some (1 + myGroups.entries.length, ini₂) := by
      rw [savedGroups, setAll] at hall
      simp only [saveGroupsFrom_eq]
      obtain ⟨r, hr, hrest⟩ := Option.bind_eq_some_iff.mp hall
      simp only [hr, Option.bind_eq_bind, Option.bind_some, hrest, Option.map_some]
    rw [Nat.add_comm] at hsetall
    rw [saveGroups]
    simp only [hset]
    simp only [Option.bind_eq_bind, Option.bind_eq_some_iff] at hsetall ⊢
    obtain ⟨r, hr, hrest⟩ := hsetall
    exact ⟨r, hr, _, hrest, ini₃, hunset, rfl⟩
  · rw [hrun]
    exact ⟨hsettled.1.terminated, hsettled.1.data⟩
  · rw [hlines, groupLines, ← hs.selected, assignAll_nonblank]
    exact htrim.nonblank

/-! ## What is loaded -/

section Loading

variable {plugins : List ProtocolPlugin} {oldOwners : List (ℕ × List Char)} {num : ℕ}

/-- The server id of one more parameter. -/
def readServerId (plugins : List ProtocolPlugin) (num : ℕ) (value : List Char → ℕ)
    (group : Group) (serverIdKey : List Char) : Group :=
  match ownerOfKey plugins num serverIdKey with
  | some ownerId => group.setServerId ownerId (value serverIdKey)
  | none => group

/-- Without parameters in the old format, reading the server ids changes no parameter. -/
theorem loadServerIds_eq {keys : List (List Char)} (h : NewKeys plugins oldOwners num keys)
    (ini : IniFile) (newGroup : Group) : loadServerIds plugins oldOwners num keys ini newGroup
      = some (ini, keys.foldl (readServerId plugins num fun k => getULong ini k 0) newGroup) := by
  induction keys generalizing newGroup with
  | nil => rfl
  | cons k keys ih =>
    have hk := h k mem_cons_self
    have hone : loadServerId plugins oldOwners num ini newGroup k
        = some (ini, readServerId plugins num (fun k => getULong ini k 0) newGroup k) := by
      rw [loadServerId, readServerId, ownerOfKey]
      by_cases hlen : (k.drop (serverIdPrefix num).length).length ≤ 4
      · simp only [if_pos hlen, hk hlen]
      · simp only [if_neg hlen]
    rw [loadServerIds, hone]
    exact ih (fun x hx => h x (mem_cons_of_mem k hx)) _

/-- **The server id of an owner** is the one of the last parameter that names it. -/
theorem serverId_foldl (value : List Char → ℕ) (keys : List (List Char)) (group : Group)
    (ownerId : UserId) :
    (keys.foldl (readServerId plugins num value) group).serverId ownerId
      = ((keys.reverse.find? fun k => ownerOfKey plugins num k = some ownerId).map value).getD
          (group.serverId ownerId) := by
  induction keys generalizing group with
  | nil => rfl
  | cons k keys ih =>
    have hone : (readServerId plugins num value group k).serverId ownerId
        = if ownerOfKey plugins num k = some ownerId then value k else group.serverId ownerId := by
      rw [readServerId]
      cases howner : ownerOfKey plugins num k with
      | none => rw [if_neg (by simp)]
      | some o =>
        simp only [Group.serverId_setServerId, Option.some.injEq, eq_comm]
    rw [foldl_cons, ih, hone, reverse_cons, find?_append]
    cases keys.reverse.find? fun k => ownerOfKey plugins num k = some ownerId with
    | some k' => rfl
    | none =>
      by_cases howner : ownerOfKey plugins num k = some ownerId
      · rw [if_pos howner, find?_singleton, if_pos (by simpa using howner)]
        rfl
      · rw [if_neg howner, find?_singleton, if_neg (by simpa using howner)]
        rfl

theorem foldl_readServerId_name (value : List Char → ℕ) (keys : List (List Char)) (group : Group) :
    (keys.foldl (readServerId plugins num value) group).name = group.name ∧
      (keys.foldl (readServerId plugins num value) group).sortIndex = group.sortIndex := by
  induction keys generalizing group with
  | nil => exact ⟨rfl, rfl⟩
  | cons k keys ih =>
    have hone : (readServerId plugins num value group k).name = group.name ∧
        (readServerId plugins num value group k).sortIndex = group.sortIndex := by
      rw [readServerId]
      cases ownerOfKey plugins num k <;> exact ⟨rfl, rfl⟩
    rw [foldl_cons]
    exact ⟨(ih _).1.trans hone.1, (ih _).2.trans hone.2⟩

/-- The group under a number. -/
def readGroup (plugins : List ProtocolPlugin) (ini : IniFile) (i : ℕ) : Σ _ : ℤ, Group :=
  ⟨getInt ini (groupIdKey i) 0,
    (getKeyList ini (serverIdPrefix i)).foldl (readServerId plugins i fun k => getULong ini k 0)
      ⟨getString ini (groupNameKey i) [], getInt ini (groupSortingKey i) (i - 1), [],
        List.nodup_nil⟩⟩

theorem loadGroupsFrom_eq {ini : IniFile} {left i : ℕ}
    (h : ∀ j, i ≤ j → j < i + left →
      NewKeys plugins oldOwners j (getKeyList ini (serverIdPrefix j))) (myGroups : GroupMap) :
    loadGroupsFrom plugins oldOwners left i ini myGroups
      = some (ini, myGroups.insertAll ((List.range' i left).map (readGroup plugins ini))) := by
  induction left generalizing i myGroups with
  | zero => rfl
  | succ left ih =>
    have hone : loadGroup plugins oldOwners i ini myGroups
        = some (ini, myGroups.insert (readGroup plugins ini i).1 (readGroup plugins ini i).2) := by
      rw [loadGroup, loadServerIds_eq (h i (le_refl i) (by omega))]
      rfl
    rw [loadGroupsFrom, hone, range'_succ, map_cons]
    exact ih (fun j hj hlt => h j (by omega) (by omega)) _

end Loading

/-! ## The groups of a saved file -/

/-- The configuration in which the saved groups are looked up. -/
structure Reopened (myGroups : GroupMap) (ls : List Line) (ini : IniFile) : Prop where
  values : ∀ key, '=' ∉ key → '\n' ∉ key → key.head? ≠ some '[' →
    (∀ j, myGroups.size + 1 ≤ j → ¬ groupPrefix j <+: key) →
    get ini key = valueWith (savedGroups myGroups) ls key
  keys : ∀ i, i ≤ myGroups.size →
    getKeyList ini (serverIdPrefix i) = keysWith (serverIdPrefix i) (written (savedGroups myGroups)) ls
  listed : ∀ i, ∀ k ∈ getKeyList ini (serverIdPrefix i),
    serverIdPrefix i <+: k ∧ '=' ∉ k ∧ '\n' ∉ k

theorem reopened_of_trimmed {licqConf : IniFile}
    (h : HasLines licqConf licqConf.textLines) (htrim : Trimmed (myGroups.size + 1)
      (assignAll (written (savedGroups myGroups)) ls)
      (licqConf.sectionLines (sectionName groupsSection))) :
    Reopened myGroups ls (setSection licqConf groupsSection true).2 := by
  obtain ⟨ini, pre, hdr, sel, tail, hset, hs⟩ :=
    setSection_selection h (by decide : sectionName groupsSection ≠ [])
  rw [hset]
  refine ⟨?_, ?_, ?_⟩
  · intro key heq hnl hhead hnum
    rw [hs.delimits.get_eq hnl hhead, ← lookup_nonblank, hs.selected, htrim.values key heq hnum,
      lookup_assignAll_written heq]
  · intro i hi
    rw [hs.delimits.getKeyList_eq (serverIdPrefix_valid i), ← keysOf_nonblank, hs.selected,
      htrim.keys _ (serverIdPrefix_valid i) (serverIdPrefix_ne_nil i) fun j hj key hstart hkey => ?_,
      keysOf_assignAll (serverIdPrefix_valid i) (serverIdPrefix_ne_nil i) mem_of_mem_written]
    have := groupPrefix_unique hstart (groupPrefix_of_serverIdPrefix hkey)
    omega
  · intro i k hk
    rw [hs.delimits.getKeyList_eq (serverIdPrefix_valid i),
      mem_keysOf (serverIdPrefix_valid i) (serverIdPrefix_ne_nil i)] at hk
    obtain ⟨hstart, heq, l, hl, t, rfl⟩ := hk
    have hnl := hs.delimits.terminated_parts.2.1 _ hl
    simp only [mem_append, not_or] at hnl
    exact ⟨hstart, heq, hnl.1.1⟩

section Reopened

variable {plugins : List ProtocolPlugin} {myGroups : GroupMap} {ls : List Line} {ini : IniFile}
  {i : ℕ} {group : Σ _ : ℤ, Group}

theorem lt_size (hi : myGroups.entries[i]? = some group) : i < myGroups.size :=
  (List.getElem?_eq_some_iff.mp hi).1

/-- A parameter of a group that is no server id. -/
theorem value_of_mem {field : List Char} {value : List Char} (h : Reopened myGroups ls ini)
    (hi : myGroups.entries[i]? = some group) (hfield : field.all keyChar = true)
    (hserver : ¬ ['S', 'e', 'r', 'v', 'e', 'r', 'I', 'd', '.'] <+: field)
    (hmem : (groupPrefix (i + 1) ++ field, value) ∈ groupEntries (i + 1) group.1 group.2)
    (hunique : ∀ v, (groupPrefix (i + 1) ++ field, v) ∈
      [(groupIdKey (i + 1), decimalInt group.1), (groupNameKey (i + 1), group.2.name),
        (groupSortingKey (i + 1), decimalInt group.2.sortIndex)] → v = value) :
    get ini (groupPrefix (i + 1) ++ field) = some value := by
  have hvalid : (groupPrefix (i + 1) ++ field).all keyChar = true := by
    rw [all_append, groupPrefix_valid, hfield]
    rfl
  have hsaved : (groupPrefix (i + 1) ++ field, value) ∈ savedGroups myGroups := by
    refine mem_cons_of_mem _ (mem_groupsEntries.mpr ⟨i, group, hi, ?_⟩)
    rwa [Nat.add_comm 1 i]
  have hlt := lt_size hi
  rw [h.values _ (eq_notMem_of_all_keyChar hvalid) (notMem_of_all_keyChar hvalid (by decide))
    (head_ne_of_all_keyChar hvalid) fun j hj hstart => by
      have := groupPrefix_unique hstart (prefix_append (groupPrefix (i + 1)) field)
      omega]
  refine valueWith_of_mem hsaved hvalid (fun x hx hkey => ?_) ls
  obtain ⟨key, v⟩ := x
  obtain rfl : key = groupPrefix (i + 1) ++ field := hkey
  rcases mem_cons.mp hx with hnum | hx
  · refine absurd (prefix_append (groupPrefix (i + 1)) field) ?_
    rw [(Prod.mk.inj hnum).1]
    exact not_groupPrefix_numOfGroups _
  · obtain ⟨j, other, hj, hx⟩ := mem_groupsEntries.mp hx
    obtain rfl : j = i := by
      have := groupPrefix_unique (groupPrefix_of_mem hx) (prefix_append _ _)
      omega
    obtain rfl : other = group := Option.some.inj (hj.symm.trans hi)
    rw [Nat.add_comm 1 j] at hx
    refine hunique v ?_
    simp only [groupEntries, mem_cons, serverEntries, mem_map, Prod.mk.injEq] at hx ⊢
    rcases hx with hx | hx | hx | ⟨s, -, hs, -⟩
    · exact Or.inl hx
    · exact Or.inr (Or.inl hx)
    · exact Or.inr (Or.inr (Or.inl hx))
    · refine absurd ?_ hserver
      rw [← prefix_append_right_inj (groupPrefix (j + 1)), ← hs]
      exact prefix_append _ _

theorem count_eq (h : Reopened myGroups ls ini) (hcount : myGroups.size < 2 ^ 31) :
    getUnsigned ini numOfGroups 0 = myGroups.size := by
  have hvalid : numOfGroups.all keyChar = true := by decide
  have hget : get ini numOfGroups = some (decimal myGroups.size) := by
    rw [h.values _ (by decide) (by decide) (by decide) fun j _ => not_groupPrefix_numOfGroups j]
    refine valueWith_of_mem (e := (numOfGroups, decimal myGroups.size)) mem_cons_self hvalid
      (fun x hx hkey => ?_) ls
    rcases mem_cons.mp hx with rfl | hx
    · rfl
    · obtain ⟨j, other, -, hx⟩ := mem_groupsEntries.mp hx
      have hstart := groupPrefix_of_mem hx
      rw [hkey] at hstart
      exact absurd hstart (not_groupPrefix_numOfGroups _)
  rw [getUnsigned, hget, Option.map_some, Option.getD_some, strtoul_decimal (by omega)]
  exact Nat.mod_eq_of_lt (by omega)

/-- **The server id parameters under the number of a group.** -/
theorem keys_eq (h : Reopened myGroups ls ini) (hi : myGroups.entries[i]? = some group) :
    getKeyList ini (serverIdPrefix (i + 1)) = serverKeys (i + 1) group.2 ls := by
  rw [h.keys (i + 1) (lt_size hi), ← keysWith_filter, filter_savedGroups hi, serverKeys]

/-- **…and their values.** -/
theorem getULong_eq (h : Reopened myGroups ls ini) (hi : myGroups.entries[i]? = some group)
    {k : List Char} (hk : k ∈ serverKeys (i + 1) group.2 ls) :
    getULong ini k 0 = serverIdOf (i + 1) group.2 ls k := by
  have hlt := lt_size hi
  obtain ⟨hstart, heq, hnl⟩ := h.listed (i + 1) k (by rwa [keys_eq h hi])
  have hhead : k.head? ≠ some '[' := by
    obtain ⟨t, rfl⟩ := hstart
    exact fun hc => absurd (show some 'G' = some '[' from hc) (by decide)
  rw [getULong, h.values k heq hnl hhead fun j hj hstart' => by
      have := groupPrefix_unique hstart' (groupPrefix_of_serverIdPrefix hstart)
      omega,
    ← valueWith_filter hstart, filter_savedGroups hi, serverIdOf]
  cases valueWith (serverEntries (i + 1) group.2) ls k <;> rfl

/-- **The group that is read under the number of a group**: its server ids are those of the last
parameters, the rest is as it was. -/
theorem readGroup_spec (h : Reopened myGroups ls ini) (hfits : myGroups.Fits)
    (hi : myGroups.entries[i]? = some group) :
    (readGroup plugins ini (i + 1)).1 = group.1 ∧
      (readGroup plugins ini (i + 1)).2.name = group.2.name ∧
      (readGroup plugins ini (i + 1)).2.sortIndex = group.2.sortIndex ∧
      ∀ ownerId, (readGroup plugins ini (i + 1)).2.serverId ownerId
        = (((serverKeys (i + 1) group.2 ls).reverse.find?
            fun k => ownerOfKey plugins (i + 1) k = some ownerId).map
              (serverIdOf (i + 1) group.2 ls)).getD 0 := by
  have hmem := mem_of_getElem? hi
  refine ⟨?_, ?_, ?_, fun ownerId => ?_⟩
  · have hid : get ini (groupIdKey (i + 1)) = some (decimalInt group.1) :=
      value_of_mem h hi (by decide) (by decide) mem_cons_self fun v hv => by
        simpa [groupIdKey, groupNameKey, groupSortingKey] using hv
    rw [readGroup, getInt, hid]
    exact atoi_decimalInt (hfits.ids group hmem).1 (hfits.ids group hmem).2
  · have hname : get ini (groupNameKey (i + 1)) = some group.2.name :=
      value_of_mem h hi (by decide) (by decide) (mem_cons_of_mem _ mem_cons_self)
        fun v hv => by simpa [groupIdKey, groupNameKey, groupSortingKey] using hv
    rw [readGroup, (foldl_readServerId_name _ _ _).1, getString, hname]
    rfl
  · have hsorting : get ini (groupSortingKey (i + 1)) = some (decimalInt group.2.sortIndex) :=
      value_of_mem h hi (by decide) (by decide)
        (mem_cons_of_mem _ (mem_cons_of_mem _ mem_cons_self))
        fun v hv => by simpa [groupIdKey, groupNameKey, groupSortingKey] using hv
    rw [readGroup, (foldl_readServerId_name _ _ _).2, getInt, hsorting]
    exact atoi_decimalInt (hfits.sortIndexes group hmem).1 (hfits.sortIndexes group hmem).2
  · rw [readGroup, serverId_foldl, keys_eq h hi]
    cases hfind : (serverKeys (i + 1) group.2 ls).reverse.find?
        fun k => ownerOfKey plugins (i + 1) k = some ownerId with
    | none => rfl
    | some k =>
      exact getULong_eq h hi (mem_reverse.mp (mem_of_find?_eq_some hfind))

end Reopened

/-! ## Names with null characters -/

/-- A text and groups without null characters. -/
def NulFree (ini : IniFile) (myGroups : GroupMap) : Prop :=
  Char.ofNat 0 ∉ ini.myConfigData ∧
    ∀ id group, myGroups.find? id = some group → Char.ofNat 0 ∉ group.name

section NulFree

variable {plugins : List ProtocolPlugin} {oldOwners : List (ℕ × List Char)} {i : ℕ}
  {ini ini' : IniFile} {group group' : Group}

theorem nulFree_loadServerId {k : List Char} (h : Char.ofNat 0 ∉ ini.myConfigData)
    (hload : loadServerId plugins oldOwners i ini group k = some (ini', group')) :
    Char.ofNat 0 ∉ ini'.myConfigData ∧ group'.name = group.name := by
  rw [loadServerId] at hload
  simp only at hload
  split at hload
  · split at hload
    · obtain ⟨r, hset, hr⟩ := Option.bind_eq_some_iff.mp hload
      cases hr
      refine ⟨nul_notMem_set (nul_notMem_unset h k) (nul_notMem_decimal _) hset, ?_⟩
      split_ifs <;> rfl
    · cases hload
      exact ⟨h, rfl⟩
  · cases hload
    exact ⟨h, rfl⟩

theorem nulFree_loadServerIds {keys : List (List Char)} (h : Char.ofNat 0 ∉ ini.myConfigData)
    (hload : loadServerIds plugins oldOwners i keys ini group = some (ini', group')) :
    Char.ofNat 0 ∉ ini'.myConfigData ∧ group'.name = group.name := by
  induction keys generalizing ini group with
  | nil =>
    cases hload
    exact ⟨h, rfl⟩
  | cons k keys ih =>
    obtain ⟨⟨ini₁, group₁⟩, hone, hrest⟩ := Option.bind_eq_some_iff.mp hload
    obtain ⟨hnul, hname⟩ := nulFree_loadServerId h hone
    obtain ⟨hnul', hname'⟩ := ih hnul hrest
    exact ⟨hnul', hname'.trans hname⟩

theorem nulFree_loadGroupsFrom {left : ℕ} {myGroups r : GroupMap} (h : NulFree ini myGroups)
    (hload : loadGroupsFrom plugins oldOwners left i ini myGroups = some (ini', r)) :
    NulFree ini' r := by
  induction left generalizing i ini myGroups with
  | zero =>
    cases hload
    exact h
  | succ left ih =>
    obtain ⟨⟨ini₁, groups₁⟩, hone, hrest⟩ := Option.bind_eq_some_iff.mp hload
    obtain ⟨⟨ini₂, group₂⟩, hids, hone⟩ := Option.bind_eq_some_iff.mp hone
    cases hone
    obtain ⟨hnul, hname⟩ := nulFree_loadServerIds h.1 hids
    refine ih ⟨hnul, fun id group hfind => ?_⟩ hrest
    by_cases hid : id = getInt ini (groupIdKey i) 0
    · rw [hid, SortedMap.find?_insert_self, Option.some.injEq] at hfind
      rw [← hfind, hname]
      exact nul_notMem_getString h.1 _
    · rw [SortedMap.find?_insert_of_ne _ _ hid] at hfind
      exact h.2 id group hfind

/-- The names that are loaded have no null characters. -/
theorem nul_notMem_loadGroups {f : ConfFile} {r : GroupMap}
    (hload : loadGroups plugins oldOwners f.restart = some (ini', r)) {id : ℤ}
    (hfind : r.find? id = some group) : Char.ofNat 0 ∉ group.name := by
  rw [loadGroups] at hload
  split_ifs at hload
  refine (nulFree_loadGroupsFrom ⟨?_, fun id group hfind => ?_⟩ hload).2 id group hfind
  · exact nul_notMem_setSection (ConfFile.nul_notMem_restart _) _ _
  · cases hfind

end NulFree

/-! ## The main result -/

section Main

variable {plugins : List ProtocolPlugin} {oldOwners : List (ℕ × List Char)} {myGroups : GroupMap}
  {licqConf : ConfFile}

/-- The groups under the numbers up to the count. -/
def readGroups (plugins : List ProtocolPlugin) (ini : IniFile) (nGroups : ℕ) :
    List (Σ _ : ℤ, Group) := (List.range' 1 nGroups).map (readGroup plugins ini)

section Read

variable {ls : List Line} {ini : IniFile} {i : ℕ} {group : Σ _ : ℤ, Group}

theorem getElem?_readGroups {nGroups : ℕ} (hi : i < nGroups) :
    (readGroups plugins ini nGroups)[i]? = some (readGroup plugins ini (i + 1)) := by
  rw [readGroups, getElem?_map, getElem?_range' hi, Nat.one_mul, Nat.add_comm 1 i]
  rfl

theorem keys_readGroups (h : Reopened myGroups ls ini) (hfits : myGroups.Fits) :
    (readGroups plugins ini myGroups.size).keys = myGroups.entries.keys := by
  refine ext_getElem? fun i => ?_
  change ((readGroups plugins ini myGroups.size).map Sigma.fst)[i]?
    = (myGroups.entries.map Sigma.fst)[i]?
  rw [getElem?_map, getElem?_map]
  by_cases hi : i < myGroups.size
  · have hget : myGroups.entries[i]? = some (myGroups.entries.get ⟨i, hi⟩) :=
      getElem?_eq_getElem hi
    rw [getElem?_readGroups hi, hget, Option.map_some, Option.map_some,
      (readGroup_spec h hfits hget).1]
  · rw [getElem?_eq_none (by simpa [readGroups] using hi),
      getElem?_eq_none (Nat.le_of_not_lt hi)]

theorem nodupKeys_readGroups (h : Reopened myGroups ls ini) (hfits : myGroups.Fits) :
    (readGroups plugins ini myGroups.size).NodupKeys := by
  rw [List.NodupKeys, keys_readGroups h hfits]
  exact myGroups.nodupKeys

theorem dlookup_readGroups (h : Reopened myGroups ls ini) (hfits : myGroups.Fits)
    (hi : myGroups.entries[i]? = some group) :
    (readGroups plugins ini myGroups.size).dlookup group.1
      = some (readGroup plugins ini (i + 1)).2 := by
  refine (mem_dlookup_iff (nodupKeys_readGroups h hfits)).mpr ?_
  rw [← (@readGroup_spec plugins _ _ _ _ _ h hfits hi).1]
  exact mem_of_getElem? (getElem?_readGroups (lt_size hi))

/-- **What is read under the numbers is the groups exactly when their server ids survive.** -/
theorem rel_readGroups (h : Reopened myGroups ls ini) (hfits : myGroups.Fits) :
    (∀ id, Option.Rel SameGroup ((readGroups plugins ini myGroups.size).dlookup id)
        (myGroups.find? id)) ↔
      ∀ i group, myGroups.entries[i]? = some group →
        ServerIdsKept plugins (i + 1) group.2 ls := by
  constructor
  · intro hrel i group hi ownerId
    have hsame := hrel group.1
    rw [dlookup_readGroups h hfits hi,
      SortedMap.mem_entries_iff.mp (mem_of_getElem? hi)] at hsame
    cases hsame with
    | some hsame =>
      rw [← (readGroup_spec h hfits hi).2.2.2 ownerId, hsame.2.2 ownerId]
  · intro hkept id
    cases hgroup : myGroups.find? id with
    | none =>
      have hnone : (readGroups plugins ini myGroups.size).dlookup id = none := by
        rw [dlookup_eq_none, keys_readGroups h hfits]
        exact dlookup_eq_none.mp hgroup
      rw [hnone]
      exact Option.Rel.none
    | some group =>
      obtain ⟨i, hi⟩ := getElem?_of_mem (SortedMap.mem_entries_iff.mpr hgroup)
      obtain ⟨-, hname, hsorting, hserver⟩ := @readGroup_spec plugins _ _ _ _ _ h hfits hi
      have hlookup := @dlookup_readGroups plugins _ _ _ _ _ h hfits hi
      simp only at hlookup
      rw [hlookup]
      refine Option.Rel.some ⟨hname, hsorting, fun ownerId => ?_⟩
      rw [hserver ownerId, hkept i _ hi ownerId]

end Read

/-- **Loading the saved file reads the groups under their numbers.** -/
theorem loadGroups_eq {ls : List Line} {conf : IniFile}
    (h : Reopened myGroups ls (setSection conf groupsSection true).2) (hfits : myGroups.Fits)
    (hnew : ∀ i group, myGroups.entries[i]? = some group →
      NewKeys plugins oldOwners (i + 1) (serverKeys (i + 1) group.2 ls)) :
    loadGroups plugins oldOwners conf = some ((setSection conf groupsSection true).2,
      SortedMap.empty.insertAll
        (readGroups plugins (setSection conf groupsSection true).2 myGroups.size)) := by
  have hcount := hfits.count
  rw [loadGroups]
  simp only [count_eq h hcount]
  rw [if_neg (by omega)]
  refine loadGroupsFrom_eq (fun j hj hlt => ?_) _
  obtain ⟨i, rfl⟩ : ∃ i, j = i + 1 := ⟨j - 1, by omega⟩
  have hlen : i < myGroups.entries.length := show i < myGroups.size by omega
  have hi : myGroups.entries[i]? = some myGroups.entries[i] := getElem?_eq_getElem hlen
  rw [keys_eq h hi]
  exact hnew i _ hi

/-- **The groups are restored exactly when** no name has a null character and the server ids of
every group survive. -/
theorem restoresGroups_iff (hfits : myGroups.Fits) (hsync : (ConfFile.loadFile licqConf).2.InSync)
    (hnew : ∀ i group, myGroups.entries[i]? = some group → NewKeys plugins oldOwners (i + 1)
      (serverKeys (i + 1) group.2 (groupLines licqConf))) :
    RestoresGroups plugins oldOwners myGroups licqConf ↔
      ∀ i group, myGroups.entries[i]? = some group → Char.ofNat 0 ∉ group.2.name ∧
        ServerIdsKept plugins (i + 1) group.2 (groupLines licqConf) := by
  have hspec : (∀ group ∈ myGroups.entries, Char.ofNat 0 ∉ group.2.name) →
      (RestoresGroups plugins oldOwners myGroups licqConf ↔
        ∀ i group, myGroups.entries[i]? = some group →
          ServerIdsKept plugins (i + 1) group.2 (groupLines licqConf)) := fun hnul => by
    obtain ⟨f, hsave, hlines, htrim⟩ := saveGroups_spec hsync hnul
    have hopen := reopened_of_trimmed hlines htrim
    have hload := loadGroups_eq hopen hfits hnew
    have hfind : ∀ id, (SortedMap.empty.insertAll (readGroups plugins
        (setSection f.restart groupsSection true).2 myGroups.size)).find? id
          = (readGroups plugins (setSection f.restart groupsSection true).2
              myGroups.size).dlookup id := fun id => by
      rw [SortedMap.find?_insertAll (nodupKeys_readGroups hopen hfits), SortedMap.find?_empty,
        Option.or_none]
    rw [← rel_readGroups hopen hfits]
    constructor
    · rintro ⟨f', ini', r', hsave', hload', hrel⟩
      obtain rfl : f = f' := Option.some.inj (hsave.symm.trans hsave')
      obtain ⟨rfl, rfl⟩ := Prod.mk.inj (Option.some.inj (hload.symm.trans hload'))
      exact fun id => hfind id ▸ hrel id
    · exact fun hrel => ⟨f, _, _, hsave, hload, fun id => (hfind id).symm ▸ hrel id⟩
  constructor
  · intro h
    have hnul : ∀ group ∈ myGroups.entries, Char.ofNat 0 ∉ group.2.name := by
      intro group hmem
      obtain ⟨f, ini, r, -, hload, hrel⟩ := h
      have hrel := hrel group.1
      rw [SortedMap.mem_entries_iff.mp hmem] at hrel
      cases hfind : r.find? group.1 with
      | none =>
        rw [hfind] at hrel
        cases hrel
      | some g =>
        rw [hfind] at hrel
        cases hrel with
        | some hsame =>
          rw [← hsame.1]
          exact nul_notMem_loadGroups hload hfind
    exact fun i group hi => ⟨hnul group (List.mem_of_getElem? hi), (hspec hnul).mp h i group hi⟩
  · intro h
    refine (hspec fun group hmem => ?_).mpr fun i group hi => (h i group hi).2
    obtain ⟨i, hi, rfl⟩ := List.getElem_of_mem hmem
    exact (h i _ (List.getElem?_eq_getElem hi)).1

end Main

/-- Server ids survive that `set` accepts and that name their owner, when nothing else under the
number names an owner. -/
theorem serverIdsKept_of_owned {plugins : List ProtocolPlugin} {group : Group}
    (hown : ∀ s ∈ group.serverIds, (serverIdPrefix num ++ s.1.toString).all keyChar = true ∧
      ownerOfKey plugins num (serverIdPrefix num ++ s.1.toString) = some s.1 ∧ s.2 < 2 ^ 64)
    (hstale : ∀ k ∈ keysOf (serverIdPrefix num) ls, ownerOfKey plugins num k = none ∨
      ∃ s ∈ group.serverIds, k = serverIdPrefix num ++ s.1.toString) :
    ServerIdsKept plugins num group ls := by
  have hunique : ∀ s ∈ group.serverIds, ∀ t ∈ group.serverIds,
      serverIdPrefix num ++ s.1.toString = serverIdPrefix num ++ t.1.toString → s = t := by
    intro s hs t ht heq
    have howner := (hown s hs).2.1
    rw [heq, (hown t ht).2.1, Option.some.injEq] at howner
    exact inj_on_of_nodup_map group.serverIds_nodup hs ht howner.symm
  have hmem : ∀ s ∈ group.serverIds,
      serverIdPrefix num ++ s.1.toString ∈ serverKeys num group ls := fun s hs => by
    have hentry : (serverIdPrefix num ++ s.1.toString, decimal s.2) ∈ serverEntries num group :=
      mem_map.mpr ⟨s, hs, rfl⟩
    exact mem_keysWith.mpr (Or.inr ⟨prefix_append _ _,
      mem_map.mpr ⟨_, mem_written hentry (hown s hs).1, rfl⟩⟩)
  have hvalue : ∀ s ∈ group.serverIds,
      serverIdOf num group ls (serverIdPrefix num ++ s.1.toString) = s.2 := fun s hs => by
    have hentry : (serverIdPrefix num ++ s.1.toString, decimal s.2) ∈ serverEntries num group :=
      mem_map.mpr ⟨s, hs, rfl⟩
    have hfound := valueWith_of_mem hentry (hown s hs).1 (fun x hx hkey => by
      obtain ⟨t, ht, rfl⟩ := mem_map.mp hx
      rw [hunique t ht s hs hkey]) ls
    rw [serverIdOf, hfound]
    exact strtoul_decimal (hown s hs).2.2
  intro ownerId
  cases hfind : (serverKeys num group ls).reverse.find?
      fun k => ownerOfKey plugins num k = some ownerId with
  | none =>
    have hnone : group.serverIds.find? (fun s => s.1 = ownerId) = none := by
      rw [find?_eq_none] at hfind ⊢
      intro s hs howner
      rw [decide_eq_true_eq] at howner
      refine hfind _ (mem_reverse.mpr (hmem s hs)) ?_
      rw [(hown s hs).2.1, howner, decide_eq_true_eq]
    rw [Group.serverId, hnone]
    rfl
  | some k =>
    have howner : ownerOfKey plugins num k = some ownerId := by simpa using find?_some hfind
    have hk := mem_reverse.mp (mem_of_find?_eq_some hfind)
    obtain ⟨s, hs, rfl⟩ : ∃ s ∈ group.serverIds, k = serverIdPrefix num ++ s.1.toString := by
      rcases mem_keysWith.mp hk with hk | ⟨-, hk⟩
      · refine (hstale k hk).resolve_left fun hnone => ?_
        rw [hnone] at howner
        cases howner
      · obtain ⟨x, hx, rfl⟩ := mem_map.mp hk
        obtain ⟨e, he, hkey⟩ := mem_map.mp (key_of_mem_written hx).2
        obtain ⟨s, hs, rfl⟩ := mem_map.mp he
        exact ⟨s, hs, hkey.symm⟩
    have hentry := (Group.find?_eq_some_iff group.serverIds_nodup).mpr
      ⟨hs, Option.some.inj ((hown s hs).2.1.symm.trans howner)⟩
    rw [Group.serverId, hentry, Option.map_some, Option.map_some, hvalue s hs]

/-- One group, with the server id 5 for an owner. -/
def oneGroup (ownerId : UserId) : GroupMap :=
  SortedMap.empty.insert 1 ⟨['A'], 0, [(ownerId, 5)], List.nodup_singleton _⟩

/-- A group with a server id for the ICQ owner 1 is restored. -/
theorem restoresGroups_icq : RestoresGroups [] [] (oneGroup (UserId.owner icqPpid ['1']))
    (ConfFile.opened none) := by
  have hfits : (oneGroup (UserId.owner icqPpid ['1'])).Fits :=
    ⟨by decide, by decide, by decide⟩
  have hsync : (ConfFile.loadFile (ConfFile.opened none)).2.InSync := ConfFile.inSync_opened
  refine (restoresGroups_iff hfits hsync ?_).mpr ?_
  · intro i group _ k _ _
    rfl
  · intro i group hi
    obtain rfl : i = 0 := by
      have := lt_size hi
      exact Nat.lt_one_iff.mp this
    cases hi
    refine ⟨by decide, serverIdsKept_of_owned (fun s hs => ?_) fun k hk => ?_⟩
    · obtain rfl := List.mem_singleton.mp hs
      exact ⟨by decide +kernel, by decide +kernel, by decide⟩
    · have hnil : keysOf (serverIdPrefix 1) (groupLines (ConfFile.opened none)) = [] := by
        decide +kernel
      exact absurd (hnil ▸ hk) List.not_mem_nil

/-- A group with a server id for a Jabber owner, whose account has an at sign, is not. -/
theorem not_restoresGroups_jabber : ¬ RestoresGroups [] []
    (oneGroup (UserId.owner jabberPpid ['a', '@', 'b', '.', 'c'])) (ConfFile.opened none) := by
  rintro ⟨f, ini, r, hsave, hload, hrel⟩
  have hrun : ((saveGroups (oneGroup (UserId.owner jabberPpid ['a', '@', 'b', '.', 'c']))
      (ConfFile.opened none)).bind fun f => loadGroups [] [] f.restart).map (fun r =>
        (r.2.find? 1).map fun g => g.serverId (UserId.owner jabberPpid ['a', '@', 'b', '.', 'c']))
      = some (some 0) := by decide +kernel
  rw [hsave, Option.bind_some, hload, Option.map_some, Option.some.injEq] at hrun
  obtain ⟨g, hg, hserver⟩ := Option.map_eq_some_iff.mp hrun
  have hsame := hrel 1
  rw [hg] at hsame
  cases hsame with
  | some hsame =>
    have hfive := hsame.2.2 (UserId.owner jabberPpid ['a', '@', 'b', '.', 'c'])
    rw [hserver] at hfive
    exact absurd hfive (by decide +kernel)

end Licq
