import Mathlib.Data.Finset.Basic
import Licq.ContactList.Groups
import Licq.Data.Steps

/-!
# ContactList/Membership — users in groups whose ids are reused

`RemoveGroup` takes a group out of the list first, and its members out of the group later, one after
the other, as far as they are loaded.  `AddGroup` gives the first free id to the next group, and
`setUserInGroup` takes any id.  `good_iff` says in which runs, of calls of any number of threads, no
user is in a group that it has not been put into.
-/

namespace Licq.Membership

open List Bool

/-! ## State -/

/-- A user with its groups, in memory while its protocol is loaded, and in its file. -/
structure User where
  id : UserId
  loaded : Bool
  serverGroup : ℤ
  myGroups : Finset ℤ
  saved : Finset ℤ

namespace User

/-- The groups that the user is in. -/
def groups (u : User) : Finset ℤ := if u.loaded then u.myGroups else u.saved

/-- `save(SaveLicqInfo)` -/
def save (u : User) : User := { u with saved := u.myGroups }

def addToGroup (u : User) (groupId : ℤ) : User :=
  if groupId ≤ 0 then u else { u with myGroups := insert groupId u.myGroups }.save

def removeFromGroup (u : User) (groupId : ℤ) : User :=
  { u with myGroups := u.myGroups.erase groupId }.save

def setInGroup (u : User) (groupId : ℤ) (member : Bool) : User :=
  if member then u.addToGroup groupId else u.removeFromGroup groupId

/-- `loadLicqInfo` -/
def load (u : User) : User :=
  { u with loaded := true, myGroups := u.saved.filter fun groupId => 0 < groupId }

def unload (u : User) : User := { u with loaded := false }

end User

/-- A call of `RemoveGroup` that has erased its group.  Once it has locked the user list it goes through
the users that are loaded then. -/
structure Removal where
  groupId : ℤ
  users : Option (List UserId)

/-- `UserManager`; `joined` and `fresh` are for the statements only. -/
structure State where
  myGroups : GroupMap
  users : List User
  removals : List Removal
  /-- The user has been put into the group since the group was created. -/
  joined : UserId → ℤ → Bool
  /-- No group that has been created had members. -/
  fresh : Bool

namespace State

/-- The group exists. -/
def hasGroup (s : State) (groupId : ℤ) : Bool := (s.myGroups.find? groupId).isSome

/-! ## The calls -/

/-- `AddGroup` under its lock; the checks in front of it only refuse names. -/
def addGroup (s : State) (name : List Char) : Option State :=
  (s.myGroups.freeId (s.myGroups.size + 1) 1).map fun gid => { s with
    myGroups := s.myGroups.insert gid ⟨name, s.myGroups.size, [], List.nodup_nil⟩
    joined := fun userId groupId => groupId ≠ gid && s.joined userId groupId
    fresh := s.fresh && s.users.all fun u => gid ∉ u.groups }

/-- `RemoveGroup` under its first lock. -/
def eraseGroup (s : State) (groupId : ℤ) : State :=
  if s.hasGroup groupId then { s with
    myGroups := s.myGroups.removeGroup groupId
    removals := s.removals ++ [⟨groupId, none⟩] }
  else s

/-- The user list is locked. -/
def listLocked (s : State) : Bool := s.removals.any (·.users.isSome)

/-- `UserListGuard`, in a call of `RemoveGroup`. -/
def lockList (s : State) (i : ℕ) : Option State :=
  match s.removals[i]? with
  | some ⟨groupId, none⟩ =>
    let userIds := (s.users.filter (·.loaded)).map (·.id)
    some { s with removals := s.removals.set i ⟨groupId, some userIds⟩ }
  | _ => none

/-- `RemoveGroup` takes the next user out of the group, and ends after the last. -/
def cleanUser (s : State) (i : ℕ) : Option State :=
  match s.removals[i]? with
  | some ⟨groupId, some (userId :: userIds)⟩ => some { s with
      users := s.users.map fun u => if u.id = userId then u.removeFromGroup groupId else u
      removals := s.removals.set i ⟨groupId, some userIds⟩ }
  | some ⟨_, some []⟩ => some { s with removals := s.removals.eraseIdx i }
  | _ => none

def setUserInGroup (s : State) (userId : UserId) (groupId : ℤ) (inGroup : Bool) : State :=
  -- user group 0 is invalid
  if groupId ≤ 0 then s
  else { s with
    users := s.users.map fun u =>
      if u.id = userId ∧ u.loaded ∧ ¬ (inGroup = false ∧ u.serverGroup = groupId) then
        u.setInGroup groupId inGroup
      else u
    joined := fun u g => s.joined u g || (inGroup && u = userId && g = groupId &&
      s.users.any fun u => u.id = userId && u.loaded) }

/-- `loadProtocol`; it waits for the user list. -/
def loadProtocol (s : State) (protocolId : ℕ) : Option State :=
  if s.listLocked then none
  else some { s with
    users := s.users.map fun u => if u.id.protocolId = protocolId then u.load else u }

/-- `unloadProtocol`; it waits for the user list. -/
def unloadProtocol (s : State) (protocolId : ℕ) : Option State :=
  if s.listLocked then none
  else some { s with
    users := s.users.map fun u => if u.id.protocolId = protocolId then u.unload else u }

/-- The daemon ends, together with the calls that have not, and the groups are read back. -/
def restart (s : State) : State := { s with users := s.users.map User.unload, removals := [] }

/-! ## Runs -/

inductive Action
  | addGroup (name : List Char)
  | eraseGroup (groupId : ℤ)
  | lockList (i : ℕ)
  | cleanUser (i : ℕ)
  | setUserInGroup (userId : UserId) (groupId : ℤ) (inGroup : Bool)
  | loadProtocol (protocolId : ℕ)
  | unloadProtocol (protocolId : ℕ)
  | restart

/-- What a thread does under one lock; none where it is not possible. -/
def step (s : State) : Action → Option State
  | .addGroup name => s.addGroup name
  | .eraseGroup groupId => some (s.eraseGroup groupId)
  | .lockList i => s.lockList i
  | .cleanUser i => s.cleanUser i
  | .setUserInGroup userId groupId inGroup => some (s.setUserInGroup userId groupId inGroup)
  | .loadProtocol protocolId => s.loadProtocol protocolId
  | .unloadProtocol protocolId => s.unloadProtocol protocolId
  | .restart => some s.restart

/-- A contact list without groups, before any protocol is loaded. -/
def start (userIds : List (UserId × ℤ)) : State :=
  ⟨SortedMap.empty, userIds.map fun u => ⟨u.1, false, u.2, ∅, ∅⟩, [], fun _ _ => false, true⟩

/-! ## The property -/

/-- A removal of the group will still come to the user. -/
def Covered (removals : List Removal) (userId : UserId) (groupId : ℤ) : Prop :=
  ∃ r ∈ removals, r.groupId = groupId ∧ ∀ userIds ∈ r.users, userId ∈ userIds

instance (removals : List Removal) (userId : UserId) (groupId : ℤ) :
    Decidable (Covered removals userId groupId) := by
  unfold Covered
  infer_instance

/-- No group has been created with members, and the groups that a user is in exist, and the user has
been put into them since; only a group whose removal has not come to the user yet may be gone. -/
structure Good (s : State) : Prop where
  fresh : s.fresh = true
  member : ∀ u ∈ s.users, ∀ groupId ∈ u.groups,
    if s.hasGroup groupId then s.joined u.id groupId = true
    else Covered s.removals u.id groupId

/-- No id is given to a new group while a removal of it has members left, a removal that goes through
the loaded users leaves none out that is in its group, no user is put into a group that is gone, and
there is no restart while a removal has members left. -/
def ActionOk (s : State) : Action → Prop
  | .addGroup _ => ∀ gid ∈ s.myGroups.freeId (s.myGroups.size + 1) 1,
    ∀ r ∈ s.removals, r.groupId = gid → ∀ u ∈ s.users, gid ∉ u.groups
  | .lockList i => ∀ r ∈ s.removals[i]?, r.users = none → s.hasGroup r.groupId = false →
    ∀ u ∈ s.users, u.loaded = false → r.groupId ∈ u.groups →
      Covered (s.removals.eraseIdx i) u.id r.groupId
  | .setUserInGroup userId groupId inGroup => inGroup = true → 0 < groupId →
    (∃ u ∈ s.users, u.id = userId ∧ u.loaded = true) → s.hasGroup groupId = false →
      Covered s.removals userId groupId
  | .restart => ∀ r ∈ s.removals, s.hasGroup r.groupId = false → ∀ u ∈ s.users, r.groupId ∉ u.groups
  | .eraseGroup _ | .cleanUser _ | .loadProtocol _ | .unloadProtocol _ => True

/-- Besides: what a loaded user has in memory is in its file, and a removal that goes through users
has the list locked, so these stay loaded. -/
structure Inv (s : State) : Prop where
  same : ∀ u ∈ s.users, ∀ v ∈ s.users, u.id = v.id → u.loaded = v.loaded
  saved : ∀ u ∈ s.users, u.loaded = true → u.saved = u.myGroups
  positive : ∀ u ∈ s.users, ∀ groupId ∈ u.saved, 0 < groupId
  loaded : ∀ r ∈ s.removals, ∀ userIds ∈ r.users, ∀ u ∈ s.users, u.id ∈ userIds → u.loaded = true

variable {s s' : State}

/-! ## Users -/

variable {u : User}

/-- What a user is in is what its file says. -/
theorem Inv.groups_eq (h : s.Inv) (hu : u ∈ s.users) : u.groups = u.saved := by
  rw [User.groups]
  split_ifs with hloaded
  · exact (h.saved u hu hloaded).symm
  · rfl

theorem groups_removeFromGroup (h : u.loaded = true) (groupId : ℤ) :
    (u.removeFromGroup groupId).groups = u.groups.erase groupId := by
  rw [User.groups, User.groups, if_pos h]
  exact if_pos h

theorem groups_addToGroup (h : u.loaded = true) {groupId : ℤ} (hpos : 0 < groupId) :
    (u.addToGroup groupId).groups = insert groupId u.groups := by
  rw [User.addToGroup, if_neg (not_le.mpr hpos), User.groups, User.groups, if_pos h]
  exact if_pos h

/-! ## Removals -/

/-- One removal will still come to the user. -/
def Covers (r : Removal) (userId : UserId) (groupId : ℤ) : Prop :=
  r.groupId = groupId ∧ ∀ userIds ∈ r.users, userId ∈ userIds

variable {removals : List Removal} {r r' : Removal} {userId : UserId} {groupId : ℤ} {i : ℕ}

theorem mem_set_iff {x : Removal} (h : removals[i]? = some r) (r' : Removal) :
    x ∈ removals.set i r' ↔ x = r' ∨ x ∈ removals.eraseIdx i := by
  obtain ⟨hlt, -⟩ := List.getElem?_eq_some_iff.mp h
  rw [set_eq_take_append_cons_drop, if_pos hlt, eraseIdx_eq_take_drop_succ]
  simp only [mem_append, mem_cons]
  tauto

theorem mem_iff_of_getElem? {x : Removal} (h : removals[i]? = some r) :
    x ∈ removals ↔ x = r ∨ x ∈ removals.eraseIdx i := by
  obtain ⟨hlt, hget⟩ := List.getElem?_eq_some_iff.mp h
  rw [← mem_set_iff h, ← hget, set_getElem_self]

/-- A removal has been replaced. -/
theorem covered_set_iff (h : removals[i]? = some r) (r' : Removal) :
    Covered (removals.set i r') userId groupId ↔
      Covers r' userId groupId ∨ Covered (removals.eraseIdx i) userId groupId := by
  simp only [Covered, mem_set_iff h, or_and_right, exists_or, exists_eq_left, Covers]

/-- One of the removals, and the others. -/
theorem covered_iff_of_getElem? (h : removals[i]? = some r) :
    Covered removals userId groupId ↔
      Covers r userId groupId ∨ Covered (removals.eraseIdx i) userId groupId := by
  simp only [Covered, mem_iff_of_getElem? h, or_and_right, exists_or, exists_eq_left, Covers]

theorem Covered.mono {removals' : List Removal} (h : Covered removals userId groupId)
    (hsub : removals ⊆ removals') : Covered removals' userId groupId := by
  obtain ⟨r, hr, hcovers⟩ := h
  exact ⟨r, hsub hr, hcovers⟩

/-! ## One call -/

/-- **A new group** has no members where no removal of its id has any left. -/
theorem good_addGroup (h : s.Good) (hi : s.Inv) {name : List Char} (hs : s.addGroup name = some s') :
    (s'.Good ↔ s.ActionOk (.addGroup name)) ∧ s'.Inv := by
  obtain ⟨gid, hgid, rfl⟩ := Option.map_eq_some_iff.mp hs
  obtain ⟨-, hnone⟩ := GroupMap.freeId_eq_some hgid
  refine ⟨⟨fun h' => ?_, fun hok => ?_⟩, ⟨hi.same, hi.saved, hi.positive, hi.loaded⟩⟩
  · intro gid' hgid' r _ _ u hu
    cases hgid.symm.trans hgid'
    have hall := (and_eq_true_iff.mp h'.fresh).2
    simpa using all_eq_true.mp hall u hu
  · have hmembers : ∀ u ∈ s.users, gid ∉ u.groups := by
      intro u hu hmem
      have hmember := h.member u hu gid hmem
      rw [hasGroup, hnone, if_neg (by decide)] at hmember
      obtain ⟨r, hr, hgroup, -⟩ := hmember
      exact hok gid hgid r hr hgroup u hu hmem
    refine ⟨?_, fun u hu groupId hmem => ?_⟩
    · rw [h.fresh, Bool.true_and, all_eq_true]
      exact fun u hu => decide_eq_true (hmembers u hu)
    · have hne : groupId ≠ gid := fun heq => hmembers u hu (heq ▸ hmem)
      have hmember := h.member u hu groupId hmem
      simp only [hasGroup, SortedMap.find?_insert_of_ne _ _ hne, hne, ne_eq, not_false_eq_true,
        decide_true, Bool.true_and]
      exact hmember

/-- **A group is erased**; its removal will come to its members. -/
theorem good_eraseGroup (h : s.Good) (hi : s.Inv) (groupId : ℤ) :
    (s.eraseGroup groupId).Good ∧ (s.eraseGroup groupId).Inv := by
  rw [eraseGroup]
  split_ifs with hgroup
  · obtain ⟨group, hfind⟩ := Option.isSome_iff_exists.mp hgroup
    refine ⟨⟨h.fresh, fun u hu g hmem => ?_⟩, ⟨hi.same, hi.saved, hi.positive, ?_⟩⟩
    · simp only [hasGroup, GroupMap.find?_removeGroup hfind]
      by_cases hg : g = groupId
      · subst hg
        rw [if_pos rfl, if_neg (by decide)]
        exact ⟨⟨g, none⟩, mem_append_right _ (mem_singleton_self _), rfl, by rintro _ ⟨⟩⟩
      · rw [if_neg hg, Option.isSome_map]
        have hmember := h.member u hu g hmem
        rw [hasGroup] at hmember
        split_ifs at hmember ⊢
        · exact hmember
        · exact hmember.mono (subset_append_left _ _)
    · intro r hr userIds hids
      rcases mem_append.mp hr with hr | hr
      · exact hi.loaded r hr userIds hids
      · rw [mem_singleton.mp hr] at hids
        cases hids
  · exact ⟨h, hi⟩

/-- **A removal locks the list**, and comes to the users that are loaded. -/
theorem good_lockList (h : s.Good) (hi : s.Inv) (hs : s.lockList i = some s') :
    (s'.Good ↔ s.ActionOk (.lockList i)) ∧ s'.Inv := by
  rw [lockList] at hs
  split at hs
  · rename_i groupId hget
    cases hs
    have hids (u : User) (hu : u ∈ s.users) :
        u.id ∈ (s.users.filter (·.loaded)).map (·.id) ↔ u.loaded = true := by
      rw [mem_map]
      constructor
      · rintro ⟨v, hv, hid⟩
        obtain ⟨hv, hloaded⟩ := mem_filter.mp hv
        exact (hi.same u hu v hv hid.symm).trans hloaded
      · exact fun hloaded => ⟨u, mem_filter.mpr ⟨hu, hloaded⟩, rfl⟩
    have hcovers (u : User) (hu : u ∈ s.users) (g : ℤ) :
        Covers ⟨groupId, some ((s.users.filter (·.loaded)).map (·.id))⟩ u.id g ↔
          groupId = g ∧ u.loaded = true := by
      rw [← hids u hu]
      exact and_congr_right fun _ => ⟨fun hall => hall _ rfl, fun hmem _ heq => Option.some.inj heq ▸ hmem⟩
    refine ⟨⟨fun h' r hr _ hgone u hu hloaded hmem => ?_, fun hok => ?_⟩,
      ⟨hi.same, hi.saved, hi.positive, ?_⟩⟩
    · cases hget.symm.trans hr
      have hmember := h'.member u hu groupId hmem
      rw [hasGroup] at hgone
      rw [hasGroup, if_neg (eq_false_iff.mp hgone), covered_set_iff hget, hcovers u hu] at hmember
      rcases hmember with ⟨-, hyes⟩ | hcovered
      · rw [hloaded] at hyes
        cases hyes
      · exact hcovered
    · refine ⟨h.fresh, fun u hu g hmem => ?_⟩
      have hmember := h.member u hu g hmem
      rw [hasGroup] at hmember ⊢
      split_ifs at hmember ⊢ with hgone
      · exact hmember
      · rw [covered_iff_of_getElem? hget] at hmember
        rw [covered_set_iff hget, hcovers u hu]
        rcases hmember with ⟨rfl, -⟩ | hcovered
        · by_cases hloaded : u.loaded = true
          · exact .inl ⟨rfl, hloaded⟩
          · exact .inr (hok _ hget rfl (eq_false_iff.mpr hgone) u hu
              (eq_false_iff.mpr hloaded) hmem)
        · exact .inr hcovered
    · intro r hr userIds huserIds u hu hmem
      rcases (mem_set_iff hget _).mp hr with rfl | hr
      · cases huserIds
        exact (hids u hu).mp hmem
      · exact hi.loaded r (mem_of_mem_eraseIdx hr) userIds huserIds u hu hmem
  · cases hs

/-- Users are changed, but not whether they are loaded. -/
theorem inv_map (hi : s.Inv) {f : User → User} (hid : ∀ u, (f u).id = u.id)
    (hloaded : ∀ u, (f u).loaded = u.loaded)
    (hsaved : ∀ u ∈ s.users, u.loaded = true → (f u).saved = (f u).myGroups)
    (hpositive : ∀ u ∈ s.users, ∀ groupId ∈ (f u).saved, 0 < groupId)
    (husers : s'.users = s.users.map f)
    (hremovals : ∀ r ∈ s'.removals, ∀ userIds ∈ r.users,
      ∃ r' ∈ s.removals, ∃ userIds' ∈ r'.users, userIds ⊆ userIds') : s'.Inv := by
  refine ⟨?_, ?_, ?_, ?_⟩
  · simp only [husers, forall_mem_map, hid, hloaded]
    exact hi.same
  · simp only [husers, forall_mem_map, hloaded]
    exact hsaved
  · simp only [husers, forall_mem_map]
    exact hpositive
  · intro r hr userIds hids
    obtain ⟨r', hr', userIds', hids', hsub⟩ := hremovals r hr userIds hids
    simp only [husers, forall_mem_map, hid, hloaded]
    exact fun u hu hmem => hi.loaded r' hr' userIds' hids' u hu (hsub hmem)

/-- **A user is taken out of the group.** -/
theorem good_cleanUser (h : s.Good) (hi : s.Inv) (hs : s.cleanUser i = some s') :
    s'.Good ∧ s'.Inv := by
  rw [cleanUser] at hs
  split at hs
  · rename_i groupId userId userIds hget
    cases hs
    have hr := (mem_iff_of_getElem? hget).mpr (.inl rfl)
    have hloaded (u : User) (hu : u ∈ s.users) (hid : u.id = userId) : u.loaded = true :=
      hi.loaded _ hr _ rfl u hu (hid ▸ mem_cons_self)
    refine ⟨⟨h.fresh, ?_⟩, inv_map hi (f := fun u =>
      if u.id = userId then u.removeFromGroup groupId else u) ?_ ?_ ?_ ?_ rfl ?_⟩
    · simp only [forall_mem_map]
      intro u hu g hmem
      have hold : g ∈ u.groups ∧ (u.id = userId → g ≠ groupId) := by
        split_ifs at hmem with hid
        · rw [groups_removeFromGroup (hloaded u hu hid), Finset.mem_erase] at hmem
          exact ⟨hmem.2, fun _ => hmem.1⟩
        · exact ⟨hmem, fun h => absurd h hid⟩
      have hid' : (if u.id = userId then u.removeFromGroup groupId else u).id = u.id := by
        split_ifs <;> rfl
      have hmember := h.member u hu g hold.1
      rw [hasGroup] at hmember ⊢
      rw [hid']
      split_ifs at hmember ⊢
      · exact hmember
      · rw [covered_set_iff hget]
        rcases (covered_iff_of_getElem? hget).mp hmember with ⟨rfl, hids⟩ | hcovered
        · refine .inl ⟨rfl, fun ids heq => ?_⟩
          cases heq
          rcases mem_cons.mp (hids _ rfl) with heq | hmem'
          · exact absurd rfl (hold.2 heq)
          · exact hmem'
        · exact .inr hcovered
    · intro u
      split_ifs <;> rfl
    · intro u
      split_ifs <;> rfl
    · intro u hu hl
      split_ifs
      · rfl
      · exact hi.saved u hu hl
    · intro u hu g hg
      split_ifs at hg with hid
      · have hmem : g ∈ u.myGroups := Finset.mem_of_mem_erase hg
        rw [← hi.saved u hu (hloaded u hu hid)] at hmem
        exact hi.positive u hu g hmem
      · exact hi.positive u hu g hg
    · intro r' hr' ids hids
      rcases (mem_set_iff hget _).mp hr' with rfl | hr'
      · cases hids
        exact ⟨_, hr, _, rfl, subset_cons_self userId _⟩
      · exact ⟨r', mem_of_mem_eraseIdx hr', ids, hids, List.Subset.refl _⟩
  · rename_i groupId hget
    cases hs
    refine ⟨⟨h.fresh, fun u hu g hmem => ?_⟩, ⟨hi.same, hi.saved, hi.positive,
      fun r hr => hi.loaded r (mem_of_mem_eraseIdx hr)⟩⟩
    have hmember := h.member u hu g hmem
    rw [hasGroup] at hmember ⊢
    split_ifs at hmember ⊢
    · exact hmember
    · rcases (covered_iff_of_getElem? hget).mp hmember with ⟨-, hids⟩ | hcovered
      · exact absurd (hids [] rfl) not_mem_nil
      · exact hcovered
  · cases hs

/-- What `setUserInGroup` makes of a user. -/
def userAfter (userId : UserId) (groupId : ℤ) (inGroup : Bool) (u : User) : User :=
  if u.id = userId ∧ u.loaded ∧ ¬ (inGroup = false ∧ u.serverGroup = groupId) then
    u.setInGroup groupId inGroup
  else u

theorem userAfter_id (userId : UserId) (groupId : ℤ) (inGroup : Bool) (u : User) :
    (userAfter userId groupId inGroup u).id = u.id := by
  rw [userAfter, User.setInGroup, User.addToGroup]
  split_ifs <;> rfl

theorem userAfter_loaded (userId : UserId) (groupId : ℤ) (inGroup : Bool) (u : User) :
    (userAfter userId groupId inGroup u).loaded = u.loaded := by
  rw [userAfter, User.setInGroup, User.addToGroup]
  split_ifs <;> rfl

/-- The groups of a user that is put into one, or taken out. -/
theorem mem_groups_userAfter {groupId g : ℤ} (hpos : 0 < groupId) {inGroup : Bool}
    (hmem : g ∈ (userAfter userId groupId inGroup u).groups) :
    g ∈ u.groups ∨ g = groupId ∧ inGroup = true ∧ u.id = userId ∧ u.loaded = true := by
  rw [userAfter] at hmem
  split_ifs at hmem with hu
  · cases inGroup with
    | false =>
      have hremoved : g ∈ (u.removeFromGroup groupId).groups := hmem
      rw [groups_removeFromGroup hu.2.1] at hremoved
      exact .inl (Finset.mem_of_mem_erase hremoved)
    | true =>
      have hadded : g ∈ (u.addToGroup groupId).groups := hmem
      rw [groups_addToGroup hu.2.1 hpos, Finset.mem_insert] at hadded
      rcases hadded with rfl | hold
      · exact .inr ⟨rfl, rfl, hu.1, hu.2.1⟩
      · exact .inl hold
  · exact .inl hmem

theorem mem_groups_userAfter_self {groupId : ℤ} (hpos : 0 < groupId) (hid : u.id = userId)
    (hloaded : u.loaded = true) : groupId ∈ (userAfter userId groupId true u).groups := by
  have hu : u.id = userId ∧ u.loaded = true ∧ ¬ (true = false ∧ u.serverGroup = groupId) :=
    ⟨hid, hloaded, by rintro ⟨⟨⟩, -⟩⟩
  rw [userAfter, if_pos hu]
  change groupId ∈ (u.addToGroup groupId).groups
  rw [groups_addToGroup hloaded hpos]
  exact Finset.mem_insert_self _ _

/-- A user whose groups are changed is saved. -/
theorem saved_userAfter {groupId : ℤ} (hpos : 0 < groupId) {inGroup : Bool}
    (hsaved : u.loaded = true → u.saved = u.myGroups) (hold : ∀ g ∈ u.saved, 0 < g) :
    (u.loaded = true →
      (userAfter userId groupId inGroup u).saved = (userAfter userId groupId inGroup u).myGroups) ∧
    ∀ g ∈ (userAfter userId groupId inGroup u).saved, 0 < g := by
  rw [userAfter]
  split_ifs with hu
  · have hmine : ∀ g ∈ u.myGroups, 0 < g := hsaved hu.2.1 ▸ hold
    cases inGroup with
    | false => exact ⟨fun _ => rfl, fun g hg => hmine g (Finset.mem_of_mem_erase hg)⟩
    | true =>
      change (_ → (u.addToGroup groupId).saved = (u.addToGroup groupId).myGroups) ∧
        ∀ g ∈ (u.addToGroup groupId).saved, 0 < g
      rw [User.addToGroup, if_neg (not_le.mpr hpos)]
      refine ⟨fun _ => rfl, fun g hg => ?_⟩
      rcases Finset.mem_insert.mp hg with rfl | hg
      · exact hpos
      · exact hmine g hg
  · exact ⟨hsaved, hold⟩

/-- **A user is put into a group**, which has to be there. -/
theorem good_setUserInGroup (h : s.Good) (hi : s.Inv) (userId : UserId) (groupId : ℤ)
    (inGroup : Bool) :
    ((s.setUserInGroup userId groupId inGroup).Good ↔
      s.ActionOk (.setUserInGroup userId groupId inGroup)) ∧
    (s.setUserInGroup userId groupId inGroup).Inv := by
  rw [setUserInGroup]
  split_ifs with hneg
  · exact ⟨iff_of_true h fun _ hpos => absurd hneg (not_le.mpr hpos), hi⟩
  have hpos := not_le.mp hneg
  refine ⟨⟨fun h' hin _ ⟨u, hu, hid, hloaded⟩ hgone => ?_, fun hok => ⟨h.fresh, ?_⟩⟩, ?_⟩
  · subst hin
    have hmember := h'.member _ (mem_map_of_mem hu) groupId
      (mem_groups_userAfter_self hpos hid hloaded)
    rw [hasGroup] at hgone
    rw [hasGroup, if_neg (eq_false_iff.mp hgone)] at hmember
    have hid' := (userAfter_id userId groupId true u).trans hid
    exact hid' ▸ hmember
  · simp only [forall_mem_map]
    intro u hu g hmem
    have hid := userAfter_id userId groupId inGroup u
    rw [userAfter] at hid
    rw [hasGroup, hid]
    rcases mem_groups_userAfter hpos hmem with hold | ⟨rfl, hin, rfl, hloaded⟩
    · have hmember := h.member u hu g hold
      rw [hasGroup] at hmember
      split_ifs at hmember ⊢
      · simp only [hmember, Bool.true_or]
      · exact hmember
    · split_ifs with hgroup
      · have hany : s.users.any (fun v => v.id = u.id && v.loaded) = true :=
          any_eq_true.mpr ⟨u, hu, by simp [hloaded]⟩
        simp [hin, hany]
      · exact hok hin hpos ⟨u, hu, rfl, hloaded⟩ (eq_false_iff.mpr hgroup)
  · exact inv_map hi (userAfter_id userId groupId inGroup) (userAfter_loaded userId groupId inGroup)
      (fun u hu => (saved_userAfter hpos (hi.saved u hu) (hi.positive u hu)).1)
      (fun u hu => (saved_userAfter hpos (hi.saved u hu) (hi.positive u hu)).2) rfl
      fun r hr ids hids => ⟨r, hr, ids, hids, List.Subset.refl _⟩

/-! ## Loading, unloading and restarts -/

/-- Users are loaded or unloaded: their groups stay. -/
theorem groups_load (h : u.groups = u.saved) (hpositive : ∀ g ∈ u.saved, 0 < g) :
    u.load.groups = u.groups := by
  rw [h]
  exact Finset.filter_true_of_mem hpositive

theorem groups_unload (h : u.groups = u.saved) : u.unload.groups = u.groups := h.symm

/-- A whole protocol is loaded or unloaded while no removal has the list locked. -/
theorem good_mapProtocol (h : s.Good) (hi : s.Inv) (hfree : s.listLocked = false) {f : User → User}
    {loaded : Bool} (hid : ∀ u, (f u).id = u.id) (hloaded : ∀ u, (f u).loaded = loaded)
    (hgroups : ∀ u ∈ s.users, (f u).groups = u.groups) (hfile : ∀ u, (f u).saved = u.saved)
    (hsaved : ∀ u ∈ s.users, (f u).loaded = true → (f u).saved = (f u).myGroups) (protocolId : ℕ) :
    Good { s with users := s.users.map fun u => if u.id.protocolId = protocolId then f u else u } ∧
    Inv { s with users := s.users.map fun u => if u.id.protocolId = protocolId then f u else u } := by
  have hid' (u : User) : (if u.id.protocolId = protocolId then f u else u).id = u.id := by
    split_ifs
    · exact hid u
    · rfl
  refine ⟨⟨h.fresh, ?_⟩, ⟨?_, ?_, ?_, ?_⟩⟩
  · simp only [forall_mem_map]
    intro u hu g hmem
    have hold : g ∈ u.groups := by
      split_ifs at hmem
      · rwa [hgroups u hu] at hmem
      · exact hmem
    rw [hid' u]
    exact h.member u hu g hold
  · simp only [forall_mem_map, hid']
    intro u hu v hv heq
    rw [heq]
    split_ifs
    · rw [hloaded, hloaded]
    · exact hi.same u hu v hv heq
  · simp only [forall_mem_map]
    intro u hu
    split_ifs
    · exact hsaved u hu
    · exact hi.saved u hu
  · simp only [forall_mem_map]
    intro u hu g hg
    split_ifs at hg
    · exact hi.positive u hu g (hfile u ▸ hg)
    · exact hi.positive u hu g hg
  · intro r hr ids hids
    have hlocked : s.listLocked = true :=
      any_eq_true.mpr ⟨r, hr, by rw [Option.mem_def.mp hids]; rfl⟩
    rw [hfree] at hlocked
    cases hlocked

/-- **A restart** forgets the removals that have not ended. -/
theorem good_restart (h : s.Good) (hi : s.Inv) :
    (s.restart.Good ↔ s.ActionOk .restart) ∧ s.restart.Inv := by
  have hgroups (u : User) (hu : u ∈ s.users) : u.unload.groups = u.groups :=
    groups_unload (hi.groups_eq hu)
  refine ⟨⟨fun h' r hr hgone u hu hmem => ?_, fun hok => ⟨h.fresh, ?_⟩⟩, ⟨?_, ?_, ?_, ?_⟩⟩
  · have hmember : if s.hasGroup r.groupId then s.joined u.id r.groupId = true
        else Covered [] u.id r.groupId :=
      h'.member u.unload (mem_map_of_mem hu) r.groupId (by rwa [hgroups u hu])
    rw [if_neg (eq_false_iff.mp hgone)] at hmember
    obtain ⟨r', hr', -⟩ := hmember
    exact absurd hr' not_mem_nil
  · simp only [restart, forall_mem_map]
    intro u hu g hmem
    rw [hgroups u hu] at hmem
    have hmember := h.member u hu g hmem
    change if s.hasGroup g then s.joined u.id g = true else Covered [] u.id g
    split_ifs at hmember ⊢ with hgroup
    · exact hmember
    · obtain ⟨r, hr, rfl, -⟩ := hmember
      exact absurd hmem (hok r hr (eq_false_iff.mpr hgroup) u hu)
  · simp only [restart, forall_mem_map]
    exact fun u _ v _ _ => rfl
  · simp only [restart, forall_mem_map]
    rintro u - ⟨⟩
  · simp only [restart, forall_mem_map]
    exact hi.positive
  · intro r hr
    exact absurd hr not_mem_nil

/-! ## Every run -/

theorem good_step {a : Action} (h : s.Good) (hi : s.Inv) (hs : s.step a = some s') :
    (s'.Good ↔ s.ActionOk a) ∧ s'.Inv := by
  have hkeeps {t : State} (ht : t.Good ∧ t.Inv) : (t.Good ↔ True) ∧ t.Inv :=
    ⟨iff_of_true ht.1 trivial, ht.2⟩
  cases a with
  | addGroup name => exact good_addGroup h hi hs
  | eraseGroup groupId =>
    cases hs
    exact hkeeps (good_eraseGroup h hi groupId)
  | lockList i => exact good_lockList h hi hs
  | cleanUser i => exact hkeeps (good_cleanUser h hi hs)
  | setUserInGroup userId groupId inGroup =>
    cases hs
    exact good_setUserInGroup h hi userId groupId inGroup
  | loadProtocol protocolId =>
    rw [step, loadProtocol] at hs
    split_ifs at hs with hlocked
    cases hs
    exact hkeeps (good_mapProtocol h hi (eq_false_iff.mpr hlocked) (f := User.load)
      (fun _ => rfl) (fun _ => rfl) (fun u hu => groups_load (hi.groups_eq hu) (hi.positive u hu)) (fun _ => rfl)
      (fun u hu _ => (Finset.filter_true_of_mem (hi.positive u hu)).symm) protocolId)
  | unloadProtocol protocolId =>
    rw [step, unloadProtocol] at hs
    split_ifs at hs with hlocked
    cases hs
    exact hkeeps (good_mapProtocol h hi (eq_false_iff.mpr hlocked) (f := User.unload)
      (fun _ => rfl) (fun _ => rfl) (fun u hu => groups_unload (hi.groups_eq hu)) (fun _ => rfl) (by rintro u - ⟨⟩) protocolId)
  | restart =>
    cases hs
    exact good_restart h hi

/-- An action that is not possible meets its condition. -/
theorem actionOk_of_step_eq_none {a : Action} (hs : s.step a = none) : s.ActionOk a := by
  cases a with
  | addGroup name =>
    intro gid hgid
    rw [step, addGroup, Option.mem_def.mp hgid] at hs
    cases hs
  | lockList i =>
    intro r hr hnone
    obtain ⟨groupId, users⟩ := r
    obtain rfl : users = none := hnone
    rw [step, lockList, Option.mem_def.mp hr] at hs
    cases hs
  | eraseGroup | setUserInGroup | restart => cases hs
  | cleanUser | loadProtocol | unloadProtocol => trivial

theorem good_start (userIds : List (UserId × ℤ)) : (start userIds).Good := by
  refine ⟨rfl, ?_⟩
  simp only [start, forall_mem_map]
  exact fun u _ g hg => absurd hg (Finset.notMem_empty g)

theorem inv_start (userIds : List (UserId × ℤ)) : (start userIds).Inv := by
  refine ⟨?_, ?_, ?_, nofun⟩
  · intro u hu v hv _
    obtain ⟨x, -, rfl⟩ := mem_map.mp hu
    obtain ⟨y, -, rfl⟩ := mem_map.mp hv
    rfl
  · simp only [start, forall_mem_map]
    rintro u - ⟨⟩
  · simp only [start, forall_mem_map]
    exact fun u _ g hg => absurd hg (Finset.notMem_empty g)

/-- **Group membership.**  In every state of a run no group has been created with members, and every
user is only in groups that exist and that it has been put into since, exactly when no id is given
away while a removal of it has members left, no removal leaves out a member that is not loaded, nobody
is put into a group that is gone, and no restart cuts off a removal with members left. -/
theorem good_iff (userIds : List (UserId × ℤ)) (as : List Action) :
    Steps.Stays step Good (start userIds) as ↔ Steps.Each step ActionOk (start userIds) as :=
  Steps.stays_iff_each_of_inv (P := Good) (I := Inv) (fun _ _ _ _ => actionOk_of_step_eq_none)
    (fun _ _ _ h hi hs => (good_step h hi hs).1) (fun _ _ _ h hi hs _ => (good_step h hi hs).2)
    (good_start userIds) (inv_start userIds) as

/-- **A group is removed while a member's protocol is not loaded**: the user keeps the id in its file,
and is a member of the next group. -/
theorem not_good_unloaded : ¬ ∀ (userIds : List (UserId × ℤ)) (as : List Action),
    Steps.Stays step Good (start userIds) as := by
  intro h
  have hend := (h [(.owner jabberPpid ['j'], -1)] [.loadProtocol jabberPpid, .addGroup ['a'],
    .setUserInGroup (.owner jabberPpid ['j']) 1 true, .unloadProtocol jabberPpid, .eraseGroup 1,
    .lockList 0, .cleanUser 0, .addGroup ['b']]).foldlM rfl
  exact absurd hend.fresh (by decide +kernel)

end State

end Licq.Membership
