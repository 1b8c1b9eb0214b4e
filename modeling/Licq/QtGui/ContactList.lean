import Licq.Data.Steps
import Licq.QtGui.ContactGroup
import Mathlib.Data.List.Nodup

/-!
# QtGui/ContactList — the counters of the contact list

The contact list has its users and its groups, and a user that belongs to a group is a member of it.
An update reads the data of a user anew and tells the groups that the user is in what has changed.
The main result is `stays_good_iff`: the counters of all groups are right along a run exactly when no
user that some group has changes its sub group while it is visible.
-/

namespace Licq.QtGui

open List

def systemGroupOffset : ℤ := 1000

def otherUsersGroupId : ℤ := 0

instance (userId : UserId) : Decidable userId.IsOwner :=
  inferInstanceAs (Decidable (userId.accountId = userId.ownerAccountId))

/-- `ContactListModel`, with the configuration that it looks at.  The data of the users are known by
their addresses, of which `next` is the next free one. -/
structure ContactListModel where
  myGroups : List ContactGroup
  myUsers : List ℕ
  data : ℕ → ContactUserData
  next : ℕ
  alwaysShowONU : Bool

namespace ContactListModel

/-! ## Users and groups -/

def findUser (s : ContactListModel) (userId : UserId) : Option ℕ :=
  s.myUsers.find? fun user => (s.data user).myUserId = userId

/-- Whether `updateUserGroups` wants the user in the group. -/
def shouldBeMember (g : ContactGroup) (d : ContactUserData) (u : LicqUser) : Bool :=
  if g.acceptUser d.myExtendedStatus = false then false
  else if systemGroupOffset ≤ g.myGroupId then true
  else if g.myGroupId = otherUsersGroupId then u.groups.isEmpty
  else if 0 < g.myGroupId then u.groups.contains g.myGroupId
  else false

def updateUserGroup (g : ContactGroup) (user : ℕ) (d : ContactUserData) (shouldBeMember : Bool) :
    ContactGroup :=
  if decide (user ∈ g.myUsers) = shouldBeMember then g
  else if shouldBeMember then g.addUser user d
  else g.removeUser user d

def updateUserGroups (s : ContactListModel) (user : ℕ) (u : LicqUser) : ContactListModel :=
  { s with myGroups := s.myGroups.map fun g =>
      updateUserGroup g user (s.data user) (shouldBeMember g (s.data user) u) }

def addUser (s : ContactListModel) (u : LicqUser) : ContactListModel :=
  { s with
    myUsers := s.myUsers ++ [s.next]
    data := Function.update s.data s.next (ContactUserData.new u s.alwaysShowONU)
    next := s.next + 1 }.updateUserGroups s.next u

/-- Every group that the user is in is told something. -/
def forInstances (s : ContactListModel) (user : ℕ) (f : ContactGroup → ContactGroup) :
    ContactListModel :=
  { s with myGroups := s.myGroups.map fun g => if user ∈ g.myUsers then f g else g }

/-- The data of a user are deleted, and with them its instances in the groups. -/
def deleteUser (s : ContactListModel) (user : ℕ) : ContactListModel :=
  { s.forInstances user (·.removeUser user (s.data user)) with
    myUsers := s.myUsers.filter (· ≠ user) }

def removeUser (s : ContactListModel) (userId : UserId) : ContactListModel :=
  match s.findUser userId with
  | none => s
  | some user => s.deleteUser user

/-- The list is read anew: its users go, and all groups but the system groups; then the groups and
the users of the daemon come. -/
def reloadAll (s : ContactListModel) (groups : List ℤ) (users : List LicqUser) : ContactListModel :=
  let s := s.myUsers.foldl deleteUser s
  let s := { s with
    myGroups := s.myGroups.filter (systemGroupOffset ≤ ·.myGroupId) ++
      ContactGroup.new otherUsersGroupId 0 0 :: groups.map (ContactGroup.new · 0 ignoreStatus) }
  users.foldl addUser s

/-- `ListGroupAdded` -/
def addGroup (s : ContactListModel) (groupId : ℤ) : ContactListModel :=
  { s with myGroups := s.myGroups ++ [ContactGroup.new groupId 0 0] }

/-- The loop of `ListGroupRemoved`, which does not look at the group behind one that it removes. -/
def removeGroups (groupId : ℤ) : List ContactGroup → List ContactGroup
  | [] => []
  | g :: rest =>
    if g.myGroupId = groupId then
      match rest with
      | [] => []
      | g' :: rest => g' :: removeGroups groupId rest
    else g :: removeGroups groupId rest

def removeGroup (s : ContactListModel) (groupId : ℤ) : ContactListModel :=
  { s with myGroups := removeGroups groupId s.myGroups }

/-! ## Updates -/

/-- `ContactUserData::update` -/
def updateUser (s : ContactListModel) (user : ℕ) (u : LicqUser) (subSignal : ℕ) : ContactListModel :=
  let old := s.data user
  let d := (old.read u subSignal).updateExtendedStatus
  let s := if ContactUserData.About subSignal userEvents ∧ d.myEvents ≠ u.newMessages.toNat then
      s.forInstances user (·.updateNumEvents (u.newMessages.toNat - d.myEvents) d.mySubGroup)
    else s
  let d := (d.updateEvents u subSignal).regroup subSignal s.alwaysShowONU
  let s := if d.mySubGroup ≠ old.mySubGroup then
      s.forInstances user (·.updateSubGroup old.mySubGroup d.mySubGroup d.myEvents)
    else s
  let s := if d.myVisibility ≠ old.myVisibility then
      s.forInstances user (·.updateVisibility d.myVisibility d.mySubGroup)
    else s
  let s := { s with data := Function.update s.data user d }
  if ContactUserData.About subSignal userSettings ∨ subSignal = userGroups then
    s.updateUserGroups user u
  else s

/-- `userUpdated`; there is no user where the daemon has none with this id any more.  A contact that
fetches the auto response is only shown so. -/
def userUpdated (s : ContactListModel) (userId : UserId) (subSignal : ℕ) (argument : ℤ)
    (u : Option LicqUser) : ContactListModel :=
  if userId.IsOwner then s
  else match s.findUser userId, u with
    | some user, some u =>
      if subSignal = userEvents ∧ argument = 0 then s else s.updateUser user u subSignal
    | _, _ => s

/-- `ContactUserData::configUpdated`, of a user that the daemon has. -/
def configUpdatedUser (s : ContactListModel) (user : ℕ) : ContactListModel :=
  let old := s.data user
  let d := old.updateVisibility s.alwaysShowONU
  let s := if d.myVisibility ≠ old.myVisibility then
      s.forInstances user (·.updateVisibility d.myVisibility d.mySubGroup)
    else s
  { s with data := Function.update s.data user d }

/-- `configUpdated`, where the daemon has the users that are known. -/
def configUpdated (s : ContactListModel) (known : UserId → Bool) : ContactListModel :=
  s.myUsers.foldl (fun s user =>
    if known (s.data user).myUserId then s.configUpdatedUser user else s) s

/-! ## Runs -/

/-- What happens to the contact list. -/
inductive Action
  | userUpdated (userId : UserId) (subSignal : ℕ) (argument : ℤ) (u : Option LicqUser)
  | setAlwaysShowONU (alwaysShowONU : Bool)
  | configUpdated (known : UserId → Bool)
  | reloadAll (groups : List ℤ) (users : List LicqUser)
  | userAdded (u : Option LicqUser)
  | userRemoved (userId : UserId)
  | groupAdded (groupId : ℤ)
  | groupRemoved (groupId : ℤ)

def step (s : ContactListModel) : Action → ContactListModel
  | .userUpdated userId subSignal argument u => s.userUpdated userId subSignal argument u
  | .setAlwaysShowONU alwaysShowONU => { s with alwaysShowONU := alwaysShowONU }
  | .configUpdated known => s.configUpdated known
  | .reloadAll groups users => s.reloadAll groups users
  | .userAdded u => u.elim s s.addUser
  | .userRemoved userId => s.removeUser userId
  | .groupAdded groupId => s.addGroup groupId
  | .groupRemoved groupId => s.removeGroup groupId

/-- The list before it is read for the first time: it has the system groups. -/
def systemGroups (alwaysShowONU : Bool) : ContactListModel where
  myGroups := [.new 1200 0 0, .new 1100 0 ignoreStatus,
    .new 1000 onlineNotifyStatus ignoreStatus, .new 1001 visibleListStatus ignoreStatus,
    .new 1002 invisibleListStatus ignoreStatus, .new 1003 ignoreStatus 0,
    .new 1004 newUserStatus ignoreStatus, .new 1005 awaitingAuthStatus ignoreStatus]
  myUsers := []
  data := fun _ => ContactUserData.initial (UserId.owner 0 [])
  next := 0
  alwaysShowONU := alwaysShowONU

/-- The counters of all groups are right. -/
def Good (s : ContactListModel) : Prop := ∀ g ∈ s.myGroups, g.Right s.data

/-- A user that some group has is not visible, or stays in the sub group that it is in. -/
def Keeps (s : ContactListModel) (user : ℕ) (u : LicqUser) (subSignal : ℕ) : Prop :=
  (∃ g ∈ s.myGroups, user ∈ g.myUsers) → (s.data user).myVisibility = true →
    ContactUserData.Regroups subSignal →
    ((s.data user).read u subSignal).subGroup = (s.data user).mySubGroup

/-- The condition on an action: an update keeps the sub group of a visible user. -/
def Ok (s : ContactListModel) : Action → Prop
  | .userUpdated userId subSignal argument u =>
    ¬ userId.IsOwner → ¬ (subSignal = userEvents ∧ argument = 0) →
      ∀ user ∈ s.findUser userId, ∀ licqUser ∈ u, s.Keeps user licqUser subSignal
  | _ => True

/-- A group has no user twice, and the next address belongs to no user. -/
structure Inv (s : ContactListModel) : Prop where
  nodup : ∀ g ∈ s.myGroups, g.myUsers.Nodup
  fresh : ∀ g ∈ s.myGroups, ∀ user ∈ g.myUsers, user < s.next
  users : ∀ user ∈ s.myUsers, user < s.next

/-! ## Members come and go -/

open ContactGroup (right_addUser_iff right_removeUser_iff right_update_of_notMem)

variable {s : ContactListModel}

variable {g : ContactGroup} {user : ℕ}

/-- **A user is put into a group, or taken out.** -/
theorem right_updateUserGroup_iff {data : ℕ → ContactUserData}
    (hnodup : g.myUsers.Nodup) (user : ℕ) (shouldBeMember : Bool) :
    (updateUserGroup g user (data user) shouldBeMember).Right data ↔ g.Right data := by
  rw [updateUserGroup]
  split_ifs with hmem hshould
  · rfl
  · exact right_addUser_iff g user
  · refine right_removeUser_iff hnodup ?_
    rw [Bool.eq_false_iff.mpr hshould] at hmem
    simpa using hmem

theorem mem_updateUserGroup {d : ContactUserData}
    {shouldBeMember : Bool} {p : ℕ}
    (h : p ∈ (updateUserGroup g user d shouldBeMember).myUsers) : p ∈ g.myUsers ∨ p = user := by
  rw [updateUserGroup] at h
  split_ifs at h
  · exact .inl h
  · exact (mem_append.mp h).imp_right mem_singleton.mp
  · exact .inl (mem_of_mem_filter h)

theorem nodup_updateUserGroup (hnodup : g.myUsers.Nodup) (user : ℕ)
    (d : ContactUserData) (shouldBeMember : Bool) :
    (updateUserGroup g user d shouldBeMember).myUsers.Nodup := by
  rw [updateUserGroup]
  split_ifs with hmem hshould
  · exact hnodup
  · rw [hshould] at hmem
    have hnew : user ∉ g.myUsers := by simpa using hmem
    exact List.Nodup.append hnodup (nodup_singleton user) (by simpa using hnew)
  · exact hnodup.filter _

theorem good_updateUserGroups_iff (hi : s.Inv) (user : ℕ) (u : LicqUser) :
    (s.updateUserGroups user u).Good ↔ s.Good := by
  simp only [Good, updateUserGroups, forall_mem_map]
  exact forall₂_congr fun g hg => right_updateUserGroup_iff (hi.nodup g hg) user _

theorem inv_updateUserGroups (hi : s.Inv) (huser : user < s.next) (u : LicqUser) :
    (s.updateUserGroups user u).Inv := by
  refine ⟨?_, ?_, hi.users⟩
  · simp only [updateUserGroups, forall_mem_map]
    exact fun g hg => nodup_updateUserGroup (hi.nodup g hg) user _ _
  · simp only [updateUserGroups, forall_mem_map]
    intro g hg p hp
    rcases mem_updateUserGroup hp with hp | rfl
    · exact hi.fresh g hg p hp
    · exact huser

/-- **A user comes to the list.** -/
theorem good_addUser (hi : s.Inv) (h : s.Good) (u : LicqUser) :
    (s.addUser u).Good ∧ (s.addUser u).Inv := by
  have hi' : Inv { s with
      myUsers := s.myUsers ++ [s.next]
      data := Function.update s.data s.next (ContactUserData.new u s.alwaysShowONU)
      next := s.next + 1 } := by
    refine ⟨hi.nodup, fun g hg p hp => (hi.fresh g hg p hp).trans (Nat.lt_succ_self _), ?_⟩
    intro p hp
    rcases mem_append.mp hp with hp | hp
    · exact (hi.users p hp).trans (Nat.lt_succ_self _)
    · rw [mem_singleton.mp hp]
      exact Nat.lt_succ_self _
  refine ⟨(good_updateUserGroups_iff hi' _ u).mpr fun g hg => ?_,
    inv_updateUserGroups hi' (Nat.lt_succ_self _) u⟩
  exact (right_update_of_notMem (fun hmem => (hi.fresh g hg _ hmem).false) _).mpr (h g hg)

/-- **A user goes.** -/
theorem good_deleteUser (hi : s.Inv) (h : s.Good) (user : ℕ) :
    (s.deleteUser user).Good ∧ (s.deleteUser user).Inv := by
  refine ⟨?_, ?_, ?_, fun p hp => hi.users p (mem_of_mem_filter hp)⟩
  · simp only [Good, deleteUser, forInstances, forall_mem_map]
    intro g hg
    split_ifs with hmem
    · exact (right_removeUser_iff (hi.nodup g hg) hmem).mpr (h g hg)
    · exact h g hg
  · simp only [deleteUser, forInstances, forall_mem_map]
    intro g hg
    split_ifs
    · exact (hi.nodup g hg).filter _
    · exact hi.nodup g hg
  · simp only [deleteUser, forInstances, forall_mem_map]
    intro g hg p hp
    split_ifs at hp
    · exact hi.fresh g hg p (mem_of_mem_filter hp)
    · exact hi.fresh g hg p hp

/-- What every step of a loop keeps, the loop keeps. -/
theorem foldl_good {α : Type} {f : ContactListModel → α → ContactListModel}
    (hf : ∀ s a, s.Inv → s.Good → (f s a).Good ∧ (f s a).Inv) (as : List α) (hi : s.Inv)
    (h : s.Good) : (as.foldl f s).Good ∧ (as.foldl f s).Inv := by
  induction as generalizing s with
  | nil => exact ⟨h, hi⟩
  | cons a as ih =>
    obtain ⟨h', hi'⟩ := hf s a hi h
    exact ih hi' h'

/-- Groups go, and groups without users come. -/
theorem good_of_groups {groups : List ContactGroup} (hi : s.Inv) (h : s.Good)
    (hgroups : ∀ g ∈ groups, g ∈ s.myGroups ∨ ∃ id showMask hideMask, g = .new id showMask hideMask) :
    Good { s with myGroups := groups } ∧ Inv { s with myGroups := groups } := by
  refine ⟨fun g hg => ?_, fun g hg => ?_, fun g hg => ?_, hi.users⟩
  · rcases hgroups g hg with hold | ⟨id, showMask, hideMask, rfl⟩
    · exact h g hold
    · exact (ContactGroup.right_iff s.data).mpr fun k => by cases k <;> rfl
  · rcases hgroups g hg with hold | ⟨id, showMask, hideMask, rfl⟩
    · exact hi.nodup g hold
    · exact nodup_nil
  · rcases hgroups g hg with hold | ⟨id, showMask, hideMask, rfl⟩
    · exact hi.fresh g hold
    · exact nofun

/-- **The list is read anew.** -/
theorem good_reloadAll (hi : s.Inv) (h : s.Good) (groups : List ℤ) (users : List LicqUser) :
    (s.reloadAll groups users).Good ∧ (s.reloadAll groups users).Inv := by
  obtain ⟨h1, hi1⟩ := foldl_good (fun s user hi h => good_deleteUser hi h user) s.myUsers hi h
  have hgroups : ∀ g ∈ (s.myUsers.foldl deleteUser s).myGroups.filter
      (systemGroupOffset ≤ ·.myGroupId) ++ ContactGroup.new otherUsersGroupId 0 0 ::
        groups.map (ContactGroup.new · 0 ignoreStatus),
      g ∈ (s.myUsers.foldl deleteUser s).myGroups ∨
        ∃ id showMask hideMask, g = .new id showMask hideMask := by
    intro g hg
    rcases mem_append.mp hg with hold | hnew
    · exact .inl (mem_of_mem_filter hold)
    · rcases mem_cons.mp hnew with rfl | hnew
      · exact .inr ⟨_, _, _, rfl⟩
      · obtain ⟨id, -, rfl⟩ := mem_map.mp hnew
        exact .inr ⟨_, _, _, rfl⟩
  obtain ⟨h2, hi2⟩ := good_of_groups hi1 h1 hgroups
  exact foldl_good (fun s u hi h => good_addUser hi h u) users hi2 h2

theorem mem_removeGroups {groupId : ℤ} {groups : List ContactGroup}
    (h : g ∈ removeGroups groupId groups) : g ∈ groups := by
  induction groups using removeGroups.induct groupId with
  | case1 => exact h
  | case2 g' hid => simp [removeGroups, hid] at h
  | case3 g' hid g'' rest ih =>
    rw [removeGroups, if_pos hid] at h
    rcases mem_cons.mp h with rfl | h
    · simp
    · exact mem_cons_of_mem _ (mem_cons_of_mem _ (ih h))
  | case4 g' rest hid ih =>
    rw [removeGroups.eq_def] at h
    simp only [if_neg hid] at h
    rcases mem_cons.mp h with rfl | h
    · exact mem_cons_self
    · exact mem_cons_of_mem _ (ih h)

theorem good_addGroup (hi : s.Inv) (h : s.Good) (groupId : ℤ) :
    (s.addGroup groupId).Good ∧ (s.addGroup groupId).Inv := by
  refine good_of_groups hi h fun g hg => (mem_append.mp hg).imp_right fun hnew => ?_
  exact ⟨_, _, _, mem_singleton.mp hnew⟩

theorem good_removeGroup (hi : s.Inv) (h : s.Good) (groupId : ℤ) :
    (s.removeGroup groupId).Good ∧ (s.removeGroup groupId).Inv :=
  good_of_groups hi h fun _ hg => .inl (mem_removeGroups hg)

/-! ## Users change -/

/-- The data of a user become others, and every group that has the user is told so. -/
def changeUser (s : ContactListModel) (user : ℕ) (d : ContactUserData) : ContactListModel :=
  { s.forInstances user (·.transfer (s.data user) d) with data := Function.update s.data user d }

theorem inv_changeUser (hi : s.Inv) (user : ℕ) (d : ContactUserData) : (s.changeUser user d).Inv := by
  have husers (g : ContactGroup) :
      (if user ∈ g.myUsers then g.transfer (s.data user) d else g).myUsers = g.myUsers := by
    split_ifs
    · exact ContactGroup.transfer_myUsers _ _ _
    · rfl
  refine ⟨?_, ?_, hi.users⟩
  · simp only [changeUser, forInstances, forall_mem_map, husers]
    exact hi.nodup
  · simp only [changeUser, forInstances, forall_mem_map, husers]
    exact hi.fresh

/-- **A user changes**: the counters follow exactly when the user stays in its sub group, was not
visible, or is in no group. -/
theorem good_changeUser_iff (hi : s.Inv) (h : s.Good) (user : ℕ) (d : ContactUserData) :
    (s.changeUser user d).Good ↔ ((∃ g ∈ s.myGroups, user ∈ g.myUsers) →
      (s.data user).myVisibility = true → d.mySubGroup = (s.data user).mySubGroup) := by
  have hgroup (g : ContactGroup) (hg : g ∈ s.myGroups) :
      (if user ∈ g.myUsers then g.transfer (s.data user) d else g).Right
          (Function.update s.data user d) ↔
        (user ∈ g.myUsers → (s.data user).myVisibility = true →
          d.mySubGroup = (s.data user).mySubGroup) := by
    split_ifs with hmem
    · rw [ContactGroup.right_transfer_iff (hi.nodup g hg) hmem (h g hg), ← Bool.not_eq_true]
      tauto
    · exact iff_of_true ((right_update_of_notMem hmem d).mpr (h g hg)) fun hmem' => absurd hmem' hmem
  simp only [Good, changeUser, forInstances, forall_mem_map]
  rw [forall₂_congr hgroup]
  exact ⟨fun hall ⟨g, hg, hmem⟩ => hall g hg hmem, fun hall g hg hmem => hall ⟨g, hg, hmem⟩⟩

theorem forInstances_forInstances (s : ContactListModel) (user : ℕ) {f f' : ContactGroup → ContactGroup}
    (hf : ∀ g, (f g).myUsers = g.myUsers) :
    (s.forInstances user f).forInstances user f' = s.forInstances user fun g => f' (f g) := by
  simp only [forInstances, map_map]
  congr 1
  refine map_congr_left fun g _ => ?_
  simp only [Function.comp_apply]
  by_cases h : user ∈ g.myUsers
  · rw [if_pos h, if_pos h, if_pos ((hf g).symm ▸ h)]
  · rw [if_neg h, if_neg h, if_neg h]

theorem ite_forInstances (s : ContactListModel) (user : ℕ) (f : ContactGroup → ContactGroup)
    (c : Prop) [Decidable c] :
    (if c then s.forInstances user f else s) =
      s.forInstances user fun g => if c then f g else g := by
  split_ifs with hc
  · rfl
  · simp [forInstances]

/-- What an update tells a group about the events of the user. -/
theorem updateNumEvents_eq (g : ContactGroup) (old : ContactUserData) (u : LicqUser) (subSignal : ℕ)
    (alwaysShowONU : Bool) :
    (if ContactUserData.About subSignal userEvents ∧
        (old.read u subSignal).updateExtendedStatus.myEvents ≠ u.newMessages.toNat then
      g.updateNumEvents (u.newMessages.toNat - (old.read u subSignal).updateExtendedStatus.myEvents)
        (old.read u subSignal).updateExtendedStatus.mySubGroup
    else g) =
      g.updateNumEvents ((old.update u subSignal alwaysShowONU).myEvents - old.myEvents)
        old.mySubGroup := by
  have hcounted := ContactUserData.read_counted old u subSignal
  have hevents : (old.read u subSignal).updateExtendedStatus.myEvents = old.myEvents :=
    congrArg (·.2.2) hcounted
  have hsub : (old.read u subSignal).updateExtendedStatus.mySubGroup = old.mySubGroup :=
    congrArg (·.1) hcounted
  have hregroup (d : ContactUserData) :
      (d.regroup subSignal alwaysShowONU).myEvents = d.myEvents := by
    rw [ContactUserData.regroup]
    split_ifs <;> rfl
  have hzero (counter : ℤ) (hcounter : counter = 0) : g.updateNumEvents counter old.mySubGroup = g :=
    if_pos hcounter
  rw [hevents, hsub, ContactUserData.update, hregroup, ContactUserData.updateEvents]
  by_cases habout : ContactUserData.About subSignal userEvents
  · rw [if_pos habout]
    split_ifs with hne
    · rfl
    · exact (hzero _ (by rw [← not_not.mp fun h => hne ⟨habout, h⟩, sub_self])).symm
  · rw [if_neg fun h => habout h.1, if_neg habout, hevents]
    exact (hzero _ (sub_self _)).symm

/-- **What an update does**: the data of the user change, and then the groups that it is in. -/
theorem updateUser_eq (s : ContactListModel) (user : ℕ) (u : LicqUser) (subSignal : ℕ) :
    s.updateUser user u subSignal =
      if ContactUserData.About subSignal userSettings ∨ subSignal = userGroups then
        (s.changeUser user ((s.data user).update u subSignal s.alwaysShowONU)).updateUserGroups user u
      else s.changeUser user ((s.data user).update u subSignal s.alwaysShowONU) := by
  have halways (f : ContactGroup → ContactGroup) :
      (s.forInstances user f).alwaysShowONU = s.alwaysShowONU := rfl
  have hd : (((s.data user).read u subSignal).updateExtendedStatus.updateEvents u subSignal).regroup
      subSignal s.alwaysShowONU = (s.data user).update u subSignal s.alwaysShowONU := rfl
  simp only [updateUser, ite_forInstances, halways, hd, updateNumEvents_eq _ _ _ _ s.alwaysShowONU]
  rw [forInstances_forInstances _ _ fun g => ?_, forInstances_forInstances _ _ fun g => ?_]
  · rfl
  · exact ContactGroup.updateNumEvents_myUsers _ _ _
  · split_ifs
    · rfl
    · rfl

/-- **One update**: the counters follow exactly when the user keeps its sub group, was not visible, or
is in no group. -/
theorem good_updateUser_iff (hi : s.Inv) (h : s.Good) (u : LicqUser) (subSignal : ℕ) :
    (s.updateUser user u subSignal).Good ↔ s.Keeps user u subSignal := by
  have hi' := inv_changeUser hi user ((s.data user).update u subSignal s.alwaysShowONU)
  have hgood : (s.updateUser user u subSignal).Good ↔
      (s.changeUser user ((s.data user).update u subSignal s.alwaysShowONU)).Good := by
    rw [updateUser_eq]
    split_ifs
    · exact good_updateUserGroups_iff hi' user u
    · rfl
  rw [hgood, good_changeUser_iff hi h, ContactUserData.update_mySubGroup, Keeps]
  split_ifs with hregroups
  · simp [hregroups]
  · simp [hregroups]

/-- While a user is on the list it is known by an address that has been given away. -/
theorem inv_updateUser (hi : s.Inv) (huser : user < s.next) (u : LicqUser)
    (subSignal : ℕ) : (s.updateUser user u subSignal).Inv := by
  have hi' := inv_changeUser hi user ((s.data user).update u subSignal s.alwaysShowONU)
  rw [updateUser_eq]
  split_ifs
  · exact inv_updateUserGroups hi' huser u
  · exact hi'

theorem configUpdatedUser_eq (s : ContactListModel) (user : ℕ) :
    s.configUpdatedUser user =
      s.changeUser user ((s.data user).updateVisibility s.alwaysShowONU) := by
  have htransfer (g : ContactGroup) :
      g.transfer (s.data user) ((s.data user).updateVisibility s.alwaysShowONU) =
        if ((s.data user).updateVisibility s.alwaysShowONU).myVisibility ≠
            (s.data user).myVisibility then
          g.updateVisibility ((s.data user).updateVisibility s.alwaysShowONU).myVisibility
            ((s.data user).updateVisibility s.alwaysShowONU).mySubGroup
        else g := by
    simp [ContactGroup.transfer, ContactGroup.updateNumEvents, ContactUserData.updateVisibility]
  simp only [configUpdatedUser, changeUser, ite_forInstances, htransfer]
  rfl

/-- **The configuration changes.** -/
theorem good_configUpdated (hi : s.Inv) (h : s.Good) (known : UserId → Bool) :
    (s.configUpdated known).Good ∧ (s.configUpdated known).Inv := by
  refine foldl_good (fun s user hi h => ?_) s.myUsers hi h
  split_ifs
  · rw [configUpdatedUser_eq]
    exact ⟨(good_changeUser_iff hi h user _).mpr fun _ _ => rfl, inv_changeUser hi user _⟩
  · exact ⟨h, hi⟩

/-! ## Runs -/

theorem mem_of_findUser {userId : UserId} (h : s.findUser userId = some user) :
    user ∈ s.myUsers := mem_of_find?_eq_some h

/-- **One step** keeps the counters right exactly when its action meets the condition. -/
theorem good_step_iff (hi : s.Inv) (h : s.Good) (a : Action) : (s.step a).Good ↔ s.Ok a := by
  cases a with
  | userUpdated userId subSignal argument u =>
    rw [step, Ok]
    by_cases howner : userId.IsOwner
    · rw [userUpdated.eq_def, if_pos howner]
      exact iff_of_true h fun h' => absurd howner h'
    · rw [userUpdated.eq_def, if_neg howner]
      cases huser : s.findUser userId with
      | none => exact iff_of_true h fun _ _ user hmem => nomatch hmem
      | some user =>
        cases u with
        | none => exact iff_of_true h fun _ _ _ _ u hmem => nomatch hmem
        | some u =>
          simp only
          split_ifs with hfetch
          · exact iff_of_true h fun _ h' => absurd hfetch h'
          · rw [good_updateUser_iff hi h]
            simp [howner, hfetch]
  | setAlwaysShowONU => exact iff_of_true h trivial
  | configUpdated known => exact iff_of_true (good_configUpdated hi h known).1 trivial
  | reloadAll groups users => exact iff_of_true (good_reloadAll hi h groups users).1 trivial
  | userAdded u =>
    cases u with
    | none => exact iff_of_true h trivial
    | some u => exact iff_of_true (good_addUser hi h u).1 trivial
  | userRemoved userId =>
    rw [step, removeUser]
    split
    · exact iff_of_true h trivial
    · exact iff_of_true (good_deleteUser hi h _).1 trivial
  | groupAdded groupId =>
    exact iff_of_true (good_addGroup hi h groupId).1 trivial
  | groupRemoved groupId =>
    exact iff_of_true (good_removeGroup hi h groupId).1 trivial

/-- **One step** keeps the list well formed. -/
theorem inv_step (hi : s.Inv) (h : s.Good) (a : Action) : (s.step a).Inv := by
  cases a with
  | userUpdated userId subSignal argument u =>
    rw [step]
    by_cases howner : userId.IsOwner
    · rw [userUpdated.eq_def, if_pos howner]
      exact hi
    · rw [userUpdated.eq_def, if_neg howner]
      split
      · rename_i user u huser
        split_ifs
        · exact hi
        · exact inv_updateUser hi (hi.users _ (mem_of_findUser huser)) _ _
      · exact hi
  | setAlwaysShowONU => exact ⟨hi.nodup, hi.fresh, hi.users⟩
  | configUpdated known => exact (good_configUpdated hi h known).2
  | reloadAll groups users => exact (good_reloadAll hi h groups users).2
  | userAdded u =>
    cases u with
    | none => exact hi
    | some u => exact (good_addUser hi h u).2
  | userRemoved userId =>
    rw [step, removeUser]
    split
    · exact hi
    · exact (good_deleteUser hi h _).2
  | groupAdded groupId => exact (good_addGroup hi h groupId).2
  | groupRemoved groupId => exact (good_removeGroup hi h groupId).2

theorem mem_systemGroups {alwaysShowONU : Bool}
    (h : g ∈ (systemGroups alwaysShowONU).myGroups) :
    ∃ id showMask hideMask, g = .new id showMask hideMask := by
  simp only [systemGroups, mem_cons, not_mem_nil, or_false] at h
  rcases h with rfl | rfl | rfl | rfl | rfl | rfl | rfl | rfl
  all_goals exact ⟨_, _, _, rfl⟩

/-- **The counters of the contact list.**  They are right along a run exactly when no update takes a
visible user that some group has into another sub group. -/
theorem stays_good_iff (alwaysShowONU : Bool) (as : List Action) :
    Steps.Stays (fun s a => some (s.step a)) Good (systemGroups alwaysShowONU) as ↔
      Steps.Each (fun s a => some (s.step a)) Ok (systemGroups alwaysShowONU) as := by
  have hi : (systemGroups alwaysShowONU).Inv := by
    refine ⟨fun g hg => ?_, fun g hg => ?_, nofun⟩
    · obtain ⟨id, showMask, hideMask, rfl⟩ := mem_systemGroups hg
      exact List.nodup_nil
    · obtain ⟨id, showMask, hideMask, rfl⟩ := mem_systemGroups hg
      exact nofun
  have h : (systemGroups alwaysShowONU).Good := by
    intro g hg
    obtain ⟨id, showMask, hideMask, rfl⟩ := mem_systemGroups hg
    exact (ContactGroup.right_iff _).mpr fun k => by cases k <;> rfl
  refine Steps.stays_iff_each_of_inv (fun s a _ _ hnone => nomatch hnone) ?_ ?_ h hi as
  · intro s a s' h hi hs
    cases hs
    exact good_step_iff hi h a
  · intro s a s' h hi hs _
    cases hs
    exact inv_step hi h a

/-- A contact with this status that is on no special list. -/
def contact (status : ℕ) : LicqUser where
  id := UserId.user (UserId.owner jabberPpid ['a']) ['b']
  status := status
  isInvisible := false
  isTyping := false
  birthday := false
  phoneNumber := false
  cellularNumber := false
  secure := false
  gpgKey := false
  useGPG := false
  customAutoResponse := false
  notInList := false
  newUser := false
  awaitingAuth := false
  ignoreList := false
  onlineNotify := false
  invisibleList := false
  visibleList := false
  phoneFollowMeStatus := icqPluginInactive
  icqPhoneStatus := icqPluginInactive
  sharedFilesStatus := icqPluginInactive
  newMessages := 0
  groups := []

/-- A contact that is online goes offline: a bar still has it as visible. -/
theorem not_stays_goes_offline :
    ¬ Steps.Stays (fun s a => some (s.step a)) Good (systemGroups true)
      [.userAdded (contact 1), .userUpdated (contact 1).id userStatus 0 (contact offlineStatus)] := by
  intro h
  have hgood := h.foldlM rfl
  have hbar : ∃ g ∈ ((systemGroups true).step (.userAdded (contact 1)) |>.step
      (.userUpdated (contact 1).id userStatus 0 (contact offlineStatus))).myGroups,
      g.myUsers = [0] ∧ (g.myBars .online).myVisibleContacts = 1 ∧
        (((systemGroups true).step (.userAdded (contact 1)) |>.step
          (.userUpdated (contact 1).id userStatus 0 (contact offlineStatus))).data 0).mySubGroup =
            .offline := by
    decide +kernel
  obtain ⟨g, hg, husers, hvisible, hsub⟩ := hbar
  have hright := (hgood g hg).barVisible .online
  rw [hvisible, ContactGroup.members, husers] at hright
  simp [hsub] at hright

end ContactListModel

end Licq.QtGui
