import Licq.Icq.Srv.ServerList

/-!
# Icq/Srv/ExportGroups — the group that a user is exported to

`CPU_ExportToServerList` looks for the group of a user in a variable that it does not reset between
two users, so that a user that is in no group is exported to the group of the user before it.

The **main result** `exportsOwn_iff` says for which lists every user gets a group of its own.
-/

namespace Licq

/-- The group that everybody else goes to: the first one from the list, or 1. -/
def defaultGsid (groupIds : List ℕ) : UInt16 :=
  let nGSID := (groupIds.head?.map UInt16.ofNat).getD 0
  if nGSID = 0 then 1 else nGSID

/-- The group that a user is to be exported to: the first of its groups that is on the server. -/
def IcqUser.ownGsid (u : IcqUser) (groupIds : List ℕ) : UInt16 :=
  ((u.groups.map UInt16.ofNat).find? (· ≠ 0)).getD (defaultGsid groupIds)

/-- A user is exported with a group of its own: this group is packed and remembered.  Only on the
normal list there is a group to be packed. -/
structure ExportedOwn (type : ContactType) (groupIds : List ℕ) (u e : IcqUser) : Prop where
  packed : e.gsidOn type = if type = .normal then u.ownGsid groupIds else 0
  remembered : e.nGSID = if type = .normal then u.ownGsid groupIds else u.nGSID

/-- Every user that is exported, as it is when its turn comes, gets a group of its own. -/
def ExportsOwn (type : ContactType) (groupIds : List ℕ) (users : List (UInt16 × Option IcqUser)) :
    Prop :=
  List.Forall₂ (ExportedOwn type groupIds) (users.filterMap Prod.snd)
    (exported type groupIds 0 users)

/-- What a user must find in the variable: it is in a group, or this is the default group. -/
def Leaves (groupIds : List ℕ) (u v : IcqUser) : Prop :=
  v.groups = [] → u.ownGsid groupIds = defaultGsid groupIds

theorem defaultGsid_ne_zero (groupIds : List ℕ) : defaultGsid groupIds ≠ 0 := by
  rw [defaultGsid]
  split_ifs with h
  · decide
  · exact h

theorem ownGsid_ne_zero (u : IcqUser) (groupIds : List ℕ) : u.ownGsid groupIds ≠ 0 := by
  rw [IcqUser.ownGsid]
  cases hfind : (u.groups.map UInt16.ofNat).find? (· ≠ 0) with
  | none => exact defaultGsid_ne_zero groupIds
  | some gsid => simpa using List.find?_some hfind

theorem ownGsid_of_noGroups {u : IcqUser} (h : u.groups = []) (groupIds : List ℕ) :
    u.ownGsid groupIds = defaultGsid groupIds := by
  rw [IcqUser.ownGsid, h]
  rfl

/-- The search of one turn. -/
theorem exportGsid_of_groups {u : IcqUser} (h : u.groups ≠ []) (nGSID : UInt16)
    (groupIds : List ℕ) : exportGsid nGSID u groupIds = u.ownGsid groupIds := by
  rw [exportGsid, if_neg h, firstGroupId, IcqUser.ownGsid]
  cases hfind : (u.groups.map UInt16.ofNat).find? (· ≠ 0) with
  | none => rfl
  | some gsid =>
    have hne : gsid ≠ 0 := by simpa using List.find?_some hfind
    simp [hne]

/-- A user that is in no group takes over what the variable holds. -/
theorem exportGsid_of_noGroups {u : IcqUser} (h : u.groups = []) {nGSID : UInt16}
    (hne : nGSID ≠ 0) (groupIds : List ℕ) : exportGsid nGSID u groupIds = nGSID := by
  simp [exportGsid, h, hne]

/-- **One turn**: the group is the user's own unless the user is in none and the variable holds
another one than the default. -/
theorem exportGsid_eq_ownGsid_iff {u : IcqUser} {nGSID : UInt16} (hne : nGSID ≠ 0)
    (groupIds : List ℕ) :
    exportGsid nGSID u groupIds = u.ownGsid groupIds ↔
      (u.groups = [] → nGSID = defaultGsid groupIds) := by
  by_cases h : u.groups = []
  · rw [exportGsid_of_noGroups h hne, ownGsid_of_noGroups h]
    exact ⟨fun heq _ => heq, fun heq => heq h⟩
  · exact iff_of_true (exportGsid_of_groups h nGSID groupIds) fun hnil => absurd hnil h

/-- The first user starts with an empty variable. -/
theorem exportGsid_zero (u : IcqUser) (groupIds : List ℕ) :
    exportGsid 0 u groupIds = u.ownGsid groupIds := by
  by_cases h : u.groups = []
  · rw [ownGsid_of_noGroups h]
    simp [exportGsid, h, defaultGsid]
  · exact exportGsid_of_groups h 0 groupIds

/-- The turn of a user that is there, and those after it. -/
theorem exported_cons_iff (nGSID nSID : UInt16) (u : IcqUser) (groupIds : List ℕ)
    (users : List (UInt16 × Option IcqUser)) :
    List.Forall₂ (ExportedOwn .normal groupIds) (((nSID, some u) :: users).filterMap Prod.snd)
        (exported .normal groupIds nGSID ((nSID, some u) :: users)) ↔
      exportGsid nGSID u groupIds = u.ownGsid groupIds ∧
        List.Forall₂ (ExportedOwn .normal groupIds) (users.filterMap Prod.snd)
          (exported .normal groupIds (exportGsid nGSID u groupIds) users) := by
  change List.Forall₂ _ (u :: _) (_ :: exported .normal groupIds _ users) ↔ _
  rw [List.forall₂_cons]
  exact and_congr_left fun _ => ⟨fun h => h.packed, fun h => ⟨h, h⟩⟩

/-- **The turns after a user**, of which each is right when the one before it leaves what it needs. -/
theorem exported_forall₂_iff {groupIds : List ℕ} (u : IcqUser)
    (users : List (UInt16 × Option IcqUser)) :
    List.Forall₂ (ExportedOwn .normal groupIds) (users.filterMap Prod.snd)
        (exported .normal groupIds (u.ownGsid groupIds) users) ↔
      (u :: users.filterMap Prod.snd).IsChain (Leaves groupIds) := by
  induction users generalizing u with
  | nil => exact iff_of_true .nil (.singleton u)
  | cons x users ih =>
    obtain ⟨nSID, none | v⟩ := x
    · exact ih u
    · change _ ↔ (u :: v :: users.filterMap Prod.snd).IsChain (Leaves groupIds)
      have hturn := @exportGsid_eq_ownGsid_iff v _ (ownGsid_ne_zero u groupIds) groupIds
      rw [exported_cons_iff, List.isChain_cons_cons, hturn]
      refine and_congr_right fun hleaves => ?_
      rw [hturn.mpr hleaves]
      exact ih v

/-- Off the normal list nothing is looked for. -/
theorem exportsOwn_of_ne_normal {type : ContactType} (h : type ≠ .normal) (groupIds : List ℕ)
    (nGSID : UInt16) (users : List (UInt16 × Option IcqUser)) :
    List.Forall₂ (ExportedOwn type groupIds) (users.filterMap Prod.snd)
      (exported type groupIds nGSID users) := by
  induction users with
  | nil => exact .nil
  | cons x users ih =>
    obtain ⟨nSID, none | v⟩ := x
    · cases type <;> exact ih
    · cases type with
      | normal => exact absurd rfl h
      | visible => exact .cons ⟨rfl, rfl⟩ ih
      | invisible => exact .cons ⟨rfl, rfl⟩ ih
      | ignore => exact .cons ⟨rfl, rfl⟩ ih

/-- **Every user gets a group of its own** if and only if no user in no group comes right after one
whose own group is not the default. -/
theorem exportsOwn_iff (type : ContactType) (groupIds : List ℕ)
    (users : List (UInt16 × Option IcqUser)) :
    ExportsOwn type groupIds users ↔
      (type = .normal → (users.filterMap Prod.snd).IsChain (Leaves groupIds)) := by
  rw [ExportsOwn]
  by_cases hnormal : type = .normal
  · subst hnormal
    rw [forall_prop_of_true rfl]
    induction users with
    | nil => exact iff_of_true .nil .nil
    | cons x users ih =>
      obtain ⟨nSID, none | u⟩ := x
      · exact ih
      · rw [exported_cons_iff, exportGsid_zero, and_iff_right rfl]
        exact exported_forall₂_iff u users
  · exact iff_of_true (exportsOwn_of_ne_normal hnormal groupIds 0 users) fun h => absurd h hnormal

/-- A user that is in groups with these ids. -/
def exportUser (accountId : List UInt8) (groups : List ℕ) : IcqUser where
  accountId := accountId
  myAlias := []
  nSID := 0
  nGSID := 0
  nVisibleSID := 0
  nInvisibleSID := 0
  bAwaitingAuth := false
  groups := groups
  tlvs := SortedMap.empty
  tlvs_lt := by decide

/-- The second user goes where the first one went, and not to the default group. -/
theorem not_exportsOwn_afterGroup :
    ¬ ∀ groupIds users, ExportsOwn .normal groupIds users := by
  intro h
  have hexports := h [7] [(1, some (exportUser [49] [5])), (2, some (exportUser [50] []))]
  cases hexports with
  | cons _ hsecond =>
    cases hsecond with
    | cons hsecond _ => exact absurd hsecond.packed (by decide)

end Licq
