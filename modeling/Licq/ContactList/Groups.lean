import Mathlib.Algebra.Order.Ring.Int
import Mathlib.Data.List.Perm.Subperm
import Mathlib.Data.List.NodupEquivFin
import Licq.Data.SortedMap
import Licq.ContactList.UserId

/-!
# ContactList/Groups — the groups of the contact list

`AddGroup`, `RemoveGroup`, `RenameGroup` and `ModifyGroupSorting` of `usermanager.cpp`.

Two **main results**.  In every run the sorting indexes stay a permutation of `0, …, n - 1`, and
moving a group leaves the others in their order (`run_sorted`).  Ids and names stay as they should
be exactly as long as no group is renamed to the empty name (`staysNamed_iff`): `AddGroup` refuses
that name and `RenameGroup` does not.
-/

namespace Licq

open List SortedMap

/-- A group; its server ids are listed in the order they are iterated in. -/
structure Group where
  name : List Char
  sortIndex : ℤ
  serverIds : List (UserId × ℕ)
  serverIds_nodup : (serverIds.map Prod.fst).Nodup

/-- `myGroups` -/
abbrev GroupMap := SortedMap ℤ Group

namespace GroupMap

/-! ## The calls -/

/-- `GetGroupFromName`: the last group of that name, 0 if there is none. -/
def getGroupFromName (myGroups : GroupMap) (name : List Char) : ℤ :=
  myGroups.entries.foldl (fun id group => if group.2.name = name then group.1 else id) 0

/-- The loop that finds the first free group id. -/
def freeId (myGroups : GroupMap) : ℕ → ℤ → Option ℤ
  | 0, _ => none
  | fuel + 1, gid =>
    if (myGroups.find? gid).isSome then freeId myGroups fuel (gid + 1) else some gid

/-- The new group and whether one was added; none where the loop does not end. -/
def addGroup (myGroups : GroupMap) (name : List Char) : Option (GroupMap × ℤ) :=
  if name = [] then some (myGroups, 0)
  else if myGroups.getGroupFromName name ≠ 0 then some (myGroups, 0)
  else (myGroups.freeId (myGroups.size + 1) 1).map fun gid =>
    (myGroups.insert gid ⟨name, myGroups.size, [], List.nodup_nil⟩, gid)

def setSortIndex (sortIndex : ℤ) (group : Group) : Group := { group with sortIndex := sortIndex }

def removeGroup (myGroups : GroupMap) (groupId : ℤ) : GroupMap :=
  match myGroups.find? groupId with
  | none => myGroups
  | some group =>
    -- decrease sorting index for higher groups so we don't leave a gap
    (myGroups.erase groupId).mapVals fun _ g =>
      if g.sortIndex > group.sortIndex then setSortIndex (g.sortIndex - 1) g else g

/-- The sorting index of another group when one is moved. -/
def shiftIndex (oldIndex newIndex si : ℤ) : ℤ :=
  if newIndex < oldIndex ∧ si ≥ newIndex ∧ si < oldIndex then si + 1
  else if newIndex > oldIndex ∧ si > oldIndex ∧ si ≤ newIndex then si - 1
  else si

/-- The requested index in the valid range. -/
def clampIndex (myGroups : GroupMap) (newIndex : ℤ) : ℤ :=
  let newIndex := if newIndex < 0 then 0 else newIndex
  if newIndex ≥ myGroups.size then myGroups.size - 1 else newIndex

def modifyGroupSorting (myGroups : GroupMap) (groupId newIndex : ℤ) : GroupMap :=
  match myGroups.find? groupId with
  | none => myGroups
  | some group =>
    let newIndex := myGroups.clampIndex newIndex
    let moved := myGroups.mapVals fun _ g =>
      setSortIndex (shiftIndex group.sortIndex newIndex g.sortIndex) g
    moved.modify groupId (setSortIndex newIndex)

def renameGroup (myGroups : GroupMap) (groupId : ℤ) (name : List Char) : GroupMap × Bool :=
  let foundGroupId := myGroups.getGroupFromName name
  if foundGroupId = groupId then (myGroups, true)
  else if foundGroupId ≠ 0 then (myGroups, false)
  else if (myGroups.find? groupId).isNone then (myGroups, false)
  else (myGroups.modify groupId fun group => { group with name := name }, true)

end GroupMap

/-- A call. -/
inductive GroupCall
  | add (name : List Char)
  | remove (groupId : ℤ)
  | rename (groupId : ℤ) (name : List Char)
  | modifySorting (groupId newIndex : ℤ)

/-- A call, and whether it was accepted. -/
def GroupMap.step (myGroups : GroupMap) : GroupCall → Option (GroupMap × Bool)
  | .add name => (myGroups.addGroup name).map fun r => (r.1, r.2 ≠ 0)
  | .remove groupId => some (myGroups.removeGroup groupId, (myGroups.find? groupId).isSome)
  | .rename groupId name => some (myGroups.renameGroup groupId name)
  | .modifySorting groupId newIndex =>
    some (myGroups.modifyGroupSorting groupId newIndex, (myGroups.find? groupId).isSome)

/-- One call after the other. -/
def GroupMap.run (myGroups : GroupMap) : List GroupCall → Option GroupMap
  | [] => some myGroups
  | call :: calls => do
    let r ← myGroups.step call
    GroupMap.run r.1 calls

/-! ## The sorting indexes -/

namespace GroupMap

/-- The sorting indexes are `0, …, n - 1` in some order. -/
def Sorted (myGroups : GroupMap) : Prop :=
  (myGroups.entries.map fun group => group.2.sortIndex).Perm
    ((List.range myGroups.size).map Nat.cast)

variable {myGroups : GroupMap} {groupId : ℤ} {group : Group}

/-- Being in order, group by group. -/
theorem sorted_iff : myGroups.Sorted ↔
    (∀ a b ga gb, myGroups.find? a = some ga → myGroups.find? b = some gb →
      ga.sortIndex = gb.sortIndex → a = b) ∧
    ∀ a ga, myGroups.find? a = some ga → 0 ≤ ga.sortIndex ∧ ga.sortIndex < myGroups.size := by
  have hrange : ((range myGroups.size).map (Nat.cast : ℕ → ℤ)).Nodup :=
    nodup_range.map Nat.cast_injective
  have hmem : ∀ x : ℤ, x ∈ (range myGroups.size).map (Nat.cast : ℕ → ℤ) ↔
      0 ≤ x ∧ x < myGroups.size := by
    intro x
    rw [mem_map]
    constructor
    · rintro ⟨k, hk, rfl⟩
      rw [mem_range] at hk
      omega
    · rintro ⟨hpos, hlt⟩
      exact ⟨x.toNat, mem_range.mpr (by omega), by omega⟩
  have hentries : myGroups.entries.Nodup := myGroups.nodupKeys.nodup
  constructor
  · intro h
    have hnodup := (nodup_map_iff_inj_on hentries).mp (h.nodup_iff.mpr hrange)
    constructor
    · intro a b ga gb ha hb heq
      exact congrArg Sigma.fst (hnodup _ (mem_entries_iff.mpr ha) _
        (mem_entries_iff.mpr hb) heq)
    · intro a ga ha
      exact (hmem _).mp (h.subset (mem_map_of_mem (mem_entries_iff.mpr ha)))
  · rintro ⟨hinj, hbound⟩
    have hnodup : (myGroups.entries.map fun group => group.2.sortIndex).Nodup := by
      refine (nodup_map_iff_inj_on hentries).mpr fun x hx y hy heq => ?_
      obtain ⟨a, ga⟩ := x
      obtain ⟨b, gb⟩ := y
      obtain rfl := hinj a b ga gb (mem_entries_iff.mp hx)
        (mem_entries_iff.mp hy) heq
      exact List.NodupKeys.eq_of_mk_mem myGroups.nodupKeys hx hy |> congrArg (Sigma.mk a)
    have hsubset : myGroups.entries.map (fun group => group.2.sortIndex) ⊆
        (range myGroups.size).map Nat.cast := by
      intro x hx
      obtain ⟨⟨a, ga⟩, he, rfl⟩ := mem_map.mp hx
      exact (hmem _).mpr (hbound a ga (mem_entries_iff.mp he))
    refine (subperm_of_subset hnodup hsubset).perm_of_length_le ?_
    rw [length_map, length_map, length_range]
    exact le_refl _

/-- All ids from `gid` on are taken as long as the loop does not end. -/
theorem isSome_of_freeId_eq_none {fuel : ℕ} {gid : ℤ}
    (h : myGroups.freeId fuel gid = none) {k : ℕ} (hk : k < fuel) :
    (myGroups.find? (gid + k)).isSome = true := by
  induction fuel generalizing gid k with
  | zero => exact absurd hk (Nat.not_lt_zero k)
  | succ fuel ih =>
    rw [freeId] at h
    split at h
    · rename_i hsome
      cases k with
      | zero => rwa [Nat.cast_zero, add_zero]
      | succ k =>
        have hshift : gid + (k + 1 : ℕ) = gid + 1 + k := by omega
        rw [hshift]
        exact ih h (by omega)
    · cases h

theorem freeId_eq_some {fuel : ℕ} {gid id : ℤ}
    (h : myGroups.freeId fuel gid = some id) : gid ≤ id ∧ myGroups.find? id = none := by
  induction fuel generalizing gid with
  | zero => cases h
  | succ fuel ih =>
    rw [freeId] at h
    split at h
    · obtain ⟨hle, hnone⟩ := ih h
      exact ⟨by omega, hnone⟩
    · rename_i hsome
      cases h
      exact ⟨le_refl _, Option.not_isSome_iff_eq_none.mp hsome⟩

/-- **There is a free group id.** -/
theorem exists_freeId (myGroups : GroupMap) :
    ∃ id, myGroups.freeId (myGroups.size + 1) 1 = some id := by
  cases h : myGroups.freeId (myGroups.size + 1) 1 with
  | some id => exact ⟨id, rfl⟩
  | none =>
    -- one id more would be taken than there are groups
    have hsubset : (range (myGroups.size + 1)).map (fun k : ℕ => (1 : ℤ) + k) ⊆
        myGroups.entries.keys := by
      intro x hx
      obtain ⟨k, hk, rfl⟩ := mem_map.mp hx
      exact dlookup_isSome.mp (isSome_of_freeId_eq_none h (mem_range.mp hk))
    have hnodup : ((range (myGroups.size + 1)).map (fun k : ℕ => (1 : ℤ) + k)).Nodup :=
      nodup_range.map fun a b hab => Nat.cast_injective (add_left_cancel hab)
    have hlen := (subperm_of_subset hnodup hsubset).length_le
    rw [length_map, length_range, List.keys, length_map] at hlen
    exact absurd hlen (Nat.not_succ_le_self _)

theorem sorted_addGroup (h : myGroups.Sorted) (name : List Char) :
    ∃ r, myGroups.addGroup name = some r ∧ GroupMap.Sorted r.1 := by
  rw [addGroup]
  split
  · exact ⟨_, rfl, h⟩
  · split
    · exact ⟨_, rfl, h⟩
    · obtain ⟨gid, hgid⟩ := myGroups.exists_freeId
      obtain ⟨-, hnone⟩ := freeId_eq_some hgid
      rw [hgid]
      refine ⟨_, rfl, ?_⟩
      have hperm := (perm_insert hnone ⟨name, myGroups.size, [], nodup_nil⟩).map
        fun group => group.2.sortIndex
      have hrange : ((range (myGroups.size + 1)).map (Nat.cast : ℕ → ℤ)).Perm
          ((myGroups.size : ℤ) :: (range myGroups.size).map Nat.cast) := by
        rw [range_succ, map_append]
        exact perm_append_singleton _ _
      change (map _ (entries _)).Perm ((range (size _)).map Nat.cast)
      rw [size_insert hnone]
      exact (hperm.trans (h.cons _)).trans hrange.symm

theorem find?_removeGroup
    (h : myGroups.find? groupId = some group) (id : ℤ) :
    (myGroups.removeGroup groupId).find? id =
      if id = groupId then none
      else (myGroups.find? id).map fun g =>
        if g.sortIndex > group.sortIndex then setSortIndex (g.sortIndex - 1) g else g := by
  rw [removeGroup, h]
  simp only
  rw [find?_mapVals]
  by_cases hid : id = groupId
  · rw [if_pos hid, hid, find?_erase_self, Option.map_none]
  · rw [if_neg hid, find?_erase_of_ne _ hid]

theorem size_removeGroup
    (h : myGroups.find? groupId = some group) :
    (myGroups.removeGroup groupId).size + 1 = myGroups.size := by
  rw [removeGroup, h]
  simp only
  rw [size_mapVals, size_erase h]

theorem sorted_removeGroup (h : myGroups.Sorted) (groupId : ℤ) :
    (myGroups.removeGroup groupId).Sorted := by
  cases hfind : myGroups.find? groupId with
  | none =>
    rw [removeGroup, hfind]
    exact h
  | some group =>
    obtain ⟨hinj, hbound⟩ := sorted_iff.mp h
    have hsize := size_removeGroup hfind
    -- an index that is left is that of another group
    have hleft : ∀ id g, (myGroups.removeGroup groupId).find? id = some g →
        ∃ g', myGroups.find? id = some g' ∧ g'.sortIndex ≠ group.sortIndex ∧
          g.sortIndex =
            if g'.sortIndex > group.sortIndex then g'.sortIndex - 1 else g'.sortIndex := by
      intro id g hg
      rw [find?_removeGroup hfind] at hg
      split at hg
      · cases hg
      · rename_i hne
        obtain ⟨g', hg', rfl⟩ := Option.map_eq_some_iff.mp hg
        refine ⟨g', hg', fun heq => hne (hinj _ _ _ _ hg' hfind heq), ?_⟩
        split <;> rfl
    refine sorted_iff.mpr ⟨?_, ?_⟩
    · intro a b ga gb ha hb heq
      obtain ⟨ga', ha', hane, hga⟩ := hleft a ga ha
      obtain ⟨gb', hb', hbne, hgb⟩ := hleft b gb hb
      refine hinj a b ga' gb' ha' hb' ?_
      rw [hga, hgb] at heq
      split at heq <;> split at heq <;> omega
    · intro a ga ha
      obtain ⟨ga', ha', hane, hga⟩ := hleft a ga ha
      have hrange := hbound a ga' ha'
      have hrange' := hbound groupId group hfind
      rw [hga]
      split <;> omega

theorem find?_modifyGroupSorting {newIndex : ℤ}
    (h : myGroups.find? groupId = some group) (id : ℤ) :
    (myGroups.modifyGroupSorting groupId newIndex).find? id = (myGroups.find? id).map fun g =>
      setSortIndex (if id = groupId then myGroups.clampIndex newIndex
        else shiftIndex group.sortIndex (myGroups.clampIndex newIndex) g.sortIndex) g := by
  rw [modifyGroupSorting, h]
  simp only
  by_cases hid : id = groupId
  · subst hid
    rw [find?_modify_self, find?_mapVals, h]
    simp only [Option.map_some, if_true, setSortIndex]
  · rw [find?_modify_of_ne _ _ hid, find?_mapVals]
    simp only [hid, if_false]

theorem size_modifyGroupSorting (myGroups : GroupMap) (groupId newIndex : ℤ) :
    (myGroups.modifyGroupSorting groupId newIndex).size = myGroups.size := by
  rw [modifyGroupSorting]
  split
  · rfl
  · simp only
    rw [SortedMap.modify, size_mapVals, size_mapVals]

theorem clampIndex_eq
    (h : myGroups.find? groupId = some group) (newIndex : ℤ) :
    myGroups.clampIndex newIndex = max 0 (min newIndex (myGroups.size - 1)) := by
  have hpos : 0 < myGroups.size := by
    rw [← size_erase h]
    exact Nat.succ_pos _
  simp only [clampIndex]
  split <;> split <;> omega

theorem sorted_modifyGroupSorting (h : myGroups.Sorted)
    (groupId newIndex : ℤ) : (myGroups.modifyGroupSorting groupId newIndex).Sorted := by
  cases hfind : myGroups.find? groupId with
  | none =>
    rw [modifyGroupSorting, hfind]
    exact h
  | some group =>
    obtain ⟨hinj, hbound⟩ := sorted_iff.mp h
    have hgroup := hbound groupId group hfind
    have hclamp := clampIndex_eq hfind newIndex
    generalize hidx : myGroups.clampIndex newIndex = index at hclamp
    have hmoved : ∀ id g, (myGroups.modifyGroupSorting groupId newIndex).find? id = some g →
        ∃ g', myGroups.find? id = some g' ∧ (id = groupId ∧ g.sortIndex = index ∨
          id ≠ groupId ∧ g'.sortIndex ≠ group.sortIndex ∧
            g.sortIndex = shiftIndex group.sortIndex index g'.sortIndex) := by
      intro id g hg
      rw [find?_modifyGroupSorting hfind, hidx] at hg
      obtain ⟨g', hg', rfl⟩ := Option.map_eq_some_iff.mp hg
      refine ⟨g', hg', ?_⟩
      by_cases hid : id = groupId
      · exact .inl ⟨hid, if_pos hid⟩
      · exact .inr ⟨hid, fun heq => hid (hinj _ _ _ _ hg' hfind heq), if_neg hid⟩
    refine sorted_iff.mpr ⟨?_, ?_⟩
    · intro a b ga gb ha hb heq
      obtain ⟨ga', ha', hga⟩ := hmoved a ga ha
      obtain ⟨gb', hb', hgb⟩ := hmoved b gb hb
      obtain ⟨rfl, hga⟩ | ⟨hane, hane', hga⟩ := hga
      · obtain ⟨rfl, hgb⟩ | ⟨hbne, hbne', hgb⟩ := hgb
        · rfl
        · rw [hga, hgb, shiftIndex] at heq
          split at heq
          · omega
          · split at heq <;> omega
      · obtain ⟨rfl, hgb⟩ | ⟨hbne, hbne', hgb⟩ := hgb
        · rw [hga, hgb, shiftIndex] at heq
          split at heq
          · omega
          · split at heq <;> omega
        · refine hinj a b ga' gb' ha' hb' ?_
          rw [hga, hgb, shiftIndex, shiftIndex] at heq
          split at heq <;> split at heq <;> (try split at heq) <;> (try split at heq) <;> omega
    · intro a ga ha
      rw [size_modifyGroupSorting]
      obtain ⟨ga', ha', hga⟩ := hmoved a ga ha
      have hrange := hbound a ga' ha'
      obtain ⟨-, hga⟩ | ⟨-, -, hga⟩ := hga
      · omega
      · rw [hga, shiftIndex]
        split
        · omega
        · split <;> omega

theorem sorted_renameGroup (h : myGroups.Sorted) (groupId : ℤ)
    (name : List Char) : GroupMap.Sorted (myGroups.renameGroup groupId name).1 := by
  rw [renameGroup]
  split
  · exact h
  · split
    · exact h
    · split
      · exact h
      · obtain ⟨hinj, hbound⟩ := sorted_iff.mp h
        have hkeep : ∀ id g, (SortedMap.modify myGroups groupId fun group =>
            { group with name := name }).find? id = some g →
            ∃ g', myGroups.find? id = some g' ∧ g.sortIndex = g'.sortIndex := by
          intro id g hg
          rw [SortedMap.modify, find?_mapVals] at hg
          obtain ⟨g', hg', rfl⟩ := Option.map_eq_some_iff.mp hg
          refine ⟨g', hg', ?_⟩
          split <;> rfl
        refine sorted_iff.mpr ⟨?_, ?_⟩
        · intro a b ga gb ha hb heq
          obtain ⟨ga', ha', hga⟩ := hkeep a ga ha
          obtain ⟨gb', hb', hgb⟩ := hkeep b gb hb
          exact hinj a b ga' gb' ha' hb' (by omega)
        · intro a ga ha
          obtain ⟨ga', ha', hga⟩ := hkeep a ga ha
          rw [hga, SortedMap.modify, size_mapVals]
          exact hbound a ga' ha'

/-- **One call** keeps the groups in order. -/
theorem sorted_step (h : myGroups.Sorted) (call : GroupCall) :
    ∃ r, myGroups.step call = some r ∧ GroupMap.Sorted r.1 := by
  cases call with
  | add name =>
    obtain ⟨r, hr, hsorted⟩ := sorted_addGroup h name
    refine ⟨(r.1, decide (r.2 ≠ 0)), ?_, hsorted⟩
    rw [step, hr, Option.map_some]
  | remove groupId => exact ⟨_, rfl, sorted_removeGroup h groupId⟩
  | rename groupId name => exact ⟨_, rfl, sorted_renameGroup h groupId name⟩
  | modifySorting groupId newIndex => exact ⟨_, rfl, sorted_modifyGroupSorting h groupId newIndex⟩

/-- A group is placed at the requested index in the valid range, and the others stay in their
order. -/
structure Places (myGroups : GroupMap) (groupId newIndex : ℤ) : Prop where
  index : ((myGroups.modifyGroupSorting groupId newIndex).find? groupId).map Group.sortIndex =
    some (max 0 (min newIndex (myGroups.size - 1)))
  order : ∀ a b ga gb, a ≠ groupId → b ≠ groupId →
    myGroups.find? a = some ga → myGroups.find? b = some gb →
    ∃ ga' gb', (myGroups.modifyGroupSorting groupId newIndex).find? a = some ga' ∧
      (myGroups.modifyGroupSorting groupId newIndex).find? b = some gb' ∧
      (ga'.sortIndex < gb'.sortIndex ↔ ga.sortIndex < gb.sortIndex)

theorem places (h : myGroups.Sorted)
    (hfind : myGroups.find? groupId = some group) (newIndex : ℤ) :
    myGroups.Places groupId newIndex := by
  obtain ⟨hinj, -⟩ := sorted_iff.mp h
  refine ⟨?_, ?_⟩
  · rw [find?_modifyGroupSorting hfind, hfind, Option.map_some, Option.map_some, if_pos rfl,
      clampIndex_eq hfind]
    rfl
  · intro a b ga gb ha hb hfa hfb
    have hane : ga.sortIndex ≠ group.sortIndex := fun heq => ha (hinj _ _ _ _ hfa hfind heq)
    have hbne : gb.sortIndex ≠ group.sortIndex := fun heq => hb (hinj _ _ _ _ hfb hfind heq)
    refine ⟨_, _, by rw [find?_modifyGroupSorting hfind, hfa, Option.map_some, if_neg ha],
      by rw [find?_modifyGroupSorting hfind, hfb, Option.map_some, if_neg hb], ?_⟩
    generalize myGroups.clampIndex newIndex = index
    simp only [setSortIndex, shiftIndex]
    split <;> split <;> (try split) <;> (try split) <;> omega

/-- **Every run keeps the groups in order**, and moving a group in any state that it comes to places
that group and keeps the order of the others. -/
theorem run_sorted (myGroups : GroupMap) (h : myGroups.Sorted) (calls : List GroupCall) :
    ∃ r, myGroups.run calls = some r ∧ r.Sorted ∧ ∀ groupId newIndex,
      (r.find? groupId).isSome = true → r.Places groupId newIndex := by
  induction calls generalizing myGroups with
  | nil =>
    refine ⟨myGroups, rfl, h, fun groupId newIndex hsome => ?_⟩
    obtain ⟨group, hfind⟩ := Option.isSome_iff_exists.mp hsome
    exact places h hfind newIndex
  | cons call calls ih =>
    obtain ⟨r, hstep, hsorted⟩ := sorted_step h call
    obtain ⟨r', hrun, hr'⟩ := ih r.1 hsorted
    refine ⟨r', ?_, hr'⟩
    simp only [run, hstep, hrun, Option.bind_eq_bind, Option.bind_some]

/-- Two groups are added and one is moved. -/
theorem run_sorted_twoGroups : ∃ r, GroupMap.run SortedMap.empty
      [.add ['a'], .add ['b'], .modifySorting 2 (-1)] = some r ∧ r.Sorted ∧
    ∀ groupId newIndex, (r.find? groupId).isSome = true → r.Places groupId newIndex :=
  run_sorted SortedMap.empty (List.Perm.refl _) [.add ['a'], .add ['b'], .modifySorting 2 (-1)]

end GroupMap

/-! ## Ids and names -/

namespace GroupMap

/-- Ids are positive, names are not empty and distinct; ids are distinct as keys of the map. -/
structure Named (myGroups : GroupMap) : Prop where
  id_pos : ∀ id group, myGroups.find? id = some group → 0 < id
  name_ne_nil : ∀ id group, myGroups.find? id = some group → group.name ≠ []
  name_inj : ∀ a b ga gb, myGroups.find? a = some ga → myGroups.find? b = some gb →
    ga.name = gb.name → a = b

/-- Call after call, ids and names are as they should be, and a call that is rejected leaves the
groups as they are. -/
def StaysNamed (myGroups : GroupMap) : List GroupCall → Prop
  | [] => myGroups.Named
  | call :: calls => myGroups.Named ∧ ∃ r, myGroups.step call = some r ∧
    (r.2 = false → r.1 = myGroups) ∧ GroupMap.StaysNamed r.1 calls

/-- A group is not renamed to the empty name. -/
def CallOk (myGroups : GroupMap) : GroupCall → Prop
  | .rename groupId name => name = [] → myGroups.find? groupId = none
  | _ => True

def CallsOk (myGroups : GroupMap) : List GroupCall → Prop
  | [] => True
  | call :: calls =>
    myGroups.CallOk call ∧ ∀ r, myGroups.step call = some r → GroupMap.CallsOk r.1 calls

/-- The group of a name, in some entries. -/
theorem foldl_getGroupFromName (name : List Char) (entries : List (Σ _ : ℤ, Group)) (id : ℤ) :
    (entries.foldl (fun id group => if group.2.name = name then group.1 else id) id = id ∧
        ∀ e ∈ entries, e.2.name ≠ name) ∨
      ∃ e ∈ entries, e.2.name = name ∧
        entries.foldl (fun id group => if group.2.name = name then group.1 else id) id = e.1 := by
  induction entries generalizing id with
  | nil => exact .inl ⟨rfl, nofun⟩
  | cons a entries ih =>
    rw [foldl_cons]
    obtain ⟨hid, hne⟩ | ⟨e, he, hname, hid⟩ := ih (if a.2.name = name then a.1 else id)
    · rw [hid]
      by_cases ha : a.2.name = name
      · rw [if_pos ha]
        exact .inr ⟨a, mem_cons_self, ha, rfl⟩
      · rw [if_neg ha]
        refine .inl ⟨rfl, fun e he => ?_⟩
        rcases mem_cons.mp he with rfl | he
        · exact ha
        · exact hne e he
    · exact .inr ⟨e, mem_cons_of_mem a he, hname, hid⟩

variable {myGroups : GroupMap}

/-- **What a group's name finds**: 0 if there is none, else a group of that name. -/
theorem getGroupFromName_cases (h : myGroups.Named) (name : List Char) :
    (myGroups.getGroupFromName name = 0 ∧
        ∀ id group, myGroups.find? id = some group → group.name ≠ name) ∨
      0 < myGroups.getGroupFromName name ∧ ∃ group,
        myGroups.find? (myGroups.getGroupFromName name) = some group ∧ group.name = name := by
  obtain ⟨hid, hne⟩ | ⟨⟨id, group⟩, he, hname, hid⟩ :=
    foldl_getGroupFromName name myGroups.entries 0
  · exact .inl ⟨hid, fun id group hfind => hne ⟨id, group⟩ (mem_entries_iff.mpr hfind)⟩
  · have hfind := mem_entries_iff.mp he
    rw [getGroupFromName, hid]
    exact .inr ⟨h.id_pos id group hfind, group, hfind, hname⟩

theorem named_addGroup (h : myGroups.Named) (name : List Char) :
    ∃ r, myGroups.addGroup name = some r ∧ GroupMap.Named r.1 ∧ (r.2 = 0 → r.1 = myGroups) := by
  rw [addGroup]
  split
  · exact ⟨_, rfl, h, fun _ => rfl⟩
  · rename_i hne
    split
    · exact ⟨_, rfl, h, fun _ => rfl⟩
    · rename_i hfree
      have hfresh : ∀ id group, myGroups.find? id = some group → group.name ≠ name := by
        obtain ⟨-, hfresh⟩ | ⟨hpos, -⟩ := getGroupFromName_cases h name
        · exact hfresh
        · omega
      obtain ⟨gid, hgid⟩ := myGroups.exists_freeId
      obtain ⟨hle, hnone⟩ := freeId_eq_some hgid
      rw [hgid]
      refine ⟨_, rfl, ?_, fun hzero => by simp only at hzero; omega⟩
      have hcases : ∀ id group, (insert myGroups gid
          ⟨name, myGroups.size, [], nodup_nil⟩).find? id = some group →
          id = gid ∧ group.name = name ∨ id ≠ gid ∧ myGroups.find? id = some group := by
        intro id group hfind
        by_cases hid : id = gid
        · rw [hid, find?_insert_self] at hfind
          cases hfind
          exact .inl ⟨hid, rfl⟩
        · rw [find?_insert_of_ne _ _ hid] at hfind
          exact .inr ⟨hid, hfind⟩
      refine ⟨?_, ?_, ?_⟩
      · intro id group hfind
        obtain ⟨rfl, -⟩ | ⟨-, hfind⟩ := hcases id group hfind
        · omega
        · exact h.id_pos id group hfind
      · intro id group hfind
        obtain ⟨-, hname⟩ | ⟨-, hfind⟩ := hcases id group hfind
        · rwa [hname]
        · exact h.name_ne_nil id group hfind
      · intro a b ga gb ha hb heq
        obtain ⟨hagid, hga⟩ | ⟨-, ha'⟩ := hcases a ga ha
        · obtain ⟨hbgid, -⟩ | ⟨-, hb'⟩ := hcases b gb hb
          · exact hagid.trans hbgid.symm
          · exact absurd (heq.symm.trans hga) (hfresh b gb hb')
        · obtain ⟨-, hgb⟩ | ⟨-, hb'⟩ := hcases b gb hb
          · exact absurd (heq.trans hgb) (hfresh a ga ha')
          · exact h.name_inj a b ga gb ha' hb' heq

/-- Groups that are those of before, with their names. -/
theorem Named.of_names {r : GroupMap} (h : myGroups.Named)
    (hnames : ∀ id g, r.find? id = some g → ∃ g', myGroups.find? id = some g' ∧ g.name = g'.name) :
    r.Named := by
  refine ⟨?_, ?_, ?_⟩
  · intro id g hfind
    obtain ⟨g', hg', -⟩ := hnames id g hfind
    exact h.id_pos id g' hg'
  · intro id g hfind
    obtain ⟨g', hg', hname⟩ := hnames id g hfind
    rw [hname]
    exact h.name_ne_nil id g' hg'
  · intro a b ga gb ha hb heq
    obtain ⟨ga', ha', hga⟩ := hnames a ga ha
    obtain ⟨gb', hb', hgb⟩ := hnames b gb hb
    exact h.name_inj a b ga' gb' ha' hb' (hga.symm.trans (heq.trans hgb))

theorem named_removeGroup (h : myGroups.Named) (groupId : ℤ) :
    (myGroups.removeGroup groupId).Named := by
  cases hfind : myGroups.find? groupId with
  | none =>
    rw [removeGroup, hfind]
    exact h
  | some group =>
    refine h.of_names fun id g hg => ?_
    rw [find?_removeGroup hfind] at hg
    split at hg
    · cases hg
    · obtain ⟨g', hg', rfl⟩ := Option.map_eq_some_iff.mp hg
      refine ⟨g', hg', ?_⟩
      split <;> rfl

theorem named_modifyGroupSorting (h : myGroups.Named)
    (groupId newIndex : ℤ) : (myGroups.modifyGroupSorting groupId newIndex).Named := by
  cases hfind : myGroups.find? groupId with
  | none =>
    rw [modifyGroupSorting, hfind]
    exact h
  | some group =>
    refine h.of_names fun id g hg => ?_
    rw [find?_modifyGroupSorting hfind] at hg
    obtain ⟨g', hg', rfl⟩ := Option.map_eq_some_iff.mp hg
    exact ⟨g', hg', rfl⟩

/-- **Renaming a group** keeps names as they should be, except to the empty name; a call that is
rejected changes nothing. -/
theorem named_renameGroup_iff (h : myGroups.Named) (groupId : ℤ)
    (name : List Char) :
    (GroupMap.Named (myGroups.renameGroup groupId name).1 ∧
      ((myGroups.renameGroup groupId name).2 = false →
        (myGroups.renameGroup groupId name).1 = myGroups)) ↔
      (name = [] → myGroups.find? groupId = none) := by
  have hcases := getGroupFromName_cases h name
  rw [renameGroup]
  split
  · rename_i hfound
    refine ⟨fun _ hname => ?_, fun _ => ⟨h, fun _ => rfl⟩⟩
    obtain ⟨hzero, -⟩ | ⟨-, group, hfind, hgroup⟩ := hcases
    · cases hfind : myGroups.find? groupId with
      | none => rfl
      | some group =>
        have hpos := h.id_pos groupId group hfind
        omega
    · exact absurd (hgroup.trans hname) (h.name_ne_nil _ group hfind)
  · split
    · rename_i hne
      refine ⟨fun _ hname => ?_, fun _ => ⟨h, fun _ => rfl⟩⟩
      obtain ⟨hzero, -⟩ | ⟨-, group, hfind, hgroup⟩ := hcases
      · exact absurd hzero hne
      · exact absurd (hgroup.trans hname) (h.name_ne_nil _ group hfind)
    · rename_i hfree
      have hfresh : ∀ id group, myGroups.find? id = some group → group.name ≠ name := by
        obtain ⟨-, hfresh⟩ | ⟨hpos, -⟩ := hcases
        · exact hfresh
        · omega
      split
      · rename_i hnone
        exact ⟨fun _ _ => Option.isNone_iff_eq_none.mp hnone, fun _ => ⟨h, fun _ => rfl⟩⟩
      · rename_i hsome
        obtain ⟨group, hfind⟩ := Option.ne_none_iff_exists'.mp (mt Option.isNone_iff_eq_none.mpr hsome)
        have hrenamed := find?_modify_self myGroups groupId
          (fun group => { group with name := name })
        rw [hfind, Option.map_some] at hrenamed
        constructor
        · rintro ⟨hnamed, -⟩ hname
          exact absurd hname (hnamed.name_ne_nil groupId _ hrenamed)
        · intro hname
          have hne : name ≠ [] := fun hnil => by
            rw [hname hnil] at hfind
            cases hfind
          have hother : ∀ id g, id ≠ groupId → (SortedMap.modify myGroups groupId fun group =>
              { group with name := name }).find? id = some g → myGroups.find? id = some g := by
            intro id g hid hg
            rwa [find?_modify_of_ne _ _ hid] at hg
          refine ⟨⟨?_, ?_, ?_⟩, nofun⟩
          · intro id g hg
            by_cases hid : id = groupId
            · rw [hid]
              exact h.id_pos groupId group hfind
            · exact h.id_pos id g (hother id g hid hg)
          · intro id g hg
            by_cases hid : id = groupId
            · rw [hid, hrenamed] at hg
              cases hg
              exact hne
            · exact h.name_ne_nil id g (hother id g hid hg)
          · intro a b ga gb ha hb heq
            by_cases hida : a = groupId
            · by_cases hidb : b = groupId
              · exact hida.trans hidb.symm
              · rw [hida, hrenamed] at ha
                cases ha
                exact absurd heq.symm (hfresh b gb (hother b gb hidb hb))
            · by_cases hidb : b = groupId
              · rw [hidb, hrenamed] at hb
                cases hb
                exact absurd heq (hfresh a ga (hother a ga hida ha))
              · exact h.name_inj a b ga gb (hother a ga hida ha) (hother b gb hidb hb) heq

/-- **One call.** -/
theorem named_step_iff (h : myGroups.Named) (call : GroupCall) :
    ∃ r, myGroups.step call = some r ∧
      ((GroupMap.Named r.1 ∧ (r.2 = false → r.1 = myGroups)) ↔ myGroups.CallOk call) := by
  cases call with
  | add name =>
    obtain ⟨r, hr, hnamed, hrejected⟩ := named_addGroup h name
    refine ⟨(r.1, decide (r.2 ≠ 0)), by rw [step, hr, Option.map_some], ?_⟩
    refine ⟨fun _ => trivial, fun _ => ⟨hnamed, fun hfalse => hrejected ?_⟩⟩
    exact not_not.mp (of_decide_eq_false hfalse)
  | remove groupId =>
    refine ⟨_, rfl, fun _ => trivial, fun _ => ⟨named_removeGroup h groupId, fun hfalse => ?_⟩⟩
    simp only [removeGroup, Option.isSome_eq_false_iff.mp hfalse |> Option.isNone_iff_eq_none.mp]
  | rename groupId name => exact ⟨_, rfl, named_renameGroup_iff h groupId name⟩
  | modifySorting groupId newIndex =>
    refine ⟨_, rfl, fun _ => trivial,
      fun _ => ⟨named_modifyGroupSorting h groupId newIndex, fun hfalse => ?_⟩⟩
    simp only [modifyGroupSorting,
      Option.isSome_eq_false_iff.mp hfalse |> Option.isNone_iff_eq_none.mp]

theorem StaysNamed.named {calls : List GroupCall}
    (h : myGroups.StaysNamed calls) : myGroups.Named := by
  cases calls with
  | nil => exact h
  | cons call calls => exact h.1

theorem staysNamed_iff_of_named (h : myGroups.Named)
    (calls : List GroupCall) : myGroups.StaysNamed calls ↔ myGroups.CallsOk calls := by
  induction calls generalizing myGroups with
  | nil => exact ⟨fun _ => trivial, fun _ => h⟩
  | cons call calls ih =>
    obtain ⟨r, hstep, hiff⟩ := named_step_iff h call
    rw [StaysNamed, CallsOk, hstep, ← hiff]
    constructor
    · rintro ⟨-, r', hr', hrejected, hstays⟩
      cases hr'
      refine ⟨⟨hstays.named, hrejected⟩, fun r' hr' => ?_⟩
      cases hr'
      exact (ih hstays.named).mp hstays
    · rintro ⟨⟨hnamed, hrejected⟩, hcalls⟩
      exact ⟨h, r, rfl, hrejected, (ih hnamed).mpr (hcalls r rfl)⟩

theorem named_empty : GroupMap.Named SortedMap.empty where
  id_pos _ _ h := by cases h
  name_ne_nil _ _ h := by cases h
  name_inj _ _ _ _ h := by cases h

/-- **Every run from the empty list.** -/
theorem staysNamed_iff (calls : List GroupCall) :
    GroupMap.StaysNamed SortedMap.empty calls ↔ GroupMap.CallsOk SortedMap.empty calls :=
  staysNamed_iff_of_named named_empty calls

/-- A group that is renamed to the empty name. -/
theorem not_staysNamed_emptyName :
    ¬ GroupMap.StaysNamed SortedMap.empty [.add ['a'], .rename 1 []] := by
  rintro ⟨-, r, hadd, -, -, r', hrename, -, hnamed⟩
  cases hadd
  cases hrename
  exact hnamed.name_ne_nil 1 _ rfl rfl

end GroupMap

end Licq
