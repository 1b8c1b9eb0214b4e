import Licq.QtGui.Mode2Tidy
import Mathlib.Data.List.InsertIdx

/-!
# QtGui/Mode2Mirror — how the proxy follows the contact list

A proxy `Mirrors` a contact list when it is tidy and its users are those of the list, each with its
row.  Every change keeps that but two: the row of a user that is behind one that is removed is not
moved up, and the users of a group that is removed are told as groups.
-/

namespace Licq.QtGui.Mode2

open Function

open Numbering (Full)

/-! ## Users of the contact list -/

variable {groups : List SourceGroup} {info : ℕ → UserInfo} {p : Proxy} {i j cu : ℕ} {g : SourceGroup}

/-- The user in this row of the users of a group. -/
def At (groups : List SourceGroup) (i j cu : ℕ) : Prop :=
  ∃ g, groups[i]? = some g ∧ g.users[j]? = some cu

theorem at_set_iff (hg : groups[i]? = some g) (users : List ℕ) (i' j' cu' : ℕ) :
    At (groups.set i { g with users := users }) i' j' cu' ↔
      if i' = i then users[j']? = some cu' else At groups i' j' cu' := by
  have hlt := (List.getElem?_eq_some_iff.mp hg).1
  rw [At]
  split_ifs with heq
  · rw [heq, List.getElem?_set_self hlt]
    simp
  · rw [List.getElem?_set_ne (Ne.symm heq)]
    rfl

theorem at_append_iff (address : ℕ) (i' j' cu' : ℕ) :
    At (groups ++ [⟨address, []⟩]) i' j' cu' ↔ At groups i' j' cu' := by
  constructor
  · rintro ⟨g, hg, hcu⟩
    rcases lt_or_ge i' groups.length with hlt | hge
    · rw [List.getElem?_append_left hlt] at hg
      exact ⟨g, hg, hcu⟩
    · rw [List.getElem?_append_right hge] at hg
      have hmem := List.mem_of_getElem? hg
      rw [List.mem_singleton.mp hmem] at hcu
      cases hcu
  · rintro ⟨g, hg, hcu⟩
    have hlt := (List.getElem?_eq_some_iff.mp hg).1
    exact ⟨g, (List.getElem?_append_left hlt).trans hg, hcu⟩

/-- The place of a user in the contact list is the one that its entry has, and so is what is known of
the user. -/
def Placed (groups : List SourceGroup) (info : ℕ → UserInfo) (e : ProxyUserData) : Prop :=
  ∃ i j, At groups i j e.cu ∧ e.sourceRow = j + sourceBars ∧
    e.groupRow = Proxy.groupRowOf i (info e.cu) ∧ e.unreadEvents = (info e.cu).unreadEvents ∧
      e.isVisible = (info e.cu).isVisible

/-- The two proxy groups of each group. -/
def pairs (groups : List SourceGroup) : List (ℕ × Bool) :=
  groups.flatMap fun g => [(g.address, true), (g.address, false)]

/-- **The proxy mirrors the contact list.** -/
structure Mirrors (groups : List SourceGroup) (info : ℕ → UserInfo) (p : Proxy) : Prop where
  tidy : p.Tidy
  halves : p.myGroups.map Proxy.pairOf = pairs groups
  unique : ∀ i j i' j' cu, At groups i j cu → At groups i' j' cu → i = i' ∧ j = j'
  placed : ∀ e ∈ p.myUserData, Placed groups info e
  mapped : ∀ i j cu, At groups i j cu → cu ∈ p.myUserData.map (·.cu)

theorem address_set (hg : groups[i]? = some g) (users : List ℕ) :
    (groups.set i { g with users := users }).map (·.address) = groups.map (·.address) := by
  refine List.ext_getElem? fun k => ?_
  rw [List.getElem?_map, List.getElem?_map, List.getElem?_set]
  split_ifs with hk hlt
  · rw [← hk, hg]
    rfl
  · exact absurd (List.getElem?_eq_some_iff.mp hg).1 hlt
  · rfl

theorem pairs_set (hg : groups[i]? = some g) (users : List ℕ) :
    pairs (groups.set i { g with users := users }) = pairs groups := by
  have hpairs (groups : List SourceGroup) :
      pairs groups = (groups.map (·.address)).flatMap fun a => [(a, true), (a, false)] := by
    rw [pairs, List.flatMap_map]
  rw [hpairs, hpairs, address_set hg]

/-! ## Users come and go -/

theorem at_concat_iff (hg : groups[i]? = some g) (cu i' j' cu' : ℕ) :
    At (groups.set i { g with users := g.users ++ [cu] }) i' j' cu' ↔
      At groups i' j' cu' ∨ (i' = i ∧ j' = g.users.length ∧ cu' = cu) := by
  rw [at_set_iff hg]
  split_ifs with hi
  · rw [hi, List.getElem?_append]
    have hat : At groups i j' cu' ↔ g.users[j']? = some cu' := by
      rw [At, hg]
      simp
    rw [hat]
    split_ifs with hlt
    · have hne : j' ≠ g.users.length := by omega
      simp [hne]
    · rw [List.getElem?_eq_none (not_lt.mp hlt), List.getElem?_singleton]
      have heq : j' - g.users.length = 0 ↔ j' = g.users.length := by omega
      simp [heq, eq_comm]
  · simp [hi]

/-- **A user comes to the end of a group.** -/
theorem mirrors_addUser (h : Mirrors groups info p) (hg : groups[i]? = some g)
    (hnew : ∀ i j, ¬ At groups i j cu) (u : UserInfo) :
    Mirrors (groups.set i { g with users := g.users ++ [cu] }) (Function.update info cu u)
      (p.addUser cu u (g.users.length + sourceBars) i) := by
  have hkeys : cu ∉ p.myUserData.map (·.cu) := by
    intro hmem
    obtain ⟨e, he, rfl⟩ := List.mem_map.mp hmem
    obtain ⟨i, j, hat, -⟩ := h.placed e he
    exact hnew i j hat
  refine ⟨Proxy.tidy_addUser h.tidy hkeys u _ i, ?_, ?_, ?_, ?_⟩
  · rw [Proxy.pairs_addUser, h.halves, pairs_set hg]
  · intro i₁ j₁ i₂ j₂ cu' h₁ h₂
    rw [at_concat_iff hg] at h₁ h₂
    rcases h₁ with h₁ | ⟨rfl, rfl, rfl⟩ <;> rcases h₂ with h₂ | ⟨rfl, rfl, hcu⟩
    · exact h.unique _ _ _ _ _ h₁ h₂
    · exact absurd (hcu ▸ h₁) (hnew _ _)
    · exact absurd h₂ (hnew _ _)
    · exact ⟨rfl, rfl⟩
  · intro e he
    rcases Proxy.mem_addUser he with ⟨he, hne⟩ | ⟨proxyRow, rfl⟩
    · obtain ⟨i', j', hat, hplace⟩ := h.placed e he
      refine ⟨i', j', (at_concat_iff hg _ _ _ _).mpr (.inl hat), ?_⟩
      rw [update_of_ne hne]
      exact hplace
    · refine ⟨i, g.users.length, (at_concat_iff hg _ _ _ _).mpr (.inr ⟨rfl, rfl, rfl⟩), rfl, ?_⟩
      rw [update_self]
      exact ⟨rfl, rfl, rfl⟩
  · intro i' j' cu' hat
    refine Proxy.mem_keys_addUser ?_
    rcases (at_concat_iff hg _ _ _ _).mp hat with hat | ⟨-, -, hcu⟩
    · exact .inl (h.mapped i' j' cu' hat)
    · exact .inr hcu

theorem at_erase_last_iff (hg : groups[i]? = some g) (hlast : g.users.length ≤ j + 1)
    (i' j' cu' : ℕ) :
    At (groups.set i { g with users := g.users.eraseIdx j }) i' j' cu' ↔
      At groups i' j' cu' ∧ ¬ (i' = i ∧ j' = j) := by
  rw [at_set_iff hg]
  split_ifs with hi
  · have hat : At groups i j' cu' ↔ g.users[j']? = some cu' := by
      rw [At, hg]
      simp
    rw [hi, hat, List.getElem?_eraseIdx]
    split_ifs with hlt
    · have hne : j' ≠ j := by omega
      simp [hne]
    · rw [List.getElem?_eq_none (by omega)]
      constructor
      · intro h
        cases h
      · rintro ⟨h, hne⟩
        have hlength := (List.getElem?_eq_some_iff.mp h).1
        exact absurd ⟨rfl, by omega⟩ hne
  · simp [hi]

/-- **The last user of a group goes.** -/
theorem mirrors_removeUser (h : Mirrors groups info p) (hg : groups[i]? = some g)
    (hcu : At groups i j cu) (hlast : g.users.length ≤ j + 1) :
    Mirrors (groups.set i { g with users := g.users.eraseIdx j }) info (p.removeUser cu) := by
  refine ⟨Proxy.tidy_removeUser h.tidy cu, ?_, ?_, ?_, ?_⟩
  · rw [Proxy.pairs_removeUser, h.halves, pairs_set hg]
  · intro i₁ j₁ i₂ j₂ cu' h₁ h₂
    rw [at_erase_last_iff hg hlast] at h₁ h₂
    exact h.unique _ _ _ _ _ h₁.1 h₂.1
  · intro e he
    obtain ⟨e₀, he₀, hne, proxyRow, rfl⟩ := Proxy.mem_removeUser he
    obtain ⟨i', j', hat, hplace⟩ := h.placed e₀ he₀
    refine ⟨i', j', (at_erase_last_iff hg hlast _ _ _).mpr ⟨hat, ?_⟩, hplace⟩
    rintro ⟨rfl, rfl⟩
    obtain ⟨g₁, hg₁, hcu₁⟩ := hat
    obtain ⟨g₂, hg₂, hcu₂⟩ := hcu
    rw [hg₁] at hg₂
    cases hg₂
    exact hne (Option.some.inj (hcu₁.symm.trans hcu₂))
  · intro i' j' cu' hat
    obtain ⟨hat, hother⟩ := (at_erase_last_iff hg hlast _ _ _).mp hat
    refine Proxy.mem_keys_removeUser (h.mapped i' j' cu' hat) ?_
    rintro rfl
    exact hother (h.unique _ _ _ _ _ hat hcu)

/-! ## Users change -/

theorem groupRowOf_mod_two (i : ℕ) (u : UserInfo) :
    Proxy.groupRowOf i u % 2 = 0 ↔ u.isOnline := by
  rw [Proxy.groupRowOf]
  split_ifs with h
  · exact iff_of_true (by omega) h
  · exact iff_of_false (by omega) h

/-- **A user changes.** -/
theorem mirrors_sourceDataChanged (h : Mirrors groups info p) (hcu : At groups i j cu)
    (u : UserInfo) :
    Mirrors groups (Function.update info cu u) (p.sourceDataChanged cu u (j + sourceBars) i) := by
  refine ⟨Proxy.tidy_sourceDataChanged h.tidy cu u _ i, ?_, h.unique, ?_, ?_⟩
  · rw [Proxy.pairs_sourceDataChanged, h.halves]
  · intro e he
    rw [Proxy.sourceDataChanged] at he
    split at he
    · rename_i hnone
      exact absurd (h.mapped i j cu hcu) (Proxy.userData_eq_none_iff.mp hnone)
    · rename_i d hd
      obtain ⟨hmem, rfl⟩ := Proxy.mem_of_userData hd
      obtain ⟨i₀, j₀, hat, hrow, hgroup, -, -⟩ := h.placed d hmem
      obtain ⟨rfl, rfl⟩ := h.unique _ _ _ _ _ hat hcu
      by_cases hhalf : u.isOnline ↔ d.groupRow % 2 = 0
      · rw [if_pos hhalf] at he
        obtain ⟨e₀, he₀, rfl⟩ := List.mem_map.mp he
        by_cases hsame : e₀.cu = d.cu
        · have heq := List.inj_on_of_nodup_map h.tidy.keys he₀ hmem hsame
          rw [if_pos hsame, heq]
          refine ⟨i₀, j₀, hat, hrow, ?_, ?_⟩
          · rw [hgroup, groupRowOf_mod_two] at hhalf
            rw [update_self, hgroup, Proxy.groupRowOf, Proxy.groupRowOf,
              if_congr hhalf rfl rfl]
          · rw [update_self]
            exact ⟨rfl, rfl⟩
        · rw [if_neg hsame]
          obtain ⟨i', j', hat', hplace⟩ := h.placed e₀ he₀
          refine ⟨i', j', hat', ?_⟩
          rw [update_of_ne hsame]
          exact hplace
      · rw [if_neg hhalf] at he
        rcases Proxy.mem_addUser he with ⟨he, -⟩ | ⟨proxyRow, rfl⟩
        · obtain ⟨e₀, he₀, hne, proxyRow, rfl⟩ := Proxy.mem_removeUser he
          obtain ⟨i', j', hat', hplace⟩ := h.placed e₀ he₀
          refine ⟨i', j', hat', ?_⟩
          rw [update_of_ne hne]
          exact hplace
        · refine ⟨i₀, j₀, hat, rfl, ?_⟩
          rw [update_self]
          exact ⟨rfl, rfl, rfl⟩
  · intro i' j' cu' hat
    have hmem := h.mapped i' j' cu' hat
    rw [Proxy.sourceDataChanged]
    split
    · exact hmem
    · rename_i d hd
      by_cases hhalf : u.isOnline ↔ d.groupRow % 2 = 0
      · rw [if_pos hhalf]
        obtain ⟨e, he, rfl⟩ := List.mem_map.mp hmem
        exact List.mem_map.mpr ⟨_, List.mem_map.mpr ⟨e, he, rfl⟩, Proxy.changeEntry_cu u⟩
      · rw [if_neg hhalf]
        refine Proxy.mem_keys_addUser ?_
        by_cases hsame : cu' = cu
        · exact .inr hsame
        · exact .inl (Proxy.mem_keys_removeUser hmem hsame)

/-! ## Groups come -/

theorem length_pairs (groups : List SourceGroup) : (pairs groups).length = groups.length * 2 := by
  rw [pairs, List.length_flatMap]
  simp

theorem Mirrors.length_myGroups (h : Mirrors groups info p) :
    p.myGroups.length = groups.length * 2 := by
  rw [← length_pairs, ← h.halves, List.length_map]

/-- No entry has the row of a group that is not there. -/
theorem Mirrors.groupRow_lt (h : Mirrors groups info p) {e : ProxyUserData}
    (he : e ∈ p.myUserData) : e.groupRow < groups.length * 2 := by
  obtain ⟨i, j, ⟨g, hg, -⟩, -, hrow, -⟩ := h.placed e he
  have hlt := (List.getElem?_eq_some_iff.mp hg).1
  rw [hrow, Proxy.groupRowOf]
  split_ifs <;> omega

theorem total_eq_zero {entries : List ProxyUserData} {groupRow : ℕ}
    (hnone : ∀ e ∈ entries, e.groupRow ≠ groupRow) (w : ProxyUserData → ℤ) :
    Proxy.total w entries groupRow = 0 := by
  have hfilter : entries.filter (·.groupRow = groupRow) = [] :=
    List.filter_eq_nil_iff.mpr fun e he => by simpa using hnone e he
  rw [Proxy.total, hfilter, List.map_nil, List.sum_nil]

/-- The proxy groups of a group that comes to the end. -/
def withGroup (p : Proxy) (address : ℕ) : Proxy :=
  { p with myGroups := p.myGroups ++ [.new address true, .new address false] }

/-- **A group without users comes to the end.** -/
theorem mirrors_withGroup (h : Mirrors groups info p) (address : ℕ) :
    Mirrors (groups ++ [⟨address, []⟩]) info (withGroup p address) := by
  refine ⟨⟨h.tidy.keys, h.tidy.full, fun groupRow g hg => ?_⟩, ?_, ?_, ?_, ?_⟩
  · rcases lt_or_ge groupRow p.myGroups.length with hlt | hge
    · rw [withGroup, List.getElem?_append_left hlt] at hg
      exact h.tidy.counts groupRow g hg
    · rw [withGroup, List.getElem?_append_right hge] at hg
      have hnone : ∀ e ∈ p.myUserData, e.groupRow ≠ groupRow := by
        intro e he heq
        have hlt := h.groupRow_lt he
        rw [← h.length_myGroups] at hlt
        omega
      have hmem := List.mem_of_getElem? hg
      have hnew : ∃ isOnline, g = .new address isOnline := by
        rcases List.mem_cons.mp hmem with rfl | hmem
        · exact ⟨_, rfl⟩
        · exact ⟨_, List.mem_singleton.mp hmem⟩
      obtain ⟨isOnline, rfl⟩ := hnew
      exact ⟨(total_eq_zero hnone _).symm, (total_eq_zero hnone _).symm,
        (total_eq_zero hnone _).symm⟩
  · rw [withGroup, List.map_append, h.halves, pairs, pairs, List.flatMap_append]
    rfl
  · intro i₁ j₁ i₂ j₂ cu' h₁ h₂
    rw [at_append_iff] at h₁ h₂
    exact h.unique _ _ _ _ _ h₁ h₂
  · intro e he
    obtain ⟨i', j', hat, hplace⟩ := h.placed e he
    exact ⟨i', j', (at_append_iff address _ _ _).mpr hat, hplace⟩
  · intro i' j' cu' hat
    exact h.mapped i' j' cu' ((at_append_iff address _ _ _).mp hat)

/-- Putting the two proxy groups of a group behind the others. -/
theorem insert_halves (h : Mirrors groups info p) (address : ℕ) :
    { p with
      myGroups := (p.myGroups.insertIdx (groups.length * 2) (.new address true)).insertIdx
        (groups.length * 2 + 1) (.new address false) } = withGroup p address := by
  have hlength := h.length_myGroups
  have hfirst : p.myGroups.insertIdx (groups.length * 2) (.new address true) =
      p.myGroups ++ [.new address true] := by
    rw [← hlength]
    exact List.insertIdx_length_self
  have hsecond : (p.myGroups ++ [ProxyGroup.new address true]).insertIdx (groups.length * 2 + 1)
      (.new address false) = p.myGroups ++ [.new address true] ++ [.new address false] := by
    have hlength' : (p.myGroups ++ [ProxyGroup.new address true]).length = groups.length * 2 + 1 := by
      rw [List.length_append, hlength, List.length_singleton]
    rw [← hlength']
    exact List.insertIdx_length_self
  rw [hfirst, hsecond, withGroup, List.append_assoc]
  rfl

/-- **A group comes to the end**, with its users. -/
theorem mirrors_addGroup (h : Mirrors groups info p) (g : SourceGroup) (hnodup : g.users.Nodup)
    (hnew : ∀ cu ∈ g.users, ∀ i j, ¬ At groups i j cu) :
    Mirrors (groups ++ [g]) info (p.addGroup info groups.length g) := by
  obtain ⟨address, users⟩ := g
  simp only [Proxy.addGroup, insert_halves h address]
  induction users using List.reverseRecOn with
  | nil => exact mirrors_withGroup h address
  | append_singleton users cu ih =>
    have hcu : cu ∉ users := fun hmem =>
      (List.nodup_append.mp hnodup).2.2 cu hmem cu List.mem_cons_self rfl
    have hrest := ih (List.nodup_append.mp hnodup).1
      fun cu' hcu' => hnew cu' (List.mem_append_left _ hcu')
    rw [List.zipIdx_append, List.foldl_append]
    have hg : (groups ++ [(⟨address, users⟩ : SourceGroup)])[groups.length]? =
        some ⟨address, users⟩ := List.getElem?_concat_length
    have hnew' : ∀ i j, ¬ At (groups ++ [⟨address, users⟩]) i j cu := by
      rintro i j ⟨g, hg', hcu'⟩
      rcases lt_or_ge i groups.length with hlt | hge
      · rw [List.getElem?_append_left hlt] at hg'
        exact hnew cu (by simp) i j ⟨g, hg', hcu'⟩
      · rw [List.getElem?_append_right hge] at hg'
        rw [List.mem_singleton.mp (List.mem_of_getElem? hg')] at hcu'
        exact hcu (List.mem_of_getElem? hcu')
    have hadd := mirrors_addUser hrest hg hnew' (info cu)
    rw [update_eq_self, List.set_append_right _ _ le_rfl, Nat.sub_self] at hadd
    simpa using hadd

/-- **The proxy reads the contact list anew.** -/
theorem mirrors_foldl_addGroup {p₀ : Proxy} (hgroups : p₀.myGroups = []) (hdata : p₀.myUserData = [])
    (hnodup : (groups.flatMap (·.users)).Nodup) :
    Mirrors groups info (groups.zipIdx.foldl (fun p g => p.addGroup info g.2 g.1) p₀) := by
  induction groups using List.reverseRecOn with
  | nil =>
    refine ⟨⟨?_, fun groupRow => ?_, fun groupRow g hg => ?_⟩, ?_, ?_, ?_, ?_⟩
    · rw [List.zipIdx_nil, List.foldl_nil, hdata]
      exact List.nodup_nil
    · rw [List.zipIdx_nil, List.foldl_nil, hdata]
      exact Numbering.full_nil
    · rw [List.zipIdx_nil, List.foldl_nil, hgroups] at hg
      cases hg
    · rw [List.zipIdx_nil, List.foldl_nil, hgroups]
      rfl
    · rintro _ _ _ _ _ ⟨g, hg, -⟩
      cases hg
    · intro e he
      rw [List.zipIdx_nil, List.foldl_nil, hdata] at he
      cases he
    · rintro _ _ _ ⟨g, hg, -⟩
      cases hg
  | append_singleton groups g ih =>
    rw [List.flatMap_append, List.flatMap_singleton] at hnodup
    obtain ⟨hfirst, hlast, hdisjoint⟩ := List.nodup_append.mp hnodup
    rw [List.zipIdx_append, List.foldl_append]
    have hadd := mirrors_addGroup (ih hfirst) g hlast ?_
    · simpa using hadd
    · rintro cu hcu i j ⟨g', hg', hcu'⟩
      have hmem : cu ∈ groups.flatMap (·.users) :=
        List.mem_flatMap.mpr ⟨g', List.mem_of_getElem? hg', List.mem_of_getElem? hcu'⟩
      exact hdisjoint cu hmem cu hcu rfl

theorem mirrors_reset (hnodup : (groups.flatMap (·.users)).Nodup) (columnCount : ℕ) :
    Mirrors groups info (Proxy.reset groups info columnCount) :=
  mirrors_foldl_addGroup rfl rfl hnodup

/-- **A group is inserted.** -/
theorem mirrors_sourceGroupsInserted (h : Mirrors groups info p) (address : ℕ) :
    Mirrors (groups ++ [⟨address, []⟩]) info
      (p.sourceGroupsInserted (groups ++ [⟨address, []⟩]) info groups.length groups.length) := by
  have hshift : p.myUserData.map (fun e =>
      if groups.length * 2 ≤ e.groupRow then
        { e with groupRow := e.groupRow + 2 * (groups.length - groups.length + 1) }
      else e) = p.myUserData := by
    refine (List.map_congr_left fun e he => ?_).trans (List.map_id _)
    exact if_neg (not_le.mpr (h.groupRow_lt he))
  have hrange : List.range' groups.length (groups.length + 1 - groups.length) = [groups.length] := by
    rw [Nat.add_sub_cancel_left]
    rfl
  have hg : (groups ++ [(⟨address, []⟩ : SourceGroup)])[groups.length]? = some ⟨address, []⟩ :=
    List.getElem?_concat_length
  simp only [Proxy.sourceGroupsInserted, hshift, hrange, List.foldl_cons, List.foldl_nil, hg,
    Option.elim_some]
  exact mirrors_addGroup h ⟨address, []⟩ List.nodup_nil nofun

/-! ## Groups go -/

theorem pairs_eraseIdx (groups : List SourceGroup) (i : ℕ) :
    pairs (groups.eraseIdx i) = ((pairs groups).eraseIdx (i * 2 + 1)).eraseIdx (i * 2) := by
  induction groups generalizing i with
  | nil => rfl
  | cons g groups ih =>
    cases i with
    | zero => rfl
    | succ i =>
      have hcons (groups : List SourceGroup) :
          pairs (g :: groups) = (g.address, true) :: (g.address, false) :: pairs groups := rfl
      rw [List.eraseIdx_cons_succ, hcons, hcons, ih, Nat.succ_mul]
      rfl

theorem at_eraseIdx_iff (groups : List SourceGroup) (i i' j' cu' : ℕ) :
    At (groups.eraseIdx i) i' j' cu' ↔ At groups (if i' < i then i' else i' + 1) j' cu' := by
  rw [At, At, List.getElem?_eraseIdx]
  split_ifs <;> rfl

/-- The entry of a user when the group before or behind its own has gone. -/
def closeGroup (i : ℕ) (e : ProxyUserData) : ProxyUserData :=
  if i < e.groupRow / 2 then { e with groupRow := e.groupRow - 2 } else e

theorem closeGroup_cu (i : ℕ) (e : ProxyUserData) : (closeGroup i e).cu = e.cu := by
  rw [closeGroup]
  split_ifs <;> rfl

/-- The row that a proxy group had before a group went. -/
def rowBefore (i groupRow : ℕ) : ℕ := if groupRow < i * 2 then groupRow else groupRow + 2

theorem filter_closeGroup {entries : List ProxyUserData} (hi : ∀ e ∈ entries, e.groupRow / 2 ≠ i)
    (groupRow : ℕ) :
    (entries.map (closeGroup i)).filter (·.groupRow = groupRow) =
      (entries.filter (·.groupRow = rowBefore i groupRow)).map (closeGroup i) := by
  rw [List.filter_map]
  refine congrArg _ (List.filter_congr fun e he => ?_)
  have hne := hi e he
  rw [comp_apply, decide_eq_decide, closeGroup, rowBefore]
  split_ifs <;> try simp only
  all_goals omega

theorem getElem?_eraseHalves (gs : List ProxyGroup) (i groupRow : ℕ) :
    ((gs.eraseIdx (i * 2 + 1)).eraseIdx (i * 2))[groupRow]? = gs[rowBefore i groupRow]? := by
  rw [List.getElem?_eraseIdx, rowBefore]
  split_ifs with hlt
  · rw [List.getElem?_eraseIdx, if_pos (by omega)]
  · rw [List.getElem?_eraseIdx, if_neg (by omega)]

/-- What the proxy does for one group that goes. -/
theorem sourceGroupsAboutToBeRemoved_one (p : Proxy) (i : ℕ) :
    p.sourceGroupsAboutToBeRemoved i i =
      { p with
        myGroups := (p.myGroups.eraseIdx (i * 2 + 1)).eraseIdx (i * 2)
        myUserData := (p.myUserData.filter fun e =>
          ¬ (i ≤ e.groupRow / 2 ∧ e.groupRow / 2 ≤ i)).map (closeGroup i) } := by
  have hrange : List.range' i (i + 1 - i) = [i] := by
    rw [Nat.add_sub_cancel_left]
    rfl
  simp only [Proxy.sourceGroupsAboutToBeRemoved, hrange, List.reverse_singleton, List.foldl_cons,
    List.foldl_nil, Nat.sub_self]
  rfl

/-- **A group without users goes.** -/
theorem mirrors_removeGroup (h : Mirrors groups info p) (hg : groups[i]? = some g)
    (hempty : g.users = []) :
    Mirrors (groups.eraseIdx i) info (p.sourceGroupsAboutToBeRemoved i i) := by
  have hother : ∀ e ∈ p.myUserData, e.groupRow / 2 ≠ i := by
    intro e he heq
    obtain ⟨i', j', ⟨g', hg', hcu⟩, -, hrow, -⟩ := h.placed e he
    have hi' : i' = i := by
      rw [hrow, Proxy.groupRowOf] at heq
      split_ifs at heq <;> omega
    rw [hi', hg] at hg'
    cases hg'
    rw [hempty] at hcu
    cases hcu
  have hfilter : p.myUserData.filter (fun e => ¬ (i ≤ e.groupRow / 2 ∧ e.groupRow / 2 ≤ i)) =
      p.myUserData := by
    refine List.filter_eq_self.mpr fun e he => ?_
    have hne := hother e he
    simp only [decide_eq_true_eq]
    omega
  rw [sourceGroupsAboutToBeRemoved_one, hfilter]
  refine ⟨⟨?_, fun groupRow => ?_, fun groupRow g' hg' => ?_⟩, ?_, ?_, ?_, ?_⟩
  · rw [List.map_map]
    refine (List.map_congr_left fun e _ => ?_) ▸ h.tidy.keys
    exact (closeGroup_cu i e).symm
  · have hrows : Proxy.rows (p.myUserData.map (closeGroup i)) groupRow =
        Proxy.rows p.myUserData (rowBefore i groupRow) := by
      rw [Proxy.rows, filter_closeGroup hother, List.map_map]
      refine List.map_congr_left fun e _ => ?_
      rw [comp_apply, closeGroup]
      split_ifs <;> rfl
    exact hrows ▸ h.tidy.full (rowBefore i groupRow)
  · rw [getElem?_eraseHalves] at hg'
    have htotal (w : ProxyUserData → ℤ)
        (hw : ∀ e groupRow, w { e with groupRow := groupRow } = w e) :
        Proxy.total w (p.myUserData.map (closeGroup i)) groupRow =
          Proxy.total w p.myUserData (rowBefore i groupRow) := by
      rw [Proxy.total, filter_closeGroup hother, List.map_map]
      refine congrArg List.sum (List.map_congr_left fun e _ => ?_)
      rw [comp_apply, closeGroup]
      split_ifs
      · exact hw e _
      · rfl
    obtain ⟨husers, hvisible, hevents⟩ := h.tidy.counts _ _ hg'
    exact ⟨husers.trans (htotal _ fun _ _ => rfl).symm,
      hvisible.trans (htotal _ fun _ _ => rfl).symm, hevents.trans (htotal _ fun _ _ => rfl).symm⟩
  · rw [← List.eraseIdx_map, ← List.eraseIdx_map, h.halves, pairs_eraseIdx]
  · intro i₁ j₁ i₂ j₂ cu' h₁ h₂
    rw [at_eraseIdx_iff] at h₁ h₂
    obtain ⟨hi, hj⟩ := h.unique _ _ _ _ _ h₁ h₂
    refine ⟨?_, hj⟩
    split_ifs at hi <;> omega
  · intro e he
    obtain ⟨e₀, he₀, rfl⟩ := List.mem_map.mp he
    obtain ⟨i', j', hat, hrow, hgroup, hplace⟩ := h.placed e₀ he₀
    have hne : i' ≠ i := by
      have hdiv := hother e₀ he₀
      rw [hgroup, Proxy.groupRowOf] at hdiv
      split_ifs at hdiv <;> omega
    have hdiv : e₀.groupRow / 2 = i' := by
      rw [hgroup, Proxy.groupRowOf]
      split_ifs <;> omega
    refine ⟨if i' < i then i' else i' - 1, j', ?_, ?_, ?_, ?_⟩
    · rw [at_eraseIdx_iff, closeGroup_cu]
      have hback : (if (if i' < i then i' else i' - 1) < i then if i' < i then i' else i' - 1
          else (if i' < i then i' else i' - 1) + 1) = i' := by
        split_ifs <;> omega
      rw [hback]
      exact hat
    · rw [closeGroup]
      split_ifs <;> exact hrow
    · rw [closeGroup_cu, closeGroup, hdiv]
      by_cases hlt : i < i'
      · rw [if_pos hlt, if_neg (by omega)]
        simp only [hgroup, Proxy.groupRowOf]
        omega
      · rw [if_neg hlt, if_pos (by omega), hgroup]
    · rw [closeGroup_cu, closeGroup]
      split_ifs <;> exact hplace
  · intro i' j' cu' hat
    obtain ⟨e, he, rfl⟩ := List.mem_map.mp (h.mapped _ j' cu' ((at_eraseIdx_iff _ _ _ _ _).mp hat))
    exact List.mem_map.mpr ⟨_, List.mem_map.mpr ⟨e, he, rfl⟩, closeGroup_cu i e⟩

end Licq.QtGui.Mode2
