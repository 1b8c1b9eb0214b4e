import Licq.QtGui.Mode2Mirror

/-!
# QtGui/Mode2Runs — the proxy along a run

A proxy that mirrors the contact list is sound (`sound_of_mirrors`).  The main result is `runs_iff`:
along a run the proxy is sound exactly when users go only from the last row of their group and groups
only without users.  What an index comes back as is never right, because it is an index of the proxy.
-/

namespace Licq.QtGui.Mode2

open Numbering (Full)

namespace State

variable {s s' : State}

/-- The bars of the proxy are those of the first group. -/
def Bars (s : State) : Prop :=
  ∃ address, (s.groups.map (·.address))[0]? = some address ∧
    s.proxy.myBars = [.bar address 0, .bar address 1]

theorem at_of_item {g : SourceGroup} (hg : g ∈ s.groups) {row cu : ℕ}
    (hitem : g.item row = some (.user cu)) :
    ∃ i j, At s.groups i j cu ∧ row = j + sourceBars := by
  rw [SourceGroup.item] at hitem
  split_ifs at hitem with hbar
  · cases Option.some.inj hitem
  · obtain ⟨cu', hcu', heq⟩ := Option.map_eq_some_iff.mp hitem
    obtain ⟨i, hi, rfl⟩ := List.mem_iff_getElem.mp hg
    rw [Item.user.inj heq] at hcu'
    exact ⟨i, row - sourceBars, ⟨_, List.getElem?_eq_getElem hi, hcu'⟩, by omega⟩

/-! ## What a mirror gives -/

variable (h : Mirrors s.groups s.info s.proxy)
include h

variable {e : ProxyUserData}

theorem div_groupRow (he : e ∈ s.proxy.myUserData) :
    ∃ j, At s.groups (e.groupRow / 2) j e.cu ∧ e.sourceRow = j + sourceBars := by
  obtain ⟨i, j, hat, hrow, hgroup, -⟩ := h.placed e he
  have hdiv : e.groupRow / 2 = i := by
    rw [hgroup, Proxy.groupRowOf]
    split_ifs <;> omega
  exact ⟨j, hdiv ▸ hat, hrow⟩

theorem sourceRow_of_mirrors (he : e ∈ s.proxy.myUserData) :
    (s.groups[e.groupRow / 2]?).bind (·.item e.sourceRow) = some (.user e.cu) := by
  obtain ⟨j, ⟨g, hg, hcu⟩, hrow⟩ := div_groupRow h he
  rw [hg, hrow, Option.bind_some, SourceGroup.item, if_neg (by omega), Nat.add_sub_cancel, hcu]
  rfl

theorem half_of_mirrors (he : e ∈ s.proxy.myUserData) :
    e.groupRow % 2 = 0 ↔ (s.info e.cu).isOnline := by
  obtain ⟨i, j, -, -, hgroup, -⟩ := h.placed e he
  rw [hgroup, groupRowOf_mod_two]

/-- **The counters** are the sums over the users of a proxy group. -/
theorem counters_of_mirrors {groupRow : ℕ} {g : ProxyGroup}
    (hg : s.proxy.myGroups[groupRow]? = some g) :
    g.myUserCount = ((s.usersOf groupRow).length : ℤ) ∧
    g.myVisibleCount =
      (((s.usersOf groupRow).filter fun cu => (s.info cu).isVisible).length : ℤ) ∧
    g.myEventCount = ((s.usersOf groupRow).map fun cu => (s.info cu).unreadEvents).sum := by
  obtain ⟨husers, hvisible, hevents⟩ := h.tidy.counts groupRow g hg
  have hinfo : ∀ e ∈ s.proxy.myUserData.filter (·.groupRow = groupRow),
      e.unreadEvents = (s.info e.cu).unreadEvents ∧ e.isVisible = (s.info e.cu).isVisible := by
    intro e he
    obtain ⟨_, _, -, -, -, hplace⟩ := h.placed e (List.mem_of_mem_filter he)
    exact hplace
  rw [Proxy.total] at husers hvisible hevents
  rw [usersOf]
  generalize s.proxy.myUserData.filter (·.groupRow = groupRow) = entries at *
  refine ⟨?_, ?_, ?_⟩
  · rw [husers, List.length_map]
    simp
  · rw [hvisible]
    clear husers hvisible hevents hg
    induction entries with
    | nil => rfl
    | cons e entries ih =>
      obtain ⟨hfirst, hrest⟩ := List.forall_mem_cons.mp hinfo
      rw [List.map_cons, List.sum_cons, ih hrest, List.map_cons, List.filter_cons, hfirst.2]
      split_ifs
      · rw [List.length_cons, Nat.cast_add, Nat.cast_one, add_comm]
      · rw [zero_add]
  · rw [hevents, List.map_map]
    exact congrArg List.sum (List.map_congr_left fun e he => (hinfo e he).1)

theorem myGroups_getElem? (he : e ∈ s.proxy.myUserData) :
    ∃ g, s.proxy.myGroups[e.groupRow]? = some g := by
  have hlt := h.groupRow_lt he
  rw [← h.length_myGroups] at hlt
  exact ⟨_, List.getElem?_eq_getElem hlt⟩

/-- The entry in a row of a proxy group. -/
theorem find?_row (he : e ∈ s.proxy.myUserData) :
    (s.proxy.myUserData.find? fun e' => e'.groupRow = e.groupRow ∧ e'.proxyRow = e.proxyRow) =
      some e := by
  cases hfind : s.proxy.myUserData.find? fun e' =>
      e'.groupRow = e.groupRow ∧ e'.proxyRow = e.proxyRow with
  | none => exact absurd (List.find?_eq_none.mp hfind e he) (by simp)
  | some e' =>
    have hmem' := List.mem_of_find?_eq_some hfind
    have hrows : e'.groupRow = e.groupRow ∧ e'.proxyRow = e.proxyRow := by
      simpa using List.find?_some hfind
    have hnodup : ((s.proxy.myUserData.filter (·.groupRow = e.groupRow)).map (·.proxyRow)).Nodup :=
      Full.nodup (h.tidy.full e.groupRow)
    have hin : e ∈ s.proxy.myUserData.filter (·.groupRow = e.groupRow) :=
      List.mem_filter.mpr ⟨he, by simp⟩
    have hin' : e' ∈ s.proxy.myUserData.filter (·.groupRow = e.groupRow) :=
      List.mem_filter.mpr ⟨hmem', by simpa using hrows.1⟩
    rw [List.inj_on_of_nodup_map hnodup hin' hin hrows.2]

theorem parent_of_mirrors (he : e ∈ s.proxy.myUserData) {g : ProxyGroup}
    (hg : s.proxy.myGroups[e.groupRow]? = some g) (row column : ℕ) :
    s.proxy.parent ⟨row, column, .user e.cu, .proxy⟩ =
      some ⟨e.groupRow + numBars, 0, g.item, .proxy⟩ := by
  have hdata := (Proxy.userData_eq_some_iff h.tidy.keys).mpr ⟨he, rfl⟩
  simp only [Proxy.parent, hdata, Option.bind_some, hg, Option.map_some]

omit h in
theorem index_in_group (p : Proxy) (groupRow row column : ℕ) (g : ProxyGroup)
    (hcolumn : column < p.myColumnCount) :
    p.index row column (some ⟨groupRow + numBars, 0, g.item, .proxy⟩) =
      (p.myUserData.find? fun e => e.groupRow = groupRow ∧ e.proxyRow = row).map
        fun e => ⟨row, column, .user e.cu, .proxy⟩ := by
  rw [Proxy.index, if_neg (not_le.mpr hcolumn)]
  simp only [ProxyGroup.item, Nat.add_sub_cancel]

/-- **A user of the proxy** is where its parent and its row say. -/
theorem index_parent_of_mirrors (he : e ∈ s.proxy.myUserData) {column : ℕ}
    (hcolumn : column < s.proxy.myColumnCount) :
    s.proxy.index e.proxyRow column (s.proxy.parent ⟨e.proxyRow, column, .user e.cu, .proxy⟩) =
      some ⟨e.proxyRow, column, .user e.cu, .proxy⟩ := by
  obtain ⟨g, hg⟩ := myGroups_getElem? h he
  rw [parent_of_mirrors h he hg, index_in_group _ _ _ _ _ hcolumn, find?_row h he]
  rfl

/-- **The rows of a proxy group** are users that have it as their parent. -/
theorem parent_index_of_mirrors {groupRow : ℕ} {parent : QModelIndex}
    (hparent : s.proxy.index (groupRow + numBars) 0 none = some parent) {row : ℕ}
    (hrow : row < s.proxy.rowCount (some parent)) {column : ℕ}
    (hcolumn : column < s.proxy.myColumnCount) :
    ∃ i, s.proxy.index row column (some parent) = some i ∧ s.proxy.parent i = some parent := by
  rw [Proxy.index, if_neg (not_le.mpr (Nat.zero_lt_of_lt hcolumn))] at hparent
  simp only [if_neg (show ¬ groupRow + numBars < numBars by omega), Nat.add_sub_cancel] at hparent
  obtain ⟨g, hg, rfl⟩ := Option.map_eq_some_iff.mp hparent
  have hcount : s.proxy.rowCount (some ⟨groupRow + numBars, 0, g.item, .proxy⟩) =
      ((Proxy.rows s.proxy.myUserData groupRow).length : ℤ) := by
    rw [Proxy.rowCount]
    simp only [ProxyGroup.item, if_neg (show ¬ groupRow + numBars < numBars by omega),
      Nat.add_sub_cancel, hg, Option.elim_some]
    rw [(h.tidy.counts groupRow g hg).users, Proxy.total, Proxy.rows, List.length_map]
    simp
  rw [hcount, Nat.cast_lt, ← (h.tidy.full groupRow).mem_iff] at hrow
  obtain ⟨e, he, rfl⟩ := List.mem_map.mp hrow
  obtain ⟨hmem, hgroup⟩ := List.mem_filter.mp he
  obtain rfl : e.groupRow = groupRow := by simpa using hgroup
  refine ⟨⟨e.proxyRow, column, .user e.cu, .proxy⟩, ?_, parent_of_mirrors h hmem hg _ _⟩
  rw [index_in_group _ _ _ _ _ hcolumn, find?_row h hmem]
  rfl

/-- **The way back** of a user or a bar leads to its row, but in an index of the proxy. -/
theorem wayBack_of_mirrors (hbars : s.Bars) (memory : ℕ → Item) {i : QModelIndex}
    (hi : s.IsIndex i) (hgroup : ∀ address, i.internalPointer ≠ .group address) {k : QModelIndex}
    (hk : s.proxy.mapFromSource i = some k) :
    s.proxy.mapToSource memory k = some { i with model := .proxy } := by
  obtain ⟨row, column, pointer, model⟩ := i
  obtain ⟨-, hitem⟩ := hi
  cases pointer with
  | group address => exact absurd rfl (hgroup address)
  | proxyGroup g isOnline => cases hk
  | user cu =>
    obtain ⟨g, hg, hrow⟩ := hitem
    obtain ⟨i, j, hat, rfl⟩ := at_of_item hg hrow
    obtain ⟨d, hd, rfl⟩ := Option.map_eq_some_iff.mp hk
    obtain ⟨hmem, rfl⟩ := Proxy.mem_of_userData hd
    obtain ⟨j', hat', hrow'⟩ := div_groupRow h hmem
    obtain ⟨-, rfl⟩ := h.unique _ _ _ _ _ hat hat'
    simp only [Proxy.mapToSource, hd, Option.map_some, hrow']
  | bar address b =>
    obtain ⟨g, -, hrow⟩ := hitem
    rw [SourceGroup.item] at hrow
    split_ifs at hrow with hbar
    · have hb : row = b := (Item.bar.inj (Option.some.inj hrow)).2
      obtain ⟨a, -, hbars⟩ := hbars
      simp only [Proxy.mapFromSource, Proxy.mapToSource, hbars] at hk ⊢
      split_ifs at hk with hlt
      cases hk
      have hidx : [Item.bar a 0, Item.bar a 1].idxOf (.bar address b) = row := by
        rcases List.mem_cons.mp (List.idxOf_lt_length_iff.mp hlt) with heq | hmem
        · rw [heq, List.idxOf_cons_self, hb, (Item.bar.inj heq).2]
        · have heq := List.mem_singleton.mp hmem
          rw [heq, hb, (Item.bar.inj heq).2]
          simp
      simp only [hidx, if_pos (hidx ▸ hlt)]
    · obtain ⟨cu, -, heq⟩ := Option.map_eq_some_iff.mp hrow
      cases heq

/-- **A mirror is sound.** -/
theorem sound_of_mirrors (hbars : s.Bars) : s.Sound where
  groups := h.halves
  rows := h.tidy.full
  sourceRow _ he := sourceRow_of_mirrors h he
  half _ he := half_of_mirrors h he
  counters _ _ hg := counters_of_mirrors h hg
  index_parent _ he _ hcolumn := index_parent_of_mirrors h he hcolumn
  parent_index _ _ hparent _ hrow _ hcolumn := parent_index_of_mirrors h hparent hrow hcolumn
  wayBack memory _ hi hgroup _ hk := wayBack_of_mirrors h hbars memory hi hgroup hk

omit h

/-! ## What a step does -/

section Steps

variable {i j cu address columnCount : ℕ} {u : UserInfo} {groups : List SourceGroup}
  {info : ℕ → UserInfo} {a : Action}

theorem step_insertUser (hs : s.step (.insertUser i cu u) = some s') :
    ∃ g, s.groups[i]? = some g ∧ cu ∉ s.groups.flatMap (·.users) ∧
      s' = { s with
        groups := s.groups.set i { g with users := g.users ++ [cu] }
        info := Function.update s.info cu u
        proxy := s.proxy.addUser cu u (g.users.length + sourceBars) i } := by
  rw [step] at hs
  cases hg : s.groups[i]? with
  | none => simp [hg] at hs
  | some g =>
    simp only [hg] at hs
    split_ifs at hs with hcu
    exact ⟨g, rfl, hcu, (Option.some.inj hs).symm⟩

theorem step_removeUser (hs : s.step (.removeUser i j) = some s') :
    ∃ g cu, s.groups[i]? = some g ∧ g.users[j]? = some cu ∧
      s' = { s with
        groups := s.groups.set i { g with users := g.users.eraseIdx j }
        proxy := s.proxy.removeUser cu } := by
  rw [step] at hs
  cases hg : s.groups[i]? with
  | none => simp [hg] at hs
  | some g =>
    cases hcu : g.users[j]? with
    | none => simp [hg, hcu] at hs
    | some cu =>
      simp only [hg, hcu] at hs
      exact ⟨g, cu, rfl, hcu, (Option.some.inj hs).symm⟩

theorem step_changeUser (hs : s.step (.changeUser i j u) = some s') :
    ∃ cu, At s.groups i j cu ∧
      s' = { s with
        info := Function.update s.info cu u
        proxy := s.proxy.sourceDataChanged cu u (j + sourceBars) i } := by
  rw [step] at hs
  cases hg : s.groups[i]? with
  | none => simp [hg] at hs
  | some g =>
    cases hcu : g.users[j]? with
    | none => simp [hg, hcu] at hs
    | some cu =>
      simp only [hg, hcu] at hs
      exact ⟨cu, ⟨g, hg, hcu⟩, (Option.some.inj hs).symm⟩

theorem step_removeGroup (hs : s.step (.removeGroup i) = some s') :
    fixedGroups ≤ i ∧ ∃ g, s.groups[i]? = some g ∧
      s' = { s with
        groups := s.groups.eraseIdx i
        proxy := g.users.foldl (fun p _ => p.sourceGroupsAboutToBeRemoved 2 2)
          (s.proxy.sourceGroupsAboutToBeRemoved i i) } := by
  rw [step] at hs
  split_ifs at hs with hi
  cases hg : s.groups[i]? with
  | none => simp [hg] at hs
  | some g =>
    simp only [hg] at hs
    exact ⟨not_lt.mp hi, g, rfl, (Option.some.inj hs).symm⟩

theorem step_reset (hs : s.step (.reset groups info columnCount) = some s') :
    fixedGroups ≤ groups.length ∧ (groups.flatMap (·.users)).Nodup ∧
      s' = ⟨groups, info, columnCount, .reset groups info columnCount⟩ := by
  rw [step] at hs
  split_ifs at hs with hgroups
  exact ⟨hgroups.1, hgroups.2, (Option.some.inj hs).symm⟩

/-- What is not a step meets the condition. -/
theorem ok_of_step_none (hs : s.step a = none) : s.Ok a := by
  cases a with
  | removeUser i j =>
    intro g hg
    rw [Option.mem_def] at hg
    simp only [step, hg] at hs
    split at hs
    · rename_i hnone
      exact (List.getElem?_eq_none_iff.mp hnone).trans (Nat.le_succ j)
    · cases hs
  | removeGroup i =>
    intro hi g hg
    rw [Option.mem_def] at hg
    simp only [step, if_neg (not_lt.mpr hi), hg] at hs
    cases hs
  | _ => trivial

/-! ## The bars -/

theorem foldl_myBars {β : Type*} {f : Proxy → β → Proxy} (hf : ∀ p b, (f p b).myBars = p.myBars)
    (bs : List β) (p : Proxy) : (bs.foldl f p).myBars = p.myBars := by
  induction bs generalizing p with
  | nil => rfl
  | cons b bs ih => rw [List.foldl_cons, ih, hf]

theorem myBars_removeUser (p : Proxy) (cu : ℕ) : (p.removeUser cu).myBars = p.myBars := by
  rw [Proxy.removeUser]
  split <;> rfl

theorem myBars_sourceDataChanged (p : Proxy) (cu : ℕ) (u : UserInfo) (row parentRow : ℕ) :
    (p.sourceDataChanged cu u row parentRow).myBars = p.myBars := by
  rw [Proxy.sourceDataChanged]
  split
  · rfl
  · rename_i d _
    by_cases hhalf : u.isOnline ↔ d.groupRow % 2 = 0
    · rw [if_pos hhalf]
    · rw [if_neg hhalf]
      exact myBars_removeUser p cu

theorem myBars_addGroup (p : Proxy) (info : ℕ → UserInfo) (row : ℕ) (g : SourceGroup) :
    (p.addGroup info row g).myBars = p.myBars := by
  rw [Proxy.addGroup, foldl_myBars]
  exact fun _ _ => rfl

theorem myBars_sourceGroupsInserted (p : Proxy) (groups : List SourceGroup) (info : ℕ → UserInfo)
    (start stop : ℕ) : (p.sourceGroupsInserted groups info start stop).myBars = p.myBars := by
  refine foldl_myBars (fun p row => ?_) _ _
  cases groups[row]? with
  | none => rfl
  | some g => exact myBars_addGroup p info row g

theorem myBars_sourceGroupsAboutToBeRemoved (p : Proxy) (start stop : ℕ) :
    (p.sourceGroupsAboutToBeRemoved start stop).myBars = p.myBars := by
  rw [Proxy.sourceGroupsAboutToBeRemoved]
  exact foldl_myBars (fun _ _ => by rfl) _ p

theorem bars_reset (hgroups : fixedGroups ≤ groups.length) :
    Bars ⟨groups, info, columnCount, .reset groups info columnCount⟩ := by
  cases groups with
  | nil => exact absurd hgroups (by decide)
  | cons g groups =>
    refine ⟨g.address, rfl, ?_⟩
    rw [Proxy.reset, foldl_myBars fun p (g : SourceGroup × ℕ) => myBars_addGroup p info g.2 g.1]
    rfl

theorem bars_step (h : s.Bars) (hs : s.step a = some s') : s'.Bars := by
  obtain ⟨address, haddress, hbars⟩ := h
  cases a with
  | insertUser i cu u =>
    obtain ⟨g, hg, -, rfl⟩ := step_insertUser hs
    exact ⟨address, (address_set hg _).symm ▸ haddress, hbars⟩
  | removeUser i j =>
    obtain ⟨g, cu, hg, -, rfl⟩ := step_removeUser hs
    exact ⟨address, (address_set hg _).symm ▸ haddress, (myBars_removeUser _ cu).trans hbars⟩
  | changeUser i j u =>
    obtain ⟨cu, -, rfl⟩ := step_changeUser hs
    exact ⟨address, haddress, (myBars_sourceDataChanged _ cu u _ i).trans hbars⟩
  | insertGroup address' =>
    cases hs
    refine ⟨address, ?_, (myBars_sourceGroupsInserted _ _ _ _ _).trans hbars⟩
    have hlt := (List.getElem?_eq_some_iff.mp haddress).1
    rw [List.map_append, List.getElem?_append_left hlt, haddress]
  | removeGroup i =>
    obtain ⟨hi, g, -, rfl⟩ := step_removeGroup hs
    refine ⟨address, ?_, ?_⟩
    · have hpos : 0 < i := lt_of_lt_of_le (by decide) hi
      rw [← List.eraseIdx_map, List.getElem?_eraseIdx_of_lt hpos, haddress]
    · refine (foldl_myBars (fun p _ => ?_) _ _).trans ?_
      · exact myBars_sourceGroupsAboutToBeRemoved p 2 2
      · exact (myBars_sourceGroupsAboutToBeRemoved _ i i).trans hbars
  | reset groups info columnCount =>
    obtain ⟨hgroups, -, rfl⟩ := step_reset hs
    exact bars_reset hgroups

/-- **The first bar** does not come back as it was. -/
theorem not_right (h : s.Bars) (memory : ℕ → Item) : ¬ s.Right memory := by
  obtain ⟨address, haddress, hbars⟩ := h
  rw [List.getElem?_map] at haddress
  obtain ⟨g, hg, rfl⟩ := Option.map_eq_some_iff.mp haddress
  rintro ⟨-, hback⟩
  have hindex : s.IsIndex ⟨0, 0, .bar g.address 0, .contactList⟩ :=
    ⟨rfl, g, List.mem_of_getElem? hg, rfl⟩
  have hfrom : s.proxy.mapFromSource ⟨0, 0, .bar g.address 0, .contactList⟩ =
      some ⟨0, 0, .bar g.address 0, .proxy⟩ := by
    simp [Proxy.mapFromSource, hbars]
  have hto := hback _ hindex _ hfrom
  simp [Proxy.mapToSource, hbars] at hto

/-! ## Steps of a mirror -/

/-- **A step that meets the condition** keeps the mirror. -/
theorem mirrors_step (h : Mirrors s.groups s.info s.proxy) (hok : s.Ok a)
    (hs : s.step a = some s') : Mirrors s'.groups s'.info s'.proxy := by
  cases a with
  | insertUser i cu u =>
    obtain ⟨g, hg, hcu, rfl⟩ := step_insertUser hs
    refine mirrors_addUser h hg ?_ u
    rintro i' j' ⟨g', hg', hcu'⟩
    exact hcu (List.mem_flatMap.mpr ⟨g', List.mem_of_getElem? hg', List.mem_of_getElem? hcu'⟩)
  | removeUser i j =>
    obtain ⟨g, cu, hg, hcu, rfl⟩ := step_removeUser hs
    exact mirrors_removeUser h hg ⟨g, hg, hcu⟩ (hok g hg)
  | changeUser i j u =>
    obtain ⟨cu, hcu, rfl⟩ := step_changeUser hs
    exact mirrors_sourceDataChanged h hcu u
  | insertGroup address =>
    cases hs
    exact mirrors_sourceGroupsInserted h address
  | removeGroup i =>
    obtain ⟨hi, g, hg, rfl⟩ := step_removeGroup hs
    have hempty := hok hi g hg
    rw [hempty]
    exact mirrors_removeGroup h hg hempty
  | reset groups info columnCount =>
    obtain ⟨-, hnodup, rfl⟩ := step_reset hs
    exact mirrors_reset hnodup columnCount

/-- **A user that is not the last** of its group: the next one keeps its row. -/
theorem not_sound_removeUser (h : Mirrors s.groups s.info s.proxy) {g : SourceGroup}
    (hg : s.groups[i]? = some g) (hcu : g.users[j]? = some cu) (hlt : j + 1 < g.users.length) :
    ¬ Sound { s with
      groups := s.groups.set i { g with users := g.users.eraseIdx j }
      proxy := s.proxy.removeUser cu } := by
  intro hsound
  have hnext : At s.groups i (j + 1) g.users[j + 1] := ⟨g, hg, List.getElem?_eq_getElem hlt⟩
  have hne : g.users[j + 1] ≠ cu := by
    intro heq
    have hsame := (h.unique _ _ _ _ _ hnext ⟨g, hg, heq ▸ hcu⟩).2
    omega
  obtain ⟨e, he, hcue⟩ :=
    List.mem_map.mp (Proxy.mem_keys_removeUser (h.mapped _ _ _ hnext) hne)
  obtain ⟨e₀, he₀, -, proxyRow, rfl⟩ := Proxy.mem_removeUser he
  obtain ⟨j', hat, hrow⟩ := div_groupRow h he₀
  obtain ⟨hi, rfl⟩ := h.unique _ _ _ _ _ hat (hcue ▸ hnext)
  have hsource := hsound.sourceRow _ he
  have hlt' := (List.getElem?_eq_some_iff.mp hg).1
  simp only [hi, List.getElem?_set_self hlt', Option.bind_some, SourceGroup.item, hrow,
    if_neg (show ¬ j + 1 + sourceBars < sourceBars by omega), Nat.add_sub_cancel] at hsource
  rw [List.getElem?_eraseIdx_of_ge (Nat.le_succ j)] at hsource
  obtain ⟨cu', hcu', heq⟩ := Option.map_eq_some_iff.mp hsource
  have hback : At s.groups i (j + 1 + 1) g.users[j + 1] :=
    ⟨g, hg, hcu'.trans (congrArg some ((Item.user.inj heq).trans hcue))⟩
  have hsame := (h.unique _ _ _ _ _ hnext hback).2
  omega

theorem length_eraseHalves (p : Proxy) (i : ℕ) :
    (p.sourceGroupsAboutToBeRemoved i i).myGroups.length ≤ p.myGroups.length := by
  rw [sourceGroupsAboutToBeRemoved_one]
  exact (List.length_eraseIdx_le _ _).trans (List.length_eraseIdx_le _ _)

theorem length_eraseHalves_of_lt {p : Proxy} (hi : i * 2 + 1 < p.myGroups.length) :
    (p.sourceGroupsAboutToBeRemoved i i).myGroups.length + 2 = p.myGroups.length := by
  rw [sourceGroupsAboutToBeRemoved_one]
  simp only [List.length_eraseIdx, if_pos hi]
  split_ifs <;> omega

/-- **A group with users**: the proxy groups of another group go with it. -/
theorem not_sound_removeGroup (h : Mirrors s.groups s.info s.proxy) (hi : fixedGroups ≤ i)
    {g : SourceGroup} (hg : s.groups[i]? = some g) (husers : g.users ≠ []) :
    ¬ Sound { s with
      groups := s.groups.eraseIdx i
      proxy := g.users.foldl (fun p _ => p.sourceGroupsAboutToBeRemoved 2 2)
        (s.proxy.sourceGroupsAboutToBeRemoved i i) } := by
  intro hsound
  have hlt := (List.getElem?_eq_some_iff.mp hg).1
  have hcount := congrArg List.length hsound.groups
  have hpairs := length_pairs (s.groups.eraseIdx i)
  rw [pairs] at hpairs
  rw [List.length_map, hpairs, List.length_eraseIdx_of_lt hlt] at hcount
  obtain ⟨cu, users, hcons⟩ := List.exists_cons_of_ne_nil husers
  have hlength := h.length_myGroups
  have hfirst := length_eraseHalves_of_lt (p := s.proxy) (i := i) (by omega)
  rw [fixedGroups] at hi
  have hsecond := length_eraseHalves_of_lt (p := s.proxy.sourceGroupsAboutToBeRemoved i i) (i := 2)
    (by omega)
  have hrest (users : List ℕ) (p : Proxy) :
      (users.foldl (fun p _ => p.sourceGroupsAboutToBeRemoved 2 2) p).myGroups.length ≤
        p.myGroups.length := by
    induction users generalizing p with
    | nil => exact le_rfl
    | cons _ users ih => exact (ih _).trans (length_eraseHalves p 2)
  have hlast := hrest users
    ((s.proxy.sourceGroupsAboutToBeRemoved i i).sourceGroupsAboutToBeRemoved 2 2)
  simp only [hcons, List.foldl_cons] at hcount
  omega

/-- **One step of a mirror.** -/
theorem sound_step_iff (h : Mirrors s.groups s.info s.proxy) (hbars : s.Bars)
    (hs : s.step a = some s') : s'.Sound ↔ s.Ok a := by
  refine ⟨fun hsound => ?_, fun hok =>
    sound_of_mirrors (mirrors_step h hok hs) (bars_step hbars hs)⟩
  cases a with
  | removeUser i j =>
    obtain ⟨g, cu, hg, hcu, rfl⟩ := step_removeUser hs
    intro g' hg'
    cases hg.symm.trans hg'
    by_contra hlt
    exact not_sound_removeUser h hg hcu (not_le.mp hlt) hsound
  | removeGroup i =>
    obtain ⟨hi, g, hg, rfl⟩ := step_removeGroup hs
    intro _ g' hg'
    cases hg.symm.trans hg'
    by_contra husers
    exact not_sound_removeGroup h hi hg husers hsound
  | _ => trivial

/-! ## Runs -/

theorem mirrors_initial (columnCount : ℕ) :
    Mirrors (initial columnCount).groups (initial columnCount).info (initial columnCount).proxy := by
  have hnodup : (((List.range fixedGroups).map fun i => (⟨i, []⟩ : SourceGroup)).flatMap
      (·.users)).Nodup := by decide
  exact mirrors_reset hnodup columnCount

theorem bars_initial (columnCount : ℕ) : (initial columnCount).Bars := bars_reset (by decide)

/-- **The proxy along a run**: the way back to the contact list is never right, and everything else is
exactly as long as users go only from the last row of their group and groups only without users. -/
theorem runs_iff (columnCount : ℕ) (as : List Action) :
    (∀ memory, Steps.Stays step (fun s => ¬ s.Right memory) (initial columnCount) as) ∧
      (Steps.Stays step Sound (initial columnCount) as ↔
        Steps.Each step Ok (initial columnCount) as) := by
  constructor
  · intro memory
    have hall : Steps.Each step (fun _ _ => True) (initial columnCount) as :=
      Steps.each_of_forall (fun _ _ => trivial) _ as
    have hbars : Steps.Stays step Bars (initial columnCount) as :=
      Steps.stays_of_each (fun _ _ _ h _ hs => bars_step h hs) (bars_initial columnCount) hall
    exact hbars.mono fun _ h => not_right h memory
  · refine Steps.stays_iff_each_of_inv
      (I := fun s => Mirrors s.groups s.info s.proxy ∧ s.Bars) ?_ ?_ ?_ ?_ ?_ as
    · exact fun _ _ _ _ hs => ok_of_step_none hs
    · exact fun _ _ _ _ h hs => sound_step_iff h.1 h.2 hs
    · intro s a s' _ h hs hsound
      exact ⟨mirrors_step h.1 ((sound_step_iff h.1 h.2 hs).mp hsound) hs, bars_step h.2 hs⟩
    · exact sound_of_mirrors (mirrors_initial columnCount) (bars_initial columnCount)
    · exact ⟨mirrors_initial columnCount, bars_initial columnCount⟩

/-- **The first of two users goes**: the row that the proxy keeps for the second one is still 4, but
it is in row 3 now. -/
theorem not_stays_removeUser :
    ¬ Steps.Stays step (fun s => s.Right .group) (initial 1)
      [.insertUser 0 100 ⟨1, true, 0⟩, .insertUser 0 101 ⟨1, true, 0⟩, .removeUser 0 0] := by
  intro h
  have hsource := (h.foldlM rfl).1.sourceRow
  revert hsource
  decide +kernel

end Steps

end State

end Licq.QtGui.Mode2
