import Licq.QtGui.Mode2Proxy
import Mathlib.Data.List.Nodup
import Mathlib.Tactic.Ring

/-!
# QtGui/Mode2Tidy — what the proxy keeps in order by itself

A proxy is `Tidy` when the rows of its groups are numbered without gaps and its counters are the sums
over its users.  A user that comes, goes or changes keeps that, whatever the contact list is.
-/

namespace Licq.QtGui.Mode2

open Numbering (Full)

namespace Proxy

/-! ## Rows and sums -/

variable {entries entries' : List ProxyUserData} {groupRow : ℕ} {w : ProxyUserData → ℤ}

/-- The sum of something over the users of a proxy group. -/
def total (w : ProxyUserData → ℤ) (entries : List ProxyUserData) (groupRow : ℕ) : ℤ :=
  ((entries.filter (·.groupRow = groupRow)).map w).sum

theorem rows_perm (h : entries.Perm entries') (groupRow : ℕ) :
    (rows entries groupRow).Perm (rows entries' groupRow) := (h.filter _).map _

theorem total_perm (h : entries.Perm entries') (w : ProxyUserData → ℤ) (groupRow : ℕ) :
    total w entries groupRow = total w entries' groupRow := ((h.filter _).map _).sum_eq

theorem rows_cons (e : ProxyUserData) :
    rows (e :: entries) groupRow =
      if e.groupRow = groupRow then e.proxyRow :: rows entries groupRow
      else rows entries groupRow := by
  simp only [rows, List.filter_cons, decide_eq_true_eq]
  split_ifs <;> rfl

theorem total_cons (e : ProxyUserData) :
    total w (e :: entries) groupRow =
      (if e.groupRow = groupRow then w e else 0) + total w entries groupRow := by
  simp only [total, List.filter_cons, decide_eq_true_eq]
  split_ifs
  · rw [List.map_cons, List.sum_cons]
  · rw [zero_add]

theorem concat_perm (e : ProxyUserData) : (entries ++ [e]).Perm (e :: entries) :=
  List.perm_append_comm

/-- What is done to the entries one by one, and leaves what is summed up as it is. -/
theorem total_map {f : ProxyUserData → ProxyUserData} (hgroup : ∀ e, (f e).groupRow = e.groupRow)
    (hw : ∀ e, w (f e) = w e) : total w (entries.map f) groupRow = total w entries groupRow := by
  induction entries with
  | nil => rfl
  | cons e entries ih => rw [List.map_cons, total_cons, total_cons, hgroup, hw, ih]

/-- The counters of a proxy group are the sums over its users. -/
structure Counts (entries : List ProxyUserData) (groupRow : ℕ) (g : ProxyGroup) : Prop where
  users : g.myUserCount = total (fun _ => 1) entries groupRow
  visible : g.myVisibleCount = total (fun e => if e.isVisible then 1 else 0) entries groupRow
  events : g.myEventCount = total (·.unreadEvents) entries groupRow

theorem counts_congr {g : ProxyGroup} (h : Counts entries groupRow g)
    (htotal : ∀ w : ProxyUserData → ℤ, (∀ e proxyRow, w { e with proxyRow := proxyRow } = w e) →
      total w entries' groupRow = total w entries groupRow) : Counts entries' groupRow g :=
  ⟨h.users.trans (htotal _ fun _ _ => rfl).symm, h.visible.trans (htotal _ fun _ _ => rfl).symm,
    h.events.trans (htotal _ fun _ _ => rfl).symm⟩

theorem counts_perm (hperm : entries.Perm entries') {g : ProxyGroup}
    (h : Counts entries groupRow g) : Counts entries' groupRow g :=
  counts_congr h fun w _ => (total_perm hperm w groupRow).symm

variable {e : ProxyUserData} {g : ProxyGroup}

/-- An entry of another proxy group does not count. -/
theorem counts_cons_of_ne (he : e.groupRow ≠ groupRow) :
    Counts (e :: entries) groupRow g ↔ Counts entries groupRow g := by
  have htotal (w : ProxyUserData → ℤ) :
      total w (e :: entries) groupRow = total w entries groupRow := by
    rw [total_cons, if_neg he, zero_add]
  exact ⟨fun h => counts_congr h fun w _ => (htotal w).symm,
    fun h => counts_congr h fun w _ => htotal w⟩

/-- What `addUser` does to the counters. -/
theorem counts_add (h : Counts entries groupRow g) (he : e.groupRow = groupRow) :
    Counts (e :: entries) groupRow
      (if e.isVisible then ((g.updateUserCount 1).updateEvents e.unreadEvents).updateVisibility 1
      else (g.updateUserCount 1).updateEvents e.unreadEvents) := by
  constructor
  · rw [total_cons, if_pos he, ← h.users]
    split_ifs <;> exact add_comm _ _
  · rw [total_cons, if_pos he, ← h.visible]
    split_ifs
    · exact add_comm _ _
    · exact (zero_add _).symm
  · rw [total_cons, if_pos he, ← h.events]
    split_ifs <;> exact add_comm _ _

/-- What `removeUser` does to the counters. -/
theorem counts_remove (h : Counts (e :: entries) groupRow g) (he : e.groupRow = groupRow) :
    Counts entries groupRow
      ((if e.isVisible then (g.updateEvents (-e.unreadEvents)).updateVisibility (-1)
      else g.updateEvents (-e.unreadEvents)).updateUserCount (-1)) := by
  obtain ⟨husers, hvisible, hevents⟩ := h
  rw [total_cons, if_pos he] at husers hvisible hevents
  constructor
  · split_ifs <;> simp [ProxyGroup.updateUserCount, ProxyGroup.updateEvents,
      ProxyGroup.updateVisibility, husers]
  · split_ifs at hvisible ⊢ <;> simp [ProxyGroup.updateUserCount, ProxyGroup.updateEvents,
      ProxyGroup.updateVisibility, hvisible]
  · split_ifs <;> simp [ProxyGroup.updateUserCount, ProxyGroup.updateEvents,
      ProxyGroup.updateVisibility, hevents]

/-- What `sourceDataChanged` does to the counters. -/
theorem counts_change (h : Counts (e :: entries) groupRow g) (he : e.groupRow = groupRow)
    (info : UserInfo) :
    Counts ({ e with isVisible := info.isVisible, unreadEvents := info.unreadEvents } :: entries)
      groupRow
      (if info.unreadEvents ≠ e.unreadEvents then
        (if info.isVisible ≠ e.isVisible then
          g.updateVisibility (if info.isVisible then 1 else -1) else g).updateEvents
            (info.unreadEvents - e.unreadEvents)
      else if info.isVisible ≠ e.isVisible then
        g.updateVisibility (if info.isVisible then 1 else -1) else g) := by
  obtain ⟨husers, hvisible, hevents⟩ := h
  rw [total_cons, if_pos he] at husers hvisible hevents
  constructor
  · rw [total_cons, if_pos he]
    split_ifs <;> exact husers
  · rw [total_cons, if_pos he]
    have hupdate : (if info.isVisible ≠ e.isVisible then
        g.updateVisibility (if info.isVisible then 1 else -1) else g).myVisibleCount =
          (if info.isVisible then 1 else 0) +
            total (fun e => if e.isVisible then 1 else 0) entries groupRow := by
      cases hnew : info.isVisible <;> cases hold : e.isVisible <;>
        simp_all [ProxyGroup.updateVisibility, add_comm]
    rw [← hupdate]
    split_ifs <;> rfl
  · rw [total_cons, if_pos he]
    by_cases hsame : info.unreadEvents = e.unreadEvents
    · rw [if_neg (not_not.mpr hsame), hsame, ← hevents]
      split_ifs <;> rfl
    · rw [if_pos hsame]
      split_ifs <;>
        simp only [ProxyGroup.updateEvents, ProxyGroup.updateVisibility, hevents] <;> ring

/-- What the proxy keeps in order by itself. -/
structure Tidy (p : Proxy) : Prop where
  keys : (p.myUserData.map (·.cu)).Nodup
  full : ∀ groupRow, Full (rows p.myUserData groupRow)
  counts : ∀ groupRow g, p.myGroups[groupRow]? = some g → Counts p.myUserData groupRow g

variable {p : Proxy} {cu : ℕ} {d : ProxyUserData}

/-- An entry and the others. -/
theorem perm_cons_filter (hkeys : (entries.map (·.cu)).Nodup) (hd : d ∈ entries) :
    entries.Perm (d :: entries.filter (·.cu ≠ d.cu)) := by
  induction entries with
  | nil => cases hd
  | cons e entries ih =>
    obtain ⟨he, hkeys⟩ := List.nodup_cons.mp hkeys
    rcases List.mem_cons.mp hd with rfl | hd
    · have hothers : entries.filter (·.cu ≠ d.cu) = entries := by
        refine List.filter_eq_self.mpr fun e' he' => ?_
        simp only [ne_eq, decide_not, Bool.not_eq_true', decide_eq_false_iff_not]
        exact fun heq => he (List.mem_map.mpr ⟨e', he', heq⟩)
      rw [List.filter_cons_of_neg (by simp), hothers]
    · have hne : e.cu ≠ d.cu := fun heq => he (List.mem_map.mpr ⟨d, hd, heq.symm⟩)
      rw [List.filter_cons_of_pos (by simpa using hne)]
      exact ((ih hkeys hd).cons e).trans (List.Perm.swap _ _ _)

theorem mem_of_userData (h : p.userData cu = some d) : d ∈ p.myUserData ∧ d.cu = cu :=
  ⟨List.mem_of_find?_eq_some h, by simpa using List.find?_some h⟩

/-- The entry of a user is the one with its address. -/
theorem userData_eq_some_iff (hkeys : (p.myUserData.map (·.cu)).Nodup) :
    p.userData cu = some d ↔ d ∈ p.myUserData ∧ d.cu = cu := by
  refine ⟨mem_of_userData, fun ⟨hd, hcu⟩ => ?_⟩
  cases h : p.userData cu with
  | none => exact absurd (List.find?_eq_none.mp h d hd) (by simpa using hcu)
  | some d' =>
    obtain ⟨hd', hcu'⟩ := mem_of_userData h
    rw [List.inj_on_of_nodup_map hkeys hd hd' (hcu.trans hcu'.symm)]

theorem userData_eq_none_iff : p.userData cu = none ↔ cu ∉ p.myUserData.map (·.cu) := by
  rw [userData, List.find?_eq_none, List.mem_map]
  simp

/-! ## Users come and go -/

/-- **A user comes.** -/
theorem tidy_addUser (h : Tidy p) (hcu : cu ∉ p.myUserData.map (·.cu)) (info : UserInfo)
    (row parentRow : ℕ) : Tidy (p.addUser cu info row parentRow) := by
  have hfilter : p.myUserData.filter (·.cu ≠ cu) = p.myUserData := by
    refine List.filter_eq_self.mpr fun e he => ?_
    simp only [ne_eq, decide_not, Bool.not_eq_true', decide_eq_false_iff_not]
    exact fun heq => hcu (List.mem_map.mpr ⟨e, he, heq⟩)
  simp only [addUser, hfilter]
  generalize hgroupRow : groupRowOf parentRow info = groupRow
  refine ⟨?_, fun groupRow' => ?_, fun groupRow' g hg => ?_⟩
  · rw [List.map_append, List.map_singleton]
    exact List.Nodup.append h.keys (List.nodup_singleton cu) (by simpa using hcu)
  · refine Numbering.full_of_perm (rows_perm (concat_perm _).symm groupRow') ?_
    rw [rows_cons]
    split_ifs with heq
    · obtain rfl : groupRow = groupRow' := heq
      have hnext := Numbering.full_concat (h.full groupRow)
      rw [← Numbering.next_eq (h.full groupRow)] at hnext
      exact Numbering.full_of_perm List.perm_append_comm hnext
    · exact h.full groupRow'
  · rw [List.getElem?_modify] at hg
    obtain ⟨g', hg', rfl⟩ := Option.map_eq_some_iff.mp hg
    refine counts_perm (concat_perm _).symm ?_
    by_cases heq : groupRow = groupRow'
    · rw [if_pos heq]
      exact counts_add (e := ⟨cu, row, _, groupRow, info.unreadEvents, info.isVisible⟩)
        (h.counts groupRow' g' hg') heq
    · rw [if_neg heq]
      exact (counts_cons_of_ne (e := ⟨cu, row, _, groupRow, _, _⟩) heq).mpr (h.counts groupRow' g' hg')

/-- The entries after a user has gone. -/
def closeRows (d : ProxyUserData) (entries : List ProxyUserData) : List ProxyUserData :=
  entries.map fun e =>
    if e.groupRow = d.groupRow then { e with proxyRow := Numbering.close d.proxyRow e.proxyRow }
    else e

theorem total_closeRows (hw : ∀ e proxyRow, w { e with proxyRow := proxyRow } = w e) :
    total w (closeRows d entries) groupRow = total w entries groupRow := by
  refine total_map (fun e => ?_) fun e => ?_
  · split_ifs <;> rfl
  · split_ifs
    · exact hw e _
    · rfl

theorem keys_closeRows : (closeRows d entries).map (·.cu) = entries.map (·.cu) := by
  rw [closeRows, List.map_map]
  refine List.map_congr_left fun e _ => ?_
  simp only [Function.comp_apply]
  split_ifs <;> rfl

theorem rows_closeRows : rows (closeRows d entries) groupRow =
    if groupRow = d.groupRow then (rows entries groupRow).map (Numbering.close d.proxyRow)
    else rows entries groupRow := by
  induction entries with
  | nil => simp [closeRows, rows]
  | cons e entries ih =>
    rw [closeRows] at ih ⊢
    rw [List.map_cons, rows_cons, rows_cons, ih]
    by_cases hd : e.groupRow = d.groupRow
    · rw [if_pos hd]
      by_cases hrow : e.groupRow = groupRow
      · simp [hrow, hrow ▸ hd]
      · have hne : groupRow ≠ d.groupRow := fun heq => hrow (hd.trans heq.symm)
        simp [hrow, hne]
    · rw [if_neg hd]
      by_cases hrow : e.groupRow = groupRow
      · have hne : groupRow ≠ d.groupRow := fun heq => hd (hrow.trans heq)
        simp [hrow, hne]
      · simp [hrow]

/-- **A user goes.** -/
theorem tidy_removeUser (h : Tidy p) (cu : ℕ) : Tidy (p.removeUser cu) := by
  rw [removeUser]
  split
  · exact h
  · rename_i d hd
    obtain ⟨hmem, rfl⟩ := mem_of_userData hd
    have hperm := perm_cons_filter h.keys hmem
    have hentries : (p.myUserData.filter (·.cu ≠ d.cu)).map (fun e =>
        if e.groupRow = d.groupRow then { e with proxyRow := Numbering.close d.proxyRow e.proxyRow }
        else e) = closeRows d (p.myUserData.filter (·.cu ≠ d.cu)) := rfl
    rw [hentries]
    refine ⟨?_, fun groupRow => ?_, fun groupRow g hg => ?_⟩
    · rw [keys_closeRows]
      exact h.keys.sublist (List.filter_sublist.map _)
    · have hfull := Numbering.full_of_perm (rows_perm hperm groupRow) (h.full groupRow)
      rw [rows_cons] at hfull
      rw [rows_closeRows]
      by_cases hrow : d.groupRow = groupRow
      · rw [if_pos hrow] at hfull
        rw [if_pos hrow.symm]
        exact Numbering.full_close hfull
      · rw [if_neg hrow] at hfull
        rw [if_neg (Ne.symm hrow)]
        exact hfull
    · rw [List.getElem?_modify] at hg
      obtain ⟨g', hg', rfl⟩ := Option.map_eq_some_iff.mp hg
      have hcounts := counts_perm hperm (h.counts groupRow g' hg')
      have hclose : Counts (p.myUserData.filter (·.cu ≠ d.cu)) groupRow
          (if d.groupRow = groupRow then
            (if d.isVisible then (g'.updateEvents (-d.unreadEvents)).updateVisibility (-1)
            else g'.updateEvents (-d.unreadEvents)).updateUserCount (-1)
          else g') := by
        by_cases heq : d.groupRow = groupRow
        · rw [if_pos heq]
          exact counts_remove hcounts heq
        · rw [if_neg heq]
          exact (counts_cons_of_ne heq).mp hcounts
      exact counts_congr hclose fun w hw => total_closeRows hw

/-! ## Users change -/

/-- The entries after something has changed that a user keeps its place with. -/
def changeEntry (cu : ℕ) (info : UserInfo) (e : ProxyUserData) : ProxyUserData :=
  if e.cu = cu then { e with isVisible := info.isVisible, unreadEvents := info.unreadEvents } else e

theorem changeEntry_cu (info : UserInfo) : (changeEntry cu info e).cu = e.cu := by
  rw [changeEntry]
  split_ifs <;> rfl

theorem changeEntry_groupRow (info : UserInfo) : (changeEntry cu info e).groupRow = e.groupRow := by
  rw [changeEntry]
  split_ifs <;> rfl

theorem changeEntry_proxyRow (info : UserInfo) : (changeEntry cu info e).proxyRow = e.proxyRow := by
  rw [changeEntry]
  split_ifs <;> rfl

theorem rows_changeEntry (info : UserInfo) :
    rows (entries.map (changeEntry cu info)) groupRow = rows entries groupRow := by
  induction entries with
  | nil => rfl
  | cons e entries ih =>
    rw [List.map_cons, rows_cons, rows_cons, ih, changeEntry_groupRow, changeEntry_proxyRow]

/-- **A user changes in its proxy group.** -/
theorem tidy_changeEntry (h : Tidy p) (hd : p.userData cu = some d) (info : UserInfo) :
    Tidy { p with
      myGroups := p.myGroups.modify d.groupRow fun g =>
        let g := if info.isVisible ≠ d.isVisible then
            g.updateVisibility (if info.isVisible then 1 else -1)
          else g
        if info.unreadEvents ≠ d.unreadEvents then
          g.updateEvents (info.unreadEvents - d.unreadEvents)
        else g
      myUserData := p.myUserData.map (changeEntry cu info) } := by
  obtain ⟨hmem, rfl⟩ := mem_of_userData hd
  refine ⟨?_, fun groupRow => ?_, fun groupRow g hg => ?_⟩
  · rw [List.map_map]
    refine (List.map_congr_left fun e _ => ?_) ▸ h.keys
    exact (changeEntry_cu info).symm
  · exact (rows_changeEntry info).symm ▸ h.full groupRow
  · have hothers : (p.myUserData.filter (·.cu ≠ d.cu)).map (changeEntry d.cu info) =
        p.myUserData.filter (·.cu ≠ d.cu) := by
      refine (List.map_congr_left fun e he => ?_).trans (List.map_id _)
      exact if_neg (by simpa using (List.mem_filter.mp he).2)
    have hperm := perm_cons_filter h.keys hmem
    have hmap := hperm.map (changeEntry d.cu info)
    rw [List.map_cons, hothers] at hmap
    have hchanged : changeEntry d.cu info d =
        { d with isVisible := info.isVisible, unreadEvents := info.unreadEvents } := if_pos rfl
    rw [hchanged] at hmap
    rw [List.getElem?_modify] at hg
    obtain ⟨g', hg', rfl⟩ := Option.map_eq_some_iff.mp hg
    have hcounts := counts_perm hperm (h.counts groupRow g' hg')
    refine counts_perm hmap.symm ?_
    by_cases heq : d.groupRow = groupRow
    · rw [if_pos heq]
      exact counts_change hcounts heq info
    · rw [if_neg heq]
      exact (counts_cons_of_ne (e := { d with
        isVisible := info.isVisible, unreadEvents := info.unreadEvents }) heq).mpr
          ((counts_cons_of_ne heq).mp hcounts)

theorem notMem_keys_removeUser (p : Proxy) (cu : ℕ) :
    cu ∉ (p.removeUser cu).myUserData.map (·.cu) := by
  rw [removeUser]
  split
  · rename_i hnone
    exact userData_eq_none_iff.mp hnone
  · rename_i d hd
    change cu ∉ (closeRows d (p.myUserData.filter (·.cu ≠ cu))).map (·.cu)
    rw [keys_closeRows]
    simp

/-- **A user changes.** -/
theorem tidy_sourceDataChanged (h : Tidy p) (cu : ℕ) (info : UserInfo) (row parentRow : ℕ) :
    Tidy (p.sourceDataChanged cu info row parentRow) := by
  rw [sourceDataChanged]
  split
  · exact h
  · rename_i d hd
    by_cases hhalf : info.isOnline ↔ d.groupRow % 2 = 0
    · rw [if_pos hhalf]
      exact tidy_changeEntry h hd info
    · rw [if_neg hhalf]
      exact tidy_addUser (tidy_removeUser h cu) (notMem_keys_removeUser p cu) info row parentRow

/-! ## What a change makes of the entries -/

theorem mem_addUser {info : UserInfo} {row parentRow : ℕ}
    (he : e ∈ (p.addUser cu info row parentRow).myUserData) :
    (e ∈ p.myUserData ∧ e.cu ≠ cu) ∨
      ∃ proxyRow, e = ⟨cu, row, proxyRow, groupRowOf parentRow info, info.unreadEvents,
        info.isVisible⟩ := by
  rcases List.mem_append.mp he with he | he
  · exact .inl ⟨List.mem_of_mem_filter he, by simpa using (List.mem_filter.mp he).2⟩
  · exact .inr ⟨_, List.mem_singleton.mp he⟩

theorem mem_keys_addUser {info : UserInfo} {row parentRow cu' : ℕ}
    (h : cu' ∈ p.myUserData.map (·.cu) ∨ cu' = cu) :
    cu' ∈ (p.addUser cu info row parentRow).myUserData.map (·.cu) := by
  simp only [addUser, List.map_append, List.mem_append, List.map_singleton, List.mem_singleton]
  by_cases hcu : cu' = cu
  · exact .inr hcu
  · obtain ⟨e, he, rfl⟩ := List.mem_map.mp (h.resolve_right hcu)
    exact .inl (List.mem_map.mpr ⟨e, List.mem_filter.mpr ⟨he, by simpa using hcu⟩, rfl⟩)

theorem mem_removeUser (he : e ∈ (p.removeUser cu).myUserData) :
    ∃ e₀ ∈ p.myUserData, e₀.cu ≠ cu ∧ ∃ proxyRow, e = { e₀ with proxyRow := proxyRow } := by
  rw [removeUser] at he
  split at he
  · rename_i hnone
    refine ⟨e, he, fun heq => ?_, e.proxyRow, rfl⟩
    exact userData_eq_none_iff.mp hnone (List.mem_map.mpr ⟨e, he, heq⟩)
  · obtain ⟨e₀, he₀, rfl⟩ := List.mem_map.mp he
    refine ⟨e₀, List.mem_of_mem_filter he₀, by simpa using (List.mem_filter.mp he₀).2, ?_⟩
    split_ifs
    · exact ⟨_, rfl⟩
    · exact ⟨e₀.proxyRow, rfl⟩

theorem mem_keys_removeUser {cu' : ℕ} (h : cu' ∈ p.myUserData.map (·.cu)) (hne : cu' ≠ cu) :
    cu' ∈ (p.removeUser cu).myUserData.map (·.cu) := by
  rw [removeUser]
  split
  · exact h
  · rename_i d hd
    change cu' ∈ (closeRows d (p.myUserData.filter (·.cu ≠ cu))).map (·.cu)
    rw [keys_closeRows]
    obtain ⟨e, he, rfl⟩ := List.mem_map.mp h
    exact List.mem_map.mpr ⟨e, List.mem_filter.mpr ⟨he, by simpa using hne⟩, rfl⟩

/-- Which group a proxy group shows, and which half of it. -/
def pairOf (g : ProxyGroup) : ℕ × Bool := (g.mySourceGroup, g.myIsOnline)

theorem pairs_modify {groups : List ProxyGroup} {f : ProxyGroup → ProxyGroup} (n : ℕ)
    (hf : ∀ g, pairOf (f g) = pairOf g) : (groups.modify n f).map pairOf = groups.map pairOf := by
  refine List.ext_getElem? fun i => ?_
  rw [List.getElem?_map, List.getElem?_map, List.getElem?_modify]
  cases groups[i]? with
  | none => rfl
  | some g =>
    simp only [Option.map_eq_map, Option.map_some]
    split_ifs
    · rw [hf]
    · rfl

theorem pairs_addUser (p : Proxy) (cu : ℕ) (info : UserInfo) (row parentRow : ℕ) :
    (p.addUser cu info row parentRow).myGroups.map pairOf = p.myGroups.map pairOf := by
  refine pairs_modify _ fun g => ?_
  by_cases h : info.isVisible = true
  · simp only [h, if_true]
    rfl
  · simp only [h]
    rfl

theorem pairs_removeUser (p : Proxy) (cu : ℕ) :
    (p.removeUser cu).myGroups.map pairOf = p.myGroups.map pairOf := by
  rw [removeUser]
  split
  · rfl
  · refine pairs_modify _ fun g => ?_
    simp only
    split_ifs <;> rfl

theorem pairs_sourceDataChanged (p : Proxy) (cu : ℕ) (info : UserInfo) (row parentRow : ℕ) :
    (p.sourceDataChanged cu info row parentRow).myGroups.map pairOf = p.myGroups.map pairOf := by
  rw [sourceDataChanged]
  split
  · rfl
  · rename_i d hd
    by_cases hhalf : info.isOnline ↔ d.groupRow % 2 = 0
    · rw [if_pos hhalf]
      refine pairs_modify _ fun g => ?_
      simp only
      split_ifs <;> rfl
    · rw [if_neg hhalf, pairs_addUser, pairs_removeUser]

end Proxy

end Licq.QtGui.Mode2
