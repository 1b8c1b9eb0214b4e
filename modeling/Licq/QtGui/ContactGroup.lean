import Licq.QtGui.ContactUserData
import Mathlib.Algebra.BigOperators.Group.List.Basic
import Mathlib.Logic.Function.Basic
import Mathlib.Tactic.Abel
import Mathlib.Tactic.Linarith

/-!
# QtGui/ContactGroup — the counters of a group and of its bars

A group counts the unread events and the visible users of its members, and each of its three bars
counts the users of its sub group, their unread events and the visible ones among them.  The counters
are never worked out anew: a member that comes, goes or changes adds to them what it is worth.

`Right` says that the counters are the sums that they stand for.  A member that comes or goes keeps
that; one that changes keeps it exactly when it stays in its sub group or was not visible
(`right_transfer_iff`), because `updateSubGroup` leaves the visible users of the bars as they are.
-/

namespace Licq.QtGui

open Function

/-! ## Bars -/

/-- `ContactBar` -/
structure ContactBar where
  myUserCount : ℤ
  myEvents : ℤ
  myVisibleContacts : ℤ
  deriving DecidableEq

namespace ContactBar

def countIncrease (b : ContactBar) : ContactBar := { b with myUserCount := b.myUserCount + 1 }

def countDecrease (b : ContactBar) : ContactBar := { b with myUserCount := b.myUserCount - 1 }

def updateNumEvents (b : ContactBar) (counter : ℤ) : ContactBar :=
  { b with myEvents := b.myEvents + counter }

def updateVisibility (b : ContactBar) (increase : Bool) : ContactBar :=
  { b with myVisibleContacts := if increase then b.myVisibleContacts + 1 else b.myVisibleContacts - 1 }

end ContactBar

/-! ## Groups -/

/-- `ContactGroup`: its members are known by the address of their data, which no two members share. -/
structure ContactGroup where
  myGroupId : ℤ
  myShowMask : ℕ
  myHideMask : ℕ
  myEvents : ℤ
  myVisibleContacts : ℤ
  myBars : SubGroupType → ContactBar
  myUsers : List ℕ

namespace ContactGroup

/-- The constructors; a group of the daemon hides ignored users. -/
def new (id : ℤ) (showMask hideMask : ℕ) : ContactGroup :=
  ⟨id, showMask, hideMask, 0, 0, fun _ => ⟨0, 0, 0⟩, []⟩

/-- One bar is changed. -/
def changeBar (g : ContactGroup) (subGroup : SubGroupType) (f : ContactBar → ContactBar) :
    ContactGroup :=
  { g with myBars := Function.update g.myBars subGroup (f (g.myBars subGroup)) }

def addUser (g : ContactGroup) (user : ℕ) (d : ContactUserData) : ContactGroup :=
  { g with
    myUsers := g.myUsers ++ [user]
    myEvents := g.myEvents + d.myEvents
    myVisibleContacts := if d.myVisibility then g.myVisibleContacts + 1 else g.myVisibleContacts
    }.changeBar d.mySubGroup fun b =>
      let b := b.countIncrease.updateNumEvents d.myEvents
      if d.myVisibility then b.updateVisibility true else b

def removeUser (g : ContactGroup) (user : ℕ) (d : ContactUserData) : ContactGroup :=
  let g := g.changeBar d.mySubGroup fun b =>
    let b := b.countDecrease.updateNumEvents (-d.myEvents)
    if d.myVisibility then b.updateVisibility false else b
  { g with
    myUsers := g.myUsers.filter (· ≠ user)
    myEvents := g.myEvents - d.myEvents
    myVisibleContacts := if d.myVisibility then g.myVisibleContacts - 1 else g.myVisibleContacts }

def acceptUser (g : ContactGroup) (extendedStatus : ℕ) : Bool :=
  if g.myHideMask ≠ 0 ∧ extendedStatus &&& g.myHideMask ≠ 0 then false
  else if g.myShowMask ≠ 0 ∧ extendedStatus &&& g.myShowMask = 0 then false
  else true

def updateSubGroup (g : ContactGroup) (oldSubGroup newSubGroup : SubGroupType) (eventCounter : ℤ) :
    ContactGroup :=
  (g.changeBar oldSubGroup fun b => b.countDecrease.updateNumEvents (-eventCounter)).changeBar
    newSubGroup fun b => b.countIncrease.updateNumEvents eventCounter

def updateNumEvents (g : ContactGroup) (counter : ℤ) (subGroup : SubGroupType) : ContactGroup :=
  if counter = 0 then g
  else { g.changeBar subGroup (·.updateNumEvents counter) with myEvents := g.myEvents + counter }

def updateVisibility (g : ContactGroup) (increase : Bool) (subGroup : SubGroupType) : ContactGroup :=
  { g.changeBar subGroup (·.updateVisibility increase) with
    myVisibleContacts := if increase then g.myVisibleContacts + 1 else g.myVisibleContacts - 1 }

/-- What `update` makes of a group of the user when its data were the first and are the second. -/
def transfer (g : ContactGroup) (d d' : ContactUserData) : ContactGroup :=
  let g := g.updateNumEvents (d'.myEvents - d.myEvents) d.mySubGroup
  let g := if d'.mySubGroup ≠ d.mySubGroup then
      g.updateSubGroup d.mySubGroup d'.mySubGroup d'.myEvents
    else g
  if d'.myVisibility ≠ d.myVisibility then g.updateVisibility d'.myVisibility d'.mySubGroup else g

/-! ## What the counters stand for -/

variable (data : ℕ → ContactUserData)

/-- The members in a sub group. -/
def members (g : ContactGroup) (subGroup : SubGroupType) : List ℕ :=
  g.myUsers.filter fun user => (data user).mySubGroup = subGroup

/-- The counters are the sums over the members, and those of a bar the sums over the members in its
sub group. -/
structure Right (g : ContactGroup) : Prop where
  events : g.myEvents = (g.myUsers.map fun user => (data user).myEvents).sum
  visible : g.myVisibleContacts = (g.myUsers.filter fun user => (data user).myVisibility).length
  barCount : ∀ subGroup, (g.myBars subGroup).myUserCount = (g.members data subGroup).length
  barEvents : ∀ subGroup, (g.myBars subGroup).myEvents =
    ((g.members data subGroup).map fun user => (data user).myEvents).sum
  barVisible : ∀ subGroup, (g.myBars subGroup).myVisibleContacts =
    ((g.members data subGroup).filter fun user => (data user).myVisibility).length

/-- The counters of a group. -/
inductive Counter
  | events
  | visible
  | barCount (subGroup : SubGroupType)
  | barEvents (subGroup : SubGroupType)
  | barVisible (subGroup : SubGroupType)

/-- What a member is worth to a counter. -/
def Counter.worth : Counter → ContactUserData → ℤ
  | .events, d => d.myEvents
  | .visible, d => if d.myVisibility then 1 else 0
  | .barCount subGroup, d => if d.mySubGroup = subGroup then 1 else 0
  | .barEvents subGroup, d => if d.mySubGroup = subGroup then d.myEvents else 0
  | .barVisible subGroup, d => if d.mySubGroup = subGroup ∧ d.myVisibility then 1 else 0

def counter (g : ContactGroup) : Counter → ℤ
  | .events => g.myEvents
  | .visible => g.myVisibleContacts
  | .barCount subGroup => (g.myBars subGroup).myUserCount
  | .barEvents subGroup => (g.myBars subGroup).myEvents
  | .barVisible subGroup => (g.myBars subGroup).myVisibleContacts

theorem sum_map_filter (p : ℕ → Bool) (f : ℕ → ℤ) (l : List ℕ) :
    ((l.filter p).map f).sum = (l.map fun x => if p x then f x else 0).sum := by
  induction l with
  | nil => rfl
  | cons x l ih =>
    rw [List.filter_cons, List.map_cons, List.sum_cons, ← ih]
    split_ifs
    · rw [List.map_cons, List.sum_cons]
    · rw [zero_add]

theorem length_filter (p : ℕ → Bool) (l : List ℕ) :
    ((l.filter p).length : ℤ) = (l.map fun x => if p x then (1 : ℤ) else 0).sum := by
  rw [← sum_map_filter p fun _ => 1]
  simp

variable {g : ContactGroup} {user : ℕ}

/-- **The counters one by one.** -/
theorem right_iff :
    g.Right data ↔
      ∀ k : Counter, g.counter k = (g.myUsers.map fun user => k.worth (data user)).sum := by
  have hvisible (subGroup : SubGroupType) :
      (((g.members data subGroup).filter fun user => (data user).myVisibility).length : ℤ) =
        (g.myUsers.map fun user =>
          (Counter.barVisible subGroup).worth (data user)).sum := by
    rw [members, List.filter_filter, length_filter]
    simp [Counter.worth, and_comm]
  have hcount (subGroup : SubGroupType) : ((g.members data subGroup).length : ℤ) =
      (g.myUsers.map fun user => (Counter.barCount subGroup).worth (data user)).sum := by
    rw [members, length_filter]
    simp [Counter.worth]
  have hevents (subGroup : SubGroupType) :
      ((g.members data subGroup).map fun user => (data user).myEvents).sum =
        (g.myUsers.map fun user => (Counter.barEvents subGroup).worth (data user)).sum := by
    rw [members, sum_map_filter]
    simp [Counter.worth]
  constructor
  · rintro ⟨h1, h2, h3, h4, h5⟩ k
    cases k with
    | events => exact h1
    | visible => exact h2.trans (length_filter _ _)
    | barCount subGroup => exact (h3 subGroup).trans (hcount subGroup)
    | barEvents subGroup => exact (h4 subGroup).trans (hevents subGroup)
    | barVisible subGroup => exact (h5 subGroup).trans (hvisible subGroup)
  · intro h
    exact ⟨h .events, (h .visible).trans (length_filter _ _).symm,
      fun subGroup => (h (.barCount subGroup)).trans (hcount subGroup).symm,
      fun subGroup => (h (.barEvents subGroup)).trans (hevents subGroup).symm,
      fun subGroup => (h (.barVisible subGroup)).trans (hvisible subGroup).symm⟩

/-! ## Members come and go -/

theorem changeBar_myBars (g : ContactGroup) (subGroup : SubGroupType) (f : ContactBar → ContactBar)
    (subGroup' : SubGroupType) :
    (g.changeBar subGroup f).myBars subGroup' =
      if subGroup' = subGroup then f (g.myBars subGroup') else g.myBars subGroup' := by
  simp only [changeBar, update_apply]
  split_ifs with h
  · rw [h]
  · rfl

/-- A member that comes adds what it is worth. -/
theorem counter_addUser (g : ContactGroup) (user : ℕ) (d : ContactUserData) (k : Counter) :
    (g.addUser user d).counter k = g.counter k + k.worth d := by
  cases k with
  | events => rfl
  | visible =>
    simp only [counter, addUser, changeBar, Counter.worth]
    split_ifs <;> simp
  | _ =>
    simp only [counter, addUser, changeBar_myBars, Counter.worth, eq_comm (a := d.mySubGroup)]
    split_ifs <;>
      simp_all [ContactBar.countIncrease, ContactBar.updateNumEvents, ContactBar.updateVisibility]

/-- A member that goes takes off what it is worth. -/
theorem counter_removeUser (g : ContactGroup) (user : ℕ) (d : ContactUserData) (k : Counter) :
    (g.removeUser user d).counter k = g.counter k - k.worth d := by
  cases k with
  | events => rfl
  | visible =>
    simp only [counter, removeUser, changeBar, Counter.worth]
    split_ifs <;> simp
  | _ =>
    simp only [counter, removeUser, changeBar_myBars, Counter.worth, eq_comm (a := d.mySubGroup)]
    split_ifs <;>
      simp_all [ContactBar.countDecrease, ContactBar.updateNumEvents, ContactBar.updateVisibility,
        sub_eq_add_neg]

variable {data}

/-- **A member comes.** -/
theorem right_addUser_iff (g : ContactGroup) (user : ℕ) :
    (g.addUser user (data user)).Right data ↔ g.Right data := by
  rw [right_iff, right_iff]
  refine forall_congr' fun k => ?_
  have husers : (g.addUser user (data user)).myUsers = g.myUsers ++ [user] := rfl
  rw [counter_addUser, husers, List.map_append, List.sum_append, List.map_singleton,
    List.sum_singleton, add_left_inj]

theorem sum_map_filter_ne (f : ℕ → ℤ) {l : List ℕ} (hl : l.Nodup) (hmem : user ∈ l) :
    ((l.filter (· ≠ user)).map f).sum = (l.map f).sum - f user := by
  have hperm := List.perm_cons_erase hmem
  have hfilter : l.filter (· ≠ user) = l.erase user := by
    rw [hl.erase_eq_filter]
    exact List.filter_congr fun x _ => by simp [bne, beq_eq_decide]
  rw [(hperm.map f).sum_eq, hfilter, List.map_cons, List.sum_cons, add_sub_cancel_left]

/-- **A member goes.** -/
theorem right_removeUser_iff (hnodup : g.myUsers.Nodup)
    (hmem : user ∈ g.myUsers) : (g.removeUser user (data user)).Right data ↔ g.Right data := by
  rw [right_iff, right_iff]
  refine forall_congr' fun k => ?_
  have husers : (g.removeUser user (data user)).myUsers = g.myUsers.filter (· ≠ user) := rfl
  rw [counter_removeUser, husers, sum_map_filter_ne _ hnodup hmem, sub_left_inj]

/-! ## A member changes -/

theorem sum_map_update (w : ContactUserData → ℤ) (user : ℕ) (d : ContactUserData) {l : List ℕ}
    (hl : l.Nodup) :
    (l.map fun p => w (Function.update data user d p)).sum =
      (l.map fun p => w (data p)).sum + if user ∈ l then w d - w (data user) else 0 := by
  induction l with
  | nil => simp
  | cons x l ih =>
    obtain ⟨hx, hl⟩ := List.nodup_cons.mp hl
    rw [List.map_cons, List.sum_cons, List.map_cons, List.sum_cons, ih hl]
    obtain rfl | hne := eq_or_ne x user
    · rw [update_self, if_neg hx, if_pos List.mem_cons_self]
      ring
    · have hiff : user ∈ x :: l ↔ user ∈ l := by
        rw [List.mem_cons, or_iff_right hne.symm]
      rw [update_of_ne hne, if_congr hiff rfl rfl]
      ring

/-- The data of one who is no member change. -/
theorem right_update_of_notMem (h : user ∉ g.myUsers)
    (d : ContactUserData) : g.Right (Function.update data user d) ↔ g.Right data := by
  rw [right_iff, right_iff]
  refine forall_congr' fun k => ?_
  have hmap : (g.myUsers.map fun p => k.worth (update data user d p)) =
      g.myUsers.map fun p => k.worth (data p) := by
    refine List.map_congr_left fun p hp => ?_
    rw [update_of_ne (ne_of_mem_of_not_mem hp h)]
  rw [hmap]

@[simp] theorem updateNumEvents_myUsers (g : ContactGroup) (counter : ℤ) (subGroup : SubGroupType) :
    (g.updateNumEvents counter subGroup).myUsers = g.myUsers := by
  rw [updateNumEvents]
  split_ifs <;> rfl

theorem transfer_myUsers (g : ContactGroup) (d d' : ContactUserData) :
    (g.transfer d d').myUsers = g.myUsers := by
  simp only [transfer]
  split_ifs <;> simp [updateVisibility, updateSubGroup, changeBar]

theorem counter_updateNumEvents (g : ContactGroup) (counter : ℤ) (subGroup : SubGroupType)
    (k : Counter) :
    (g.updateNumEvents counter subGroup).counter k = g.counter k +
      match k with
      | .events => counter
      | .barEvents subGroup' => if subGroup' = subGroup then counter else 0
      | _ => 0 := by
  rw [updateNumEvents]
  split_ifs with hzero
  · cases k <;> simp [hzero]
  · cases k with
    | events => rfl
    | visible => simp [ContactGroup.counter, changeBar]
    | _ =>
      simp only [ContactGroup.counter, changeBar_myBars]
      split_ifs <;> simp [ContactBar.updateNumEvents]

theorem counter_updateSubGroup (g : ContactGroup) (oldSubGroup newSubGroup : SubGroupType)
    (eventCounter : ℤ) (k : Counter) :
    (g.updateSubGroup oldSubGroup newSubGroup eventCounter).counter k = g.counter k +
      match k with
      | .barCount subGroup =>
        (if subGroup = newSubGroup then 1 else 0) - (if subGroup = oldSubGroup then 1 else 0)
      | .barEvents subGroup => (if subGroup = newSubGroup then eventCounter else 0) -
        (if subGroup = oldSubGroup then eventCounter else 0)
      | _ => 0 := by
  cases k with
  | events => simp [counter, updateSubGroup, changeBar]
  | visible => simp [counter, updateSubGroup, changeBar]
  | _ =>
    simp only [counter, updateSubGroup, changeBar_myBars]
    split_ifs <;>
      simp_all [ContactBar.countIncrease, ContactBar.countDecrease, ContactBar.updateNumEvents,
        sub_eq_add_neg]

theorem counter_updateVisibility (g : ContactGroup) (increase : Bool) (subGroup : SubGroupType)
    (k : Counter) :
    (g.updateVisibility increase subGroup).counter k = g.counter k +
      match k with
      | .visible => if increase then 1 else -1
      | .barVisible subGroup' => if subGroup' = subGroup then if increase then 1 else -1 else 0
      | _ => 0 := by
  cases k with
  | events => simp [counter, updateVisibility, changeBar]
  | visible =>
    simp only [counter, updateVisibility]
    split_ifs <;> simp [sub_eq_add_neg]
  | _ =>
    simp only [counter, updateVisibility, changeBar_myBars]
    split_ifs <;> simp_all [ContactBar.updateVisibility, sub_eq_add_neg]

/-- What `transfer` adds to a counter. -/
theorem counter_transfer (g : ContactGroup) (d d' : ContactUserData) (k : Counter) :
    (g.transfer d d').counter k = g.counter k +
      match k with
      | .events => d'.myEvents - d.myEvents
      | .visible => (if d'.myVisibility then 1 else 0) - (if d.myVisibility then 1 else 0)
      | .barCount subGroup =>
        (if d'.mySubGroup = subGroup then 1 else 0) - (if d.mySubGroup = subGroup then 1 else 0)
      | .barEvents subGroup => (if d'.mySubGroup = subGroup then d'.myEvents else 0) -
        (if d.mySubGroup = subGroup then d.myEvents else 0)
      | .barVisible subGroup =>
        if d'.mySubGroup = subGroup then
          (if d'.myVisibility then 1 else 0) - (if d.myVisibility then 1 else 0)
        else 0 := by
  have hsub (g : ContactGroup) :
      (if d'.mySubGroup ≠ d.mySubGroup then
        g.updateSubGroup d.mySubGroup d'.mySubGroup d'.myEvents else g).counter k =
        (g.updateSubGroup d.mySubGroup d'.mySubGroup d'.myEvents).counter k := by
    split_ifs with h
    · rfl
    · rw [counter_updateSubGroup, not_not.mp h]
      cases k <;> simp
  have hvisible (g : ContactGroup) :
      (if d'.myVisibility ≠ d.myVisibility then
        g.updateVisibility d'.myVisibility d'.mySubGroup else g).counter k = g.counter k +
        match k with
        | .visible => (if d'.myVisibility then 1 else 0) - (if d.myVisibility then 1 else 0)
        | .barVisible subGroup =>
          if d'.mySubGroup = subGroup then
            (if d'.myVisibility then 1 else 0) - (if d.myVisibility then 1 else 0)
          else 0
        | _ => 0 := by
    by_cases h : d'.myVisibility = d.myVisibility
    · rw [if_neg (not_not.mpr h), h]
      cases k <;> simp
    · rw [if_pos h, counter_updateVisibility]
      have hold : d.myVisibility = !d'.myVisibility := Bool.eq_not.mpr (Ne.symm h)
      rw [hold]
      cases k with
      | visible => cases d'.myVisibility <;> rfl
      | barVisible subGroup =>
        cases d'.myVisibility <;> simp [eq_comm (a := subGroup)]
      | _ => rfl
  simp only [transfer]
  rw [hvisible, hsub, counter_updateSubGroup, counter_updateNumEvents]
  cases k with
  | barEvents subGroup =>
    simp only [eq_comm (a := subGroup)]
    split_ifs <;> ring
  | barCount subGroup => simp [eq_comm (a := subGroup)]
  | _ => simp

/-- **A member changes**: the counters follow exactly when it stays in its sub group or was not
visible. -/
theorem right_transfer_iff (hnodup : g.myUsers.Nodup)
    (hmem : user ∈ g.myUsers) (hright : g.Right data) (d' : ContactUserData) :
    (g.transfer (data user) d').Right (Function.update data user d') ↔
      d'.mySubGroup = (data user).mySubGroup ∨ (data user).myVisibility = false := by
  have hsum (k : Counter) :
      (((g.transfer (data user) d').myUsers.map fun p =>
          k.worth (update data user d' p)).sum =
        g.counter k + (k.worth d' - k.worth (data user))) := by
    rw [transfer_myUsers, sum_map_update _ _ _ hnodup, if_pos hmem, ← (right_iff data).mp hright k]
  rw [right_iff]
  simp only [hsum, counter_transfer, add_right_inj]
  constructor
  · intro h
    have hold := h (.barVisible (data user).mySubGroup)
    simp only [Counter.worth, true_and] at hold
    by_contra hcond
    obtain ⟨hsub, hvisible⟩ := not_or.mp hcond
    rw [if_neg hsub, if_neg fun h' => hsub h'.1, if_pos (Bool.eq_true_of_not_eq_false hvisible)]
      at hold
    exact absurd hold (by decide)
  · intro h k
    cases k with
    | barVisible subGroup =>
      simp only [Counter.worth]
      rcases h with hsub | hvisible
      · rw [hsub]
        by_cases hbar : (data user).mySubGroup = subGroup <;> simp [hbar]
      · rw [hvisible]
        by_cases hbar : d'.mySubGroup = subGroup <;> simp [hbar]
    | _ => rfl

end ContactGroup

end Licq.QtGui
