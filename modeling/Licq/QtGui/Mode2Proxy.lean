import Licq.Data.Numbering
import Licq.Data.Steps
import Licq.QtGui.ContactUserData
import Mathlib.Algebra.BigOperators.Group.List.Basic
import Mathlib.Logic.Function.Basic

/-!
# QtGui/Mode2Proxy — online and offline groups

`Mode2ContactListProxy` shows every group of the contact list twice, once with its users that are
online and once with those that are offline.  It follows the contact list by its signals and keeps for
every user the row in the contact list, the row in the proxy and the proxy group.
-/

namespace Licq.QtGui.Mode2

/-! ## Indexes -/

/-- What the internal pointer of an index points to; objects are known by their addresses, a bar by
that of its group, and a proxy group by that of the group it shows and by which half. -/
inductive Item
  | group (address : ℕ)
  | bar (group k : ℕ)
  | user (address : ℕ)
  | proxyGroup (group : ℕ) (isOnline : Bool)
  deriving DecidableEq

/-- The model that an index belongs to. -/
inductive Model
  | contactList
  | proxy
  deriving DecidableEq

/-- A valid `QModelIndex`. -/
structure QModelIndex where
  row : ℕ
  column : ℕ
  internalPointer : Item
  model : Model
  deriving DecidableEq

/-! ## The contact list -/

/-- What the contact list gives of a user: `StatusRole`, `VisibilityRole` and `UnreadEventsRole`. -/
structure UserInfo where
  status : ℕ
  isVisible : Bool
  unreadEvents : ℤ
  deriving DecidableEq

def UserInfo.isOnline (info : UserInfo) : Prop := info.status ≠ offlineStatus

instance (info : UserInfo) : Decidable info.isOnline := inferInstanceAs (Decidable (_ ≠ _))

/-- A group of the contact list: its bars come before its users. -/
structure SourceGroup where
  address : ℕ
  users : List ℕ
  deriving DecidableEq

/-- The rows of a group that are bars. -/
def sourceBars : ℕ := 3

/-- `ContactGroup::item` -/
def SourceGroup.item (g : SourceGroup) (row : ℕ) : Option Item :=
  if row < sourceBars then some (.bar g.address row)
  else (g.users[row - sourceBars]?).map .user

/-! ## The proxy -/

/-- `NumBars` -/
def numBars : ℕ := 2

/-- `Mode2ProxyUserData`, with the user that it is for. -/
structure ProxyUserData where
  cu : ℕ
  sourceRow : ℕ
  proxyRow : ℕ
  groupRow : ℕ
  unreadEvents : ℤ
  isVisible : Bool
  deriving DecidableEq

/-- `ContactProxyGroup` -/
structure ProxyGroup where
  mySourceGroup : ℕ
  myIsOnline : Bool
  myUserCount : ℤ
  myVisibleCount : ℤ
  myEventCount : ℤ
  deriving DecidableEq

namespace ProxyGroup

def new (sourceGroup : ℕ) (isOnline : Bool) : ProxyGroup := ⟨sourceGroup, isOnline, 0, 0, 0⟩

def updateUserCount (g : ProxyGroup) (counter : ℤ) : ProxyGroup :=
  { g with myUserCount := g.myUserCount + counter }

def updateVisibility (g : ProxyGroup) (counter : ℤ) : ProxyGroup :=
  { g with myVisibleCount := g.myVisibleCount + counter }

def updateEvents (g : ProxyGroup) (counter : ℤ) : ProxyGroup :=
  { g with myEventCount := g.myEventCount + counter }

def item (g : ProxyGroup) : Item := .proxyGroup g.mySourceGroup g.myIsOnline

end ProxyGroup

/-- `Mode2ContactListProxy`.  The map of the users is a list without order; nothing that is done to
all its entries depends on their order. -/
structure Proxy where
  myBars : List Item
  myGroups : List ProxyGroup
  myUserData : List ProxyUserData
  myColumnCount : ℕ

namespace Proxy

/-- `myUserData[cu]` -/
def userData (p : Proxy) (cu : ℕ) : Option ProxyUserData := p.myUserData.find? (·.cu = cu)

/-- The proxy group of a user in the source group at this row. -/
def groupRowOf (parentRow : ℕ) (info : UserInfo) : ℕ :=
  parentRow * 2 + if info.isOnline then 0 else 1

/-- The rows of the users that are in a proxy group. -/
def rows (entries : List ProxyUserData) (groupRow : ℕ) : List ℕ :=
  (entries.filter (·.groupRow = groupRow)).map (·.proxyRow)

def addUser (p : Proxy) (cu : ℕ) (info : UserInfo) (row parentRow : ℕ) : Proxy :=
  let groupRow := groupRowOf parentRow info
  let proxyRow := Numbering.next (rows p.myUserData groupRow)
  { p with
    myUserData := p.myUserData.filter (·.cu ≠ cu) ++
      [⟨cu, row, proxyRow, groupRow, info.unreadEvents, info.isVisible⟩]
    myGroups := p.myGroups.modify groupRow fun g =>
      let g := (g.updateUserCount 1).updateEvents info.unreadEvents
      if info.isVisible then g.updateVisibility 1 else g }

def removeUser (p : Proxy) (cu : ℕ) : Proxy :=
  match p.userData cu with
  | none => p
  | some d =>
    { p with
      myGroups := p.myGroups.modify d.groupRow fun g =>
        let g := g.updateEvents (-d.unreadEvents)
        let g := if d.isVisible then g.updateVisibility (-1) else g
        g.updateUserCount (-1)
      myUserData := (p.myUserData.filter (·.cu ≠ cu)).map fun e =>
        if e.groupRow = d.groupRow then { e with proxyRow := Numbering.close d.proxyRow e.proxyRow }
        else e }

/-- `sourceDataChanged`, for a user. -/
def sourceDataChanged (p : Proxy) (cu : ℕ) (info : UserInfo) (row parentRow : ℕ) : Proxy :=
  match p.userData cu with
  | none => p
  | some d =>
    if info.isOnline ↔ d.groupRow % 2 = 0 then
      { p with
        myGroups := p.myGroups.modify d.groupRow fun g =>
          let g := if info.isVisible ≠ d.isVisible then
              g.updateVisibility (if info.isVisible then 1 else -1)
            else g
          if info.unreadEvents ≠ d.unreadEvents then
            g.updateEvents (info.unreadEvents - d.unreadEvents)
          else g
        myUserData := p.myUserData.map fun e =>
          if e.cu = cu then
            { e with isVisible := info.isVisible, unreadEvents := info.unreadEvents }
          else e }
    else (p.removeUser cu).addUser cu info row parentRow

/-- `addGroup` -/
def addGroup (p : Proxy) (info : ℕ → UserInfo) (groupRow : ℕ) (g : SourceGroup) : Proxy :=
  let p := { p with
    myGroups := (p.myGroups.insertIdx (groupRow * 2) (.new g.address true)).insertIdx
      (groupRow * 2 + 1) (.new g.address false) }
  g.users.zipIdx.foldl (fun p user => p.addUser user.1 (info user.1) (user.2 + sourceBars) groupRow) p

/-- `sourceRowsInserted`, for groups of the contact list. -/
def sourceGroupsInserted (p : Proxy) (groups : List SourceGroup) (info : ℕ → UserInfo)
    (start stop : ℕ) : Proxy :=
  let p := { p with
    myUserData := p.myUserData.map fun e =>
      if stop * 2 ≤ e.groupRow then { e with groupRow := e.groupRow + 2 * (stop - start + 1) } else e }
  (List.range' start (stop + 1 - start)).foldl
    (fun p row => (groups[row]?).elim p (p.addGroup info row)) p

/-- `sourceRowsAboutToBeRemoved`, for groups of the contact list.  What would be taken behind the end
of the list of proxy groups is not there. -/
def sourceGroupsAboutToBeRemoved (p : Proxy) (start stop : ℕ) : Proxy :=
  let p := (List.range' start (stop + 1 - start)).reverse.foldl (fun p row =>
    { p with myGroups := (p.myGroups.eraseIdx (row * 2 + 1)).eraseIdx (row * 2) }) p
  { p with
    myUserData := (p.myUserData.filter fun e => ¬ (start ≤ e.groupRow / 2 ∧ e.groupRow / 2 ≤ stop)).map
      fun e => if stop < e.groupRow / 2 then { e with groupRow := e.groupRow - 2 * (stop - start + 1) }
        else e }

/-- `reset`, on a contact list whose All Users group comes first. -/
def reset (groups : List SourceGroup) (info : ℕ → UserInfo) (columnCount : ℕ) : Proxy :=
  let p : Proxy :=
    { myBars := groups.head?.toList.flatMap fun g => (List.range numBars).map (.bar g.address)
      myGroups := []
      myUserData := []
      myColumnCount := columnCount }
  groups.zipIdx.foldl (fun p g => p.addGroup info g.2 g.1) p

/-! ## Mapping -/

/-- `mapFromSource` -/
def mapFromSource (p : Proxy) (sourceIndex : QModelIndex) : Option QModelIndex :=
  match sourceIndex.internalPointer with
  | .group _ =>
    if sourceIndex.row * 2 < p.myGroups.length then
      some ⟨sourceIndex.row * 2 + numBars, sourceIndex.column, sourceIndex.internalPointer, .proxy⟩
    else none
  | .user cu => (p.userData cu).map fun d => ⟨d.proxyRow, sourceIndex.column, .user cu, .proxy⟩
  | .bar _ _ =>
    if p.myBars.idxOf sourceIndex.internalPointer < p.myBars.length then
      some ⟨p.myBars.idxOf sourceIndex.internalPointer, sourceIndex.column,
        sourceIndex.internalPointer, .proxy⟩
    else none
  | .proxyGroup _ _ => none

/-- `mapToSource`.  A group is taken for a proxy group: `sourceGroup` reads a group of the contact list
out of it, and `memory` says what it finds where there is another object. -/
def mapToSource (p : Proxy) (memory : ℕ → Item) (proxyIndex : QModelIndex) : Option QModelIndex :=
  match proxyIndex.internalPointer with
  | .proxyGroup g _ =>
    some ⟨(proxyIndex.row - numBars) / 2, proxyIndex.column, .group g, .proxy⟩
  | .group g => some ⟨(proxyIndex.row - numBars) / 2, proxyIndex.column, memory g, .proxy⟩
  | .user cu => (p.userData cu).map fun d => ⟨d.sourceRow, proxyIndex.column, .user cu, .proxy⟩
  | .bar _ _ =>
    if p.myBars.idxOf proxyIndex.internalPointer < p.myBars.length then
      some ⟨p.myBars.idxOf proxyIndex.internalPointer, proxyIndex.column,
        proxyIndex.internalPointer, .proxy⟩
    else none

/-- `index` -/
def index (p : Proxy) (row column : ℕ) (parent : Option QModelIndex) : Option QModelIndex :=
  if p.myColumnCount ≤ column then none
  else match parent with
    | none =>
      if row < numBars then (p.myBars[row]?).map (⟨row, column, ·, .proxy⟩)
      else (p.myGroups[row - numBars]?).map fun g => ⟨row, column, g.item, .proxy⟩
    | some parent =>
      match parent.internalPointer with
      | .proxyGroup _ _ | .group _ =>
        (p.myUserData.find? fun e => e.groupRow = parent.row - numBars ∧ e.proxyRow = row).map
          fun e => ⟨row, column, .user e.cu, .proxy⟩
      | _ => none

/-- `parent` -/
def parent (p : Proxy) (index : QModelIndex) : Option QModelIndex :=
  match index.internalPointer with
  | .user cu =>
    (p.userData cu).bind fun d =>
      (p.myGroups[d.groupRow]?).map fun g => ⟨d.groupRow + numBars, 0, g.item, .proxy⟩
  | _ => none

/-- `rowCount` -/
def rowCount (p : Proxy) (parent : Option QModelIndex) : ℤ :=
  match parent with
  | none => p.myGroups.length + numBars
  | some parent =>
    match parent.internalPointer with
    | .proxyGroup _ _ | .group _ =>
      if parent.row < numBars then 0
      else (p.myGroups[parent.row - numBars]?).elim 0 (·.myUserCount)
    | _ => 0

end Proxy

/-! ## The contact list and its proxy -/

/-- The contact list and the proxy that follows it. -/
structure State where
  groups : List SourceGroup
  info : ℕ → UserInfo
  columnCount : ℕ
  proxy : Proxy

/-- The groups that are always there: the system groups and the one for other users. -/
def fixedGroups : ℕ := 9

/-- What happens to the contact list.  Users and groups come at the end, a user goes from any row, and
a change may be one of status, visibility and unread events at once. -/
inductive Action
  | insertUser (i cu : ℕ) (info : UserInfo)
  | removeUser (i j : ℕ)
  | changeUser (i j : ℕ) (info : UserInfo)
  | insertGroup (address : ℕ)
  | removeGroup (i : ℕ)
  | reset (groups : List SourceGroup) (info : ℕ → UserInfo) (columnCount : ℕ)

namespace State

/-- The contact list before any user is there, and the proxy on it. -/
def initial (columnCount : ℕ) : State :=
  let groups := (List.range fixedGroups).map (⟨·, []⟩)
  let info := fun _ => ⟨offlineStatus, false, 0⟩
  ⟨groups, info, columnCount, .reset groups info columnCount⟩

/-- The contact list tells the proxy of each change.  When a group is removed its users are deleted
after it: each of them is told as rows of a group that is no longer there, so that the index of the
group is invalid, and as the row before the first user, since the user is in the group no more; the
proxy takes it for the removal of the group in this row.  There is no step for what cannot be: an
address that is in use, a user or group that is not there, a contact list without its fixed groups. -/
def step (s : State) : Action → Option State
  | .insertUser i cu info =>
    match s.groups[i]? with
    | none => none
    | some g =>
      if cu ∈ s.groups.flatMap (·.users) then none
      else
        some { s with
          groups := s.groups.set i { g with users := g.users ++ [cu] }
          info := Function.update s.info cu info
          proxy := s.proxy.addUser cu info (g.users.length + sourceBars) i }
  | .removeUser i j =>
    match s.groups[i]? with
    | none => none
    | some g =>
      match g.users[j]? with
      | none => none
      | some cu =>
        some { s with
          groups := s.groups.set i { g with users := g.users.eraseIdx j }
          proxy := s.proxy.removeUser cu }
  | .changeUser i j info =>
    match s.groups[i]? with
    | none => none
    | some g =>
      match g.users[j]? with
      | none => none
      | some cu =>
        some { s with
          info := Function.update s.info cu info
          proxy := s.proxy.sourceDataChanged cu info (j + sourceBars) i }
  | .insertGroup address =>
    let groups := s.groups ++ [⟨address, []⟩]
    some { s with
      groups := groups
      proxy := s.proxy.sourceGroupsInserted groups s.info s.groups.length s.groups.length }
  | .removeGroup i =>
    if i < fixedGroups then none
    else match s.groups[i]? with
      | none => none
      | some g =>
        some { s with
          groups := s.groups.eraseIdx i
          proxy := g.users.foldl (fun p _ => p.sourceGroupsAboutToBeRemoved 2 2)
            (s.proxy.sourceGroupsAboutToBeRemoved i i) }
  | .reset groups info columnCount =>
    if fixedGroups ≤ groups.length ∧ (groups.flatMap (·.users)).Nodup then
      some ⟨groups, info, columnCount, .reset groups info columnCount⟩
    else none

/-! ## What the proxy shall be -/

/-- The index is one of the contact list. -/
def IsIndex (s : State) (i : QModelIndex) : Prop :=
  i.model = .contactList ∧
    match i.internalPointer with
    | .group address => (s.groups[i.row]?).map (·.address) = some address
    | _ => ∃ g ∈ s.groups, g.item i.row = some i.internalPointer

/-- The users of a proxy group. -/
def usersOf (s : State) (groupRow : ℕ) : List ℕ :=
  (s.proxy.myUserData.filter (·.groupRow = groupRow)).map (·.cu)

/-- Everything but the way back to the contact list: every group has its two proxy groups, the rows of
a proxy group are numbered without gaps, the row of a user in the contact list is its row there, the
counters are the sums over the users, and `index` and `parent` are inverse.  An index of a user or a
bar comes back as the same row, column and pointer, in an index of the proxy. -/
structure Sound (s : State) : Prop where
  groups : s.proxy.myGroups.map (fun g => (g.mySourceGroup, g.myIsOnline)) =
    s.groups.flatMap fun g => [(g.address, true), (g.address, false)]
  rows : ∀ groupRow, Numbering.Full (Proxy.rows s.proxy.myUserData groupRow)
  sourceRow : ∀ e ∈ s.proxy.myUserData,
    (s.groups[e.groupRow / 2]?).bind (·.item e.sourceRow) = some (.user e.cu)
  half : ∀ e ∈ s.proxy.myUserData, e.groupRow % 2 = 0 ↔ (s.info e.cu).isOnline
  counters : ∀ groupRow g, s.proxy.myGroups[groupRow]? = some g →
    g.myUserCount = ((s.usersOf groupRow).length : ℤ) ∧
    g.myVisibleCount =
      (((s.usersOf groupRow).filter fun cu => (s.info cu).isVisible).length : ℤ) ∧
    g.myEventCount = ((s.usersOf groupRow).map fun cu => (s.info cu).unreadEvents).sum
  index_parent : ∀ e ∈ s.proxy.myUserData, ∀ column < s.proxy.myColumnCount,
    s.proxy.index e.proxyRow column (s.proxy.parent ⟨e.proxyRow, column, .user e.cu, .proxy⟩) =
      some ⟨e.proxyRow, column, .user e.cu, .proxy⟩
  parent_index : ∀ groupRow parent, s.proxy.index (groupRow + numBars) 0 none = some parent →
    ∀ row : ℕ, row < s.proxy.rowCount (some parent) → ∀ column < s.proxy.myColumnCount,
      ∃ i, s.proxy.index row column (some parent) = some i ∧ s.proxy.parent i = some parent
  wayBack : ∀ memory i, s.IsIndex i → (∀ address, i.internalPointer ≠ .group address) →
    ∀ k, s.proxy.mapFromSource i = some k →
      s.proxy.mapToSource memory k = some { i with model := .proxy }

/-- What the proxy shall be: also every index comes back as it was. -/
def Right (memory : ℕ → Item) (s : State) : Prop :=
  s.Sound ∧ ∀ i, s.IsIndex i → ∀ k, s.proxy.mapFromSource i = some k →
    s.proxy.mapToSource memory k = some i

/-- A user goes only from the last row of its group, and a group only when no user is in it. -/
def Ok (s : State) : Action → Prop
  | .removeUser i j => ∀ g ∈ s.groups[i]?, g.users.length ≤ j + 1
  | .removeGroup i => fixedGroups ≤ i → ∀ g ∈ s.groups[i]?, g.users = []
  | _ => True

end State

end Licq.QtGui.Mode2
