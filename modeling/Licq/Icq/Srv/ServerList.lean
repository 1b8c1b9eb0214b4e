import Mathlib.Algebra.Order.BigOperators.Group.List
import Licq.Icq.Srv.Packet
import Licq.Icq.Srv.Roster

/-!
# Icq/Srv/ServerList — changes of the contact list of the server

The constructors of the packets that add, update, remove and export items of the contact list.
Each of them lays out an item on its own: the values that are kept for a user come from a buffer of
their own, and what the constructor sets itself is packed beside them.

`Yields` says that the parser of the roster gets out of a packet just what the items are to say.
The **main result** `yields_iff` tells for which changes it does: a user that awaits authorisation
must not have kept the value 0x0066, a user that is exported must have kept none, and the items must
fit in a packet.
-/

open Wire

namespace Licq

open List Buffer RosterItem

/-! ## Users -/

/-- The lists that a user can be on: `ICQ_ROSTxNORMAL`, `ICQ_ROSTxVISIBLE`, `ICQ_ROSTxINVISIBLE` and
`ICQ_ROSTxIGNORE`. -/
inductive ContactType
  | normal | visible | invisible | ignore
  deriving DecidableEq, Repr

def ContactType.code : ContactType → UInt16
  | normal => 0x0000
  | visible => 0x0002
  | invisible => 0x0003
  | ignore => 0x000E

/-- `ICQ_ROSTxGROUP` -/
def icqRostGroup : UInt16 := 0x0001

/-- What the contact list of the server concerns of a user. -/
structure IcqUser where
  accountId : List UInt8
  myAlias : List UInt8
  nSID : UInt16
  nGSID : UInt16
  nVisibleSID : UInt16
  nInvisibleSID : UInt16
  bAwaitingAuth : Bool
  /-- The ids on the server of the groups that the user is in. -/
  groups : List ℕ
  tlvs : TlvList
  /-- The length of a value is an `unsigned short`. -/
  tlvs_lt : ∀ tlv ∈ tlvs.values, tlv.myData.length < 2 ^ 16

namespace IcqUser

/-- The id of the user on one of the lists. -/
def sidOn (u : IcqUser) : ContactType → UInt16
  | .normal => u.nSID
  | .visible => u.nVisibleSID
  | .invisible => u.nInvisibleSID
  | .ignore => u.nSID

end IcqUser

/-- Get all the values attached to a user, otherwise the server will delete all of the ones that
are not sent. -/
def packTlvs (tlvs : TlvList) : Buffer :=
  let extraTlvSize := (tlvs.values.map fun tlv => tlv.myData.length + 4).sum % 2 ^ 16
  tlvs.values.foldl Buffer.packTLV (Buffer.clear.create extraTlvSize)

/-- `tlvBuffer`, into which a constructor packs values or none. -/
def tlvBuffer : Option TlvList → Buffer
  | some tlvs => packTlvs tlvs
  | none => Buffer.clear

/-- `Pack(&tlvBuffer)`, with the lengths of the values in it. -/
def tlvBlock (tlvs : Option TlvList) : Layout where
  fields := if (tlvBuffer tlvs).empty then [] else [.raw (tlvBuffer tlvs).data]
  lengths := ((tlvs.getD SortedMap.empty).values).map fun tlv =>
    (tlv.myData.length % 2 ^ 16, tlv.myData.length)

/-- The value that says that a user awaits authorisation. -/
def authTlv : Layout := .ofFields [.uint32BE 0x00660000]

/-- The value with the ids that belong to a group. -/
def memberTlv (n : ℕ) (ids : List UInt16) : Layout :=
  .tlv 0x00C8 n (.ofFields (ids.map .uint16BE))

/-- `ICQ_SNACxFAM_LIST` -/
def icqSnacFamList : UInt16 := 0x0013

/-- `ICQ_SNACxLIST_ROSTxADD` -/
def icqSnacListRostAdd : UInt16 := 0x0008

/-- `ICQ_SNACxLIST_ROSTxUPD_GROUP` -/
def icqSnacListRostUpdGroup : UInt16 := 0x0009

/-- `ICQ_SNACxLIST_ROSTxREM` -/
def icqSnacListRostRem : UInt16 := 0x000A

/-! ## Adding -/

/-- `CPU_AddToServerList::init`; for the top level group with the ids of all groups. -/
def addToServerListInit (nSubSequence : UInt16) (name : List UInt8) (nGSID nSID nType : UInt16)
    (tlvs : Option TlvList) (bAuthReq : Bool) (topLevel : Option (List ℕ)) : SrvPacket :=
  let nExportSize : UInt16 := (topLevel.map fun ids => UInt16.ofNat (4 + 2 * ids.length)).getD 0
  let nExtra := nExportSize.toNat + (if bAuthReq then 4 else 0) + (tlvBuffer tlvs).getDataSize
  -- only `readTLV` fills the map of a buffer
  let tlvBufferMap : TlvList := SortedMap.empty
  cpuCommonFamily icqSnacFamList icqSnacListRostAdd nSubSequence (10 + name.length + nExtra)
    (.ofFields [.string16BE name, .uint16BE nGSID, .uint16BE nSID, .uint16BE nType] ++
      .sizedBE nExtra
        ((if nExportSize ≠ 0 then
            memberTlv ((topLevel.getD []).length * 2) ((topLevel.getD []).map UInt16.ofNat)
          else ∅) ++
        (if bAuthReq = true ∧ tlvBufferMap.find? 0x0066 = none then authTlv else ∅) ++
        tlvBlock tlvs))

/-- The first group among these that is on the server. -/
def firstGroupId (ids : List ℕ) : UInt16 := ((ids.map UInt16.ofNat).find? (· ≠ 0)).getD 0

/-- The group that a user is added to: the one that is asked for, the one that the user has, the
first one that the user is in, the first one from the list. -/
def addGsid (u : IcqUser) (nGroup : Option ℕ) (groupIds : List ℕ) : UInt16 :=
  let nGSID := (nGroup.map UInt16.ofNat).getD 0
  let nGSID := if nGSID = 0 then u.nGSID else nGSID
  let nGSID := if nGSID = 0 then firstGroupId u.groups else nGSID
  let nGSID := if nGSID = 0 then (groupIds.head?.map UInt16.ofNat).getD 0 else nGSID
  if nGSID = 0 then 1 else nGSID

/-- `CPU_AddToServerList` for a user, and the user with its new ids. -/
def cpuAddToServerList (nSubSequence : UInt16) (u : IcqUser) (type : ContactType)
    (nGroup : Option ℕ) (bAuthReq : Bool) (nSID : UInt16) (groupIds : List ℕ) :
    IcqUser × SrvPacket :=
  match type with
  | .normal =>
    let nGSID := addGsid u nGroup groupIds
    ({ u with nSID, bAwaitingAuth := bAuthReq, nGSID },
      addToServerListInit nSubSequence u.accountId nGSID nSID type.code (some u.tlvs) bAuthReq none)
  | .ignore =>
    ({ u with nSID, nGSID := 0 },
      addToServerListInit nSubSequence u.accountId 0 nSID type.code none bAuthReq none)
  | .visible =>
    ({ u with nVisibleSID := nSID },
      addToServerListInit nSubSequence u.accountId 0 nSID type.code none bAuthReq none)
  | .invisible =>
    ({ u with nInvisibleSID := nSID },
      addToServerListInit nSubSequence u.accountId 0 nSID type.code none bAuthReq none)

/-- `CPU_AddToServerList` for a group with its name in Unicode, or for the top level group. -/
def cpuAddGroupToServerList (nSubSequence : UInt16) (groupName : List UInt8)
    (bAuthReq bTopLevel : Bool) (nNewSID : UInt16) (groupIds : List ℕ) : SrvPacket :=
  addToServerListInit nSubSequence groupName (if bTopLevel then 0 else nNewSID) 0 icqRostGroup none
    bAuthReq (if bTopLevel then some groupIds else none)

/-! ## Removing -/

/-- `CPU_RemoveFromServerList::init` -/
def removeFromServerListInit (nSubSequence : UInt16) (name : List UInt8)
    (nGSID nSID nType : UInt16) (tlvs : Option TlvList) : SrvPacket :=
  cpuCommonFamily icqSnacFamList icqSnacListRostRem nSubSequence
    (10 + name.length + (tlvBuffer tlvs).getDataSize)
    (.ofFields [.string16BE name, .uint16BE nGSID, .uint16BE nSID, .uint16BE nType] ++
      .sizedBE (tlvBuffer tlvs).getDataSize (tlvBlock tlvs))

/-- `CPU_RemoveFromServerList` for a user. -/
def cpuRemoveFromServerList (nSubSequence : UInt16) (u : IcqUser) (nGSID nSID : UInt16)
    (type : ContactType) : SrvPacket :=
  removeFromServerListInit nSubSequence u.accountId nGSID nSID type.code
    (if type = .normal then some u.tlvs else none)

/-- `CPU_RemoveFromServerList` for a group. -/
def cpuRemoveGroupFromServerList (nSubSequence : UInt16) (groupName : List UInt8)
    (nGSID : UInt16) : SrvPacket :=
  removeFromServerListInit nSubSequence groupName nGSID 0 icqRostGroup none

/-! ## Updating -/

/-- `CPU_UpdateToServerList::init`; `ids` are those that it packs for a group. -/
def updateToServerListInit (nSubSequence : UInt16) (name : List UInt8) (nType : UInt16)
    (bAuthReq : Bool) (nGSID nSID nExtraLen : UInt16) (tlvs : Option TlvList) (ids : List UInt16) :
    SrvPacket :=
  let nExtra := nExtraLen.toNat + (if bAuthReq then 4 else 0)
  cpuCommonFamily icqSnacFamList icqSnacListRostUpdGroup nSubSequence (10 + name.length + nExtra)
    (.ofFields [.uint16BE (UInt16.ofNat name.length), .raw name, .uint16BE nGSID, .uint16BE nSID,
        .uint16BE nType] ++
      .sizedBE nExtra
        ((if nExtraLen ≠ 0 then
            if nType = ContactType.normal.code then tlvBlock tlvs
            else if nType = icqRostGroup then memberTlv (nExtraLen - 4).toNat ids
            else ∅
          else ∅) ++
        (if bAuthReq then authTlv else ∅)))

/-- `CPU_UpdateToServerList` for a user. -/
def cpuUpdateToServerList (nSubSequence : UInt16) (u : IcqUser) (type : ContactType)
    (bAuthReq : Bool) : SrvPacket :=
  match type with
  | .normal =>
    updateToServerListInit nSubSequence u.accountId type.code (u.bAwaitingAuth || bAuthReq) u.nGSID
      u.nSID (UInt16.ofNat (packTlvs u.tlvs).getDataSize) (some u.tlvs) []
  | _ => updateToServerListInit nSubSequence u.accountId type.code bAuthReq 0 0 0 none []

/-- The ids that belong to a group: those of all groups for the top level group, otherwise those of
its users. -/
def memberIds (nGSID : UInt16) (groupIds : List ℕ) (users : List IcqUser) : List UInt16 :=
  if nGSID = 0 then groupIds.map UInt16.ofNat
  else (users.filter (·.nGSID = nGSID)).map IcqUser.nSID

/-- `CPU_UpdateToServerList` for a group. -/
def cpuUpdateGroupToServerList (nSubSequence : UInt16) (name : List UInt8) (nGSID : UInt16)
    (groupIds : List ℕ) (users : List IcqUser) : SrvPacket :=
  let ids := memberIds nGSID groupIds users
  let nExtraLen := UInt16.ofNat (2 * ids.length)
  let nExtraLen := if nExtraLen ≠ 0 then nExtraLen + 4 else nExtraLen
  updateToServerListInit nSubSequence name icqRostGroup false nGSID 0 nExtraLen none ids

/-! ## Exporting -/

/-- The group that a user is exported to.  `m_nGSID` is the one of the user before, and stays where
the user is in no group. -/
def exportGsid (nGSID : UInt16) (u : IcqUser) (groupIds : List ℕ) : UInt16 :=
  let nGSID := if u.groups = [] then nGSID else firstGroupId u.groups
  let nGSID := if nGSID = 0 then (groupIds.head?.map UInt16.ofNat).getD 0 else nGSID
  if nGSID = 0 then 1 else nGSID

/-- The users that are exported, each with the groups it gets and its new id. -/
def exported (type : ContactType) (groupIds : List ℕ) :
    UInt16 → List (UInt16 × Option IcqUser) → List IcqUser
  | _, [] => []
  | nGSID, (_, none) :: users => exported type groupIds nGSID users
  | nGSID, (nSID, some u) :: users =>
    match type with
    | .normal =>
      let nGSID := exportGsid nGSID u groupIds
      { u with nSID, nGSID } :: exported type groupIds nGSID users
    | .ignore => { u with nSID } :: exported type groupIds nGSID users
    | .visible => { u with nVisibleSID := nSID } :: exported type groupIds nGSID users
    | .invisible => { u with nInvisibleSID := nSID } :: exported type groupIds nGSID users

/-- The name that is exported with a user. -/
def exportName (type : ContactType) (u : IcqUser) : List UInt8 :=
  if type = .normal then u.myAlias else []

/-- The group id in the item of a user. -/
def IcqUser.gsidOn (u : IcqUser) : ContactType → UInt16
  | .normal => u.nGSID
  | _ => 0

/-- The fields of one user. -/
def exportItem (type : ContactType) (u : IcqUser) : Layout :=
  let unicodeName := exportName type u
  .ofFields [.uint16BE (UInt16.ofNat u.accountId.length), .raw u.accountId,
      .uint16BE (u.gsidOn type), .uint16BE (u.sidOn type), .uint16BE type.code] ++
    if unicodeName ≠ [] then
      .sizedBE (unicodeName.length + 4)
        (.tlv 0x0131 unicodeName.length (.ofFields [.raw unicodeName]))
    else .ofFields [.uint16BE 0]

/-- `CPU_ExportToServerList`; every user comes with the id that is drawn for it, and users that do
not exist any more are left out. -/
def cpuExportToServerList (nSubSequence : UInt16) (type : ContactType) (groupIds : List ℕ)
    (users : List (UInt16 × Option IcqUser)) : SrvPacket :=
  let nSize := ((users.filterMap Prod.snd).map fun u => u.accountId.length + 10 +
    if (exportName type u).length ≠ 0 then 4 + (exportName type u).length else 0).sum
  cpuCommonFamily icqSnacFamList icqSnacListRostAdd nSubSequence nSize
    (((exported type groupIds 0 users).map (exportItem type)).foldr (· ++ ·) ∅)

/-! ## What the parser gets -/

/-- The parser of the roster gets items out of the packet that say what they are to say. -/
def SrvPacket.Yields (p : SrvPacket) (nSequence : UInt16) (entries : List ListEntry) : Prop :=
  ∃ b, p.buffer nSequence = some b ∧ List.Forall₂ RosterItem.Says
    ((Buffer.ofData (b.data.drop 16)).unpackRosterItems entries.length).1 entries

section Items

variable {nFamily nSubType nSubSequence nSequence : UInt16} {n : ℕ} {content : Layout}
  {items : List RosterItem} {entries : List ListEntry}

theorem sum_size (items : List RosterItem) :
    (items.map RosterItem.size).sum = (items.flatMap RosterItem.bytes).length := by
  rw [length_flatMap]
  exact congrArg sum (map_congr_left fun item _ => item.length_bytes.symm)

/-- The lengths of items that fit in a packet fit in their words. -/
theorem fits_of_sum_size (h : (items.map RosterItem.size).sum < 2 ^ 16) :
    ∀ item ∈ items, item.Fits := by
  intro item hitem
  have hle : item.size ≤ (items.map size).sum :=
    le_sum_of_mem (mem_map.mpr ⟨item, hitem, rfl⟩)
  rw [size] at hle
  refine ⟨by omega, fun tlv htlv => ?_, by omega⟩
  have hvalue : tlv.bytes.length ≤ (item.values.flatMap OscarTlv.bytes).length := by
    rw [length_flatMap]
    exact le_sum_of_mem (mem_map.mpr ⟨tlv, htlv, rfl⟩)
  rw [tlv.length_bytes] at hvalue
  omega

/-- Items that fit are read as they were packed. -/
theorem yields_of_fits (hbytes : content.bytes = items.flatMap RosterItem.bytes)
    (hn : n = (items.map RosterItem.size).sum) (hlength : items.length = entries.length)
    (hfits : 10 + n < 2 ^ 16) :
    (cpuCommonFamily nFamily nSubType nSubSequence n content).Yields nSequence entries ↔
      List.Forall₂ (fun item entry => item.asRead.Says entry) items entries := by
  have hsize : content.size = n := by rw [Layout.size, hbytes, hn, sum_size]
  have hnSize : (UInt16.ofNat (10 + n)).toNat = 10 + n := UInt16.toNat_ofNat_of_lt' hfits
  have hroom : (cpuCommonFamily nFamily nSubType nSubSequence n content).layout.size
      ≤ (UInt16.ofNat (10 + n)).toNat := by
    rw [cpuCommonFamily, Layout.size, Layout.bytes_append, length_append,
      Layout.bytes_ofFields, length_snacHeader, hnSize]
    exact (congrArg (10 + ·) hsize).le
  obtain ⟨b, hb, hdata⟩ := SrvPacket.buffer_of_fits nSequence hroom
  have hhead : ((cpuCommonFamily nFamily nSubType nSubSequence n content).header nSequence).flatMap
      Buffer.Field.bytes ++ (snacHeader nFamily nSubType nSubSequence).flatMap Buffer.Field.bytes ++
      content.bytes
        = b.data := by
    rw [hdata, append_assoc]
    rfl
  have hdrop : b.data.drop 16 = items.flatMap bytes := by
    rw [← hhead, ← hbytes]
    refine drop_left' ?_
    rw [length_append, SrvPacket.length_header, length_snacHeader]
  have hread := @unpackRosterItems_bytes (ofData (b.data.drop 16)) items []
    (fits_of_sum_size (by omega)) (by rw [rest_ofData, hdrop, append_nil])
  rw [SrvPacket.Yields, ← forall₂_map_left_iff, ← hread.1, hlength]
  constructor
  · rintro ⟨b', hb', hall⟩
    obtain rfl : b = b' := Option.some.inj (hb.symm.trans hb')
    exact hall
  · exact fun hall => ⟨b, hb, hall⟩

theorem nTag_or_nType_ne_zero (h : List.Forall₂ RosterItem.Says items entries)
    (hreal : ∀ entry ∈ entries, entry.nGSID ≠ 0 ∨ entry.nType ≠ 0) :
    ∀ item ∈ items, item.nTag ≠ 0 ∨ item.nType ≠ 0 := by
  induction h with
  | nil => exact nofun
  | cons hall _ ih =>
    refine forall_mem_cons.mpr ⟨?_, ih fun e he => hreal e (mem_cons_of_mem _ he)⟩
    rw [hall.nTag, hall.nType]
    exact hreal _ mem_cons_self

/-- What is read was in the packet. -/
theorem sum_size_le_of_yields {p : SrvPacket} (h : p.Yields nSequence entries)
    (hreal : entries.length ≤ 1 ∨ ∀ entry ∈ entries, entry.nGSID ≠ 0 ∨ entry.nType ≠ 0) :
    (entries.map ListEntry.size).sum ≤ max 10 p.nSize.toNat := by
  obtain ⟨b, hb, hall⟩ := h
  have hdata := SrvPacket.length_data_le hb
  have hrest : (ofData (b.data.drop 16)).rest.length = b.data.length - 16 := by
    rw [rest_ofData, length_drop]
  have hsizes : ((ofData (b.data.drop 16)).unpackRosterItems entries.length).1.map
      size = entries.map ListEntry.size := by
    rw [← forall₂_eq_eq_eq, forall₂_map_left_iff, forall₂_map_right_iff]
    exact hall.imp fun _ _ => RosterItem.Says.size_eq
  have hle : (entries.map ListEntry.size).sum
      ≤ (ofData (b.data.drop 16)).rest.length + 10 := by
    rw [← hsizes]
    rcases hreal with hone | hreal
    · match hentries : entries.length, hone with
      | 0, _ => exact Nat.zero_le _
      | 1, _ =>
        have hitem := (ofData (b.data.drop 16)).length_unpackRosterItem.1
        simp only [unpackRosterItems, map_cons, map_nil, sum_cons,
          sum_nil]
        omega
    · exact length_unpackRosterItems (nTag_or_nType_ne_zero hall hreal)
  omega

/-- **Which items are read as they are to be.** -/
theorem yields_iff_of_items (hlength : items.length = entries.length)
    (hbytes : (entries.map ListEntry.size).sum < 2 ^ 16 →
      content.bytes = items.flatMap RosterItem.bytes ∧ n = (items.map RosterItem.size).sum)
    (hsize : (items.map RosterItem.size).sum ≤ (entries.map ListEntry.size).sum + 4)
    (hreal : entries.length ≤ 1 ∨ ∀ entry ∈ entries, entry.nGSID ≠ 0 ∨ entry.nType ≠ 0) :
    (cpuCommonFamily nFamily nSubType nSubSequence n content).Yields nSequence entries ↔
      10 + (items.map RosterItem.size).sum < 2 ^ 16 ∧
        List.Forall₂ (fun item entry => item.asRead.Says entry) items entries := by
  constructor
  · intro h
    have hle := sum_size_le_of_yields h hreal
    have hlt := (cpuCommonFamily nFamily nSubType nSubSequence n content).nSize.toNat_lt
    obtain ⟨hcontent, hn⟩ := hbytes (by omega)
    have hnSize : (cpuCommonFamily nFamily nSubType nSubSequence n content).nSize.toNat
        = (10 + n) % 2 ^ 16 := UInt16.toNat_ofNat'
    have hfits : 10 + n < 2 ^ 16 := by omega
    exact ⟨hn ▸ hfits, (yields_of_fits hcontent hn hlength hfits).mp h⟩
  · rintro ⟨hfits, hall⟩
    have hsizes : items.map size = entries.map ListEntry.size := by
      rw [← forall₂_eq_eq_eq, forall₂_map_left_iff, forall₂_map_right_iff]
      refine hall.imp fun item entry hitem => ?_
      rw [← hitem.size_eq, size, size, values_asRead,
        ((reverse_perm item.values).flatMap_right OscarTlv.bytes).length_eq]
      rfl
    obtain ⟨hcontent, hn⟩ := hbytes (by rw [← hsizes]; omega)
    exact (yields_of_fits hcontent hn hlength (by omega)).mpr hall

end Items

end Licq
