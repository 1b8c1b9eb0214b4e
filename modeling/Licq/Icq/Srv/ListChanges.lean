import Licq.Icq.Srv.ServerList

/-!
# Icq/Srv/ListChanges — which changes of the contact list arrive

What each constructor of a change packs as its item, and what the item is to say: the name, the ids
and the type it was called with, and the values that are kept for the user together with those that
the constructor sets.

The **main result** `listChange_yields_iff` puts the constructors together.
-/

open Wire SortedMap

namespace Licq

open List Buffer RosterItem

/-! ## Values -/

/-- The ids of a group, as the data of a value. -/
def idBytes (ids : List UInt16) : List UInt8 := ids.flatMap fun id => bytesBE 2 id.toNat

theorem length_idBytes (ids : List UInt16) : (idBytes ids).length = 2 * ids.length := by
  induction ids with
  | nil => rfl
  | cons id ids ih =>
    rw [idBytes, flatMap_cons, length_append, length_bytesBE, ← idBytes, ih,
      length_cons]
    omega

/-- Awaiting authorisation is set where it is not kept. -/
def withAuth (bAuthReq : Bool) (tlvs : TlvList) : TlvList :=
  if bAuthReq = true ∧ tlvs.find? 0x0066 = none then tlvs.insert 0x0066 [] else tlvs

/-- The value that a constructor packs for it. -/
def authValues (bAuthReq : Bool) : List OscarTlv := if bAuthReq then [⟨0x0066, []⟩] else []

theorem TlvList.values_insert {tlvs : TlvList} {type : UInt16} (h : tlvs.find? type = none)
    (data : List UInt8) :
    (TlvList.values (tlvs.insert type data)).Perm (⟨type, data⟩ :: tlvs.values) :=
  (perm_insert h data).map
    fun e : (Σ _ : UInt16, List UInt8) => (⟨e.1, e.2⟩ : OscarTlv)

/-- **A value that is packed beside the kept ones is there twice where it is kept.** -/
theorem perm_withAuth_iff {bAuthReq : Bool} {tlvs : TlvList} :
    (authValues bAuthReq ++ tlvs.values).Perm (withAuth bAuthReq tlvs).values ↔
      (bAuthReq = true → tlvs.find? 0x0066 = none) := by
  cases bAuthReq with
  | false => exact ⟨fun _ h => Bool.noConfusion h, fun _ => List.Perm.refl _⟩
  | true =>
    constructor
    · intro hperm _
      have hnodup := ((hperm.map OscarTlv.myType).nodup_iff).mpr (TlvList.nodup_types _)
      refine Option.eq_none_iff_forall_ne_some.mpr fun data hdata => ?_
      exact (nodup_cons.mp hnodup).1
        (mem_map.mpr ⟨⟨0x0066, data⟩, TlvList.mem_values.mpr hdata, rfl⟩)
    · intro hnone
      have hset : withAuth true tlvs = tlvs.insert 0x0066 [] := if_pos ⟨rfl, hnone rfl⟩
      rw [hset]
      exact (TlvList.values_insert (hnone rfl) []).symm

/-- The sizes differ by the value that is there twice. -/
theorem length_authValues_le (bAuthReq : Bool) (tlvs : TlvList) :
    ((authValues bAuthReq ++ tlvs.values).flatMap OscarTlv.bytes).length
        ≤ ((withAuth bAuthReq tlvs).values.flatMap OscarTlv.bytes).length + 4 ∧
      (tlvs.values.flatMap OscarTlv.bytes).length
        ≤ ((withAuth bAuthReq tlvs).values.flatMap OscarTlv.bytes).length := by
  have hauth : ((authValues bAuthReq).flatMap OscarTlv.bytes).length ≤ 4 := by
    cases bAuthReq <;> decide
  rw [flatMap_append, length_append]
  by_cases h : bAuthReq = true ∧ tlvs.find? 0x0066 = none
  · have hset : withAuth bAuthReq tlvs = tlvs.insert 0x0066 [] := if_pos h
    have hlength := ((TlvList.values_insert h.2 []).flatMap_right OscarTlv.bytes).length_eq
    rw [flatMap_cons, length_append] at hlength
    rw [hset]
    omega
  · have hset : withAuth bAuthReq tlvs = tlvs := if_neg h
    rw [hset]
    omega

/-! ## The buffer for the values -/

theorem sum_map_length (tlvs : List OscarTlv) :
    (tlvs.map fun tlv => tlv.myData.length + 4).sum = (tlvs.flatMap OscarTlv.bytes).length := by
  rw [length_flatMap]
  refine congrArg sum (map_congr_left fun tlv _ => ?_)
  rw [tlv.length_bytes, Nat.add_comm]

/-- **The values fit in their buffer** where its size is right. -/
theorem packTlvs_data {tlvs : TlvList}
    (hsize : ∀ tlv ∈ tlvs.values, tlv.myData.length < 2 ^ 16)
    (h : (tlvs.values.flatMap OscarTlv.bytes).length < 2 ^ 16) :
    (packTlvs tlvs).data = tlvs.values.flatMap OscarTlv.bytes := by
  have hroom : (tlvs.values.flatMap OscarTlv.bytes).length
      ≤ (clear.create (tlvs.values.flatMap OscarTlv.bytes).length).remainingDataToWrite := by
    rcases Nat.eq_zero_or_pos (tlvs.values.flatMap OscarTlv.bytes).length with hzero | hpos
    · rw [hzero]
      exact Nat.zero_le _
    · rw [remainingDataToWrite, create_maxSize _ (Nat.ne_of_gt hpos)]
      exact Nat.le_refl _
  rw [packTlvs]
  simp only [sum_map_length, Nat.mod_eq_of_lt h]
  rw [foldl_packTLV hsize hroom, Buffer.packRaw_data hroom]
  rfl

theorem packTlvs_empty (tlvs : TlvList) : (packTlvs tlvs).empty = false := by
  have hfold : ∀ (l : List OscarTlv) (b : Buffer),
      (l.foldl Buffer.packTLV b).allocated = b.allocated := by
    intro l
    induction l with
    | nil => exact fun b => rfl
    | cons tlv l ih =>
      intro b
      rw [foldl_cons, ih]
      simp only [Buffer.packTLV, Buffer.packUInt16BE, Buffer.packRaw_allocated]
  rw [packTlvs, Buffer.empty, hfold]
  rfl

theorem bytes_tlvBlock (tlvs : Option TlvList) :
    (tlvBlock tlvs).bytes = (tlvBuffer tlvs).data := by
  cases tlvs with
  | none => rfl
  | some tlvs =>
    rw [Layout.bytes, tlvBlock, if_neg (by rw [tlvBuffer, packTlvs_empty]; decide)]
    exact append_nil _

/-! ## What a constructor packs -/

/-- The packet has the item in it, where its block is not too large. -/
def PacksItem (p : SrvPacket) (item : RosterItem) : Prop :=
  ∃ nFamily nSubType nSubSequence n content,
    p = cpuCommonFamily nFamily nSubType nSubSequence n content ∧
      ((item.values.flatMap OscarTlv.bytes).length < 2 ^ 16 →
        content.bytes = item.bytes ∧ n = item.size)

/-- **When a packet with one item is read as it is to be.** -/
theorem yields_iff_of_packsItem {p : SrvPacket} {nSequence : UInt16} {item : RosterItem}
    {entry : ListEntry} (hp : PacksItem p item) (hsize : item.size ≤ entry.size + 4) :
    p.Yields nSequence [entry] ↔ 10 + item.size < 2 ^ 16 ∧ item.asRead.Says entry := by
  obtain ⟨nFamily, nSubType, nSubSequence, n, content, rfl, hitem⟩ := hp
  have hiff := @yields_iff_of_items nFamily nSubType nSubSequence nSequence n content [item] [entry]
    rfl ?_ ?_ (.inl (Nat.le_refl 1))
  · rw [hiff, forall₂_cons, map_singleton, sum_singleton]
    simp only [List.Forall₂.nil, and_true]
  · intro hlt
    rw [map_singleton, sum_singleton] at hlt ⊢
    have hblock : (item.values.flatMap OscarTlv.bytes).length < 2 ^ 16 := by
      rw [RosterItem.size] at hsize
      omega
    rw [flatMap_singleton]
    exact hitem hblock
  · rw [map_singleton, map_singleton, sum_singleton, sum_singleton]
    exact hsize

theorem bytes_memberTlv {n : ℕ} {ids : List UInt16} (h : n = 2 * ids.length) :
    (memberTlv n ids).bytes = (⟨0x00C8, idBytes ids⟩ : OscarTlv).bytes := by
  have hids : (ids.map Buffer.Field.uint16BE).flatMap Buffer.Field.bytes = idBytes ids := by
    rw [flatMap_map]
    rfl
  rw [memberTlv, Layout.bytes_tlv, Layout.bytes_ofFields, hids, h, OscarTlv.bytes,
    length_idBytes, append_assoc]

/-- The values that adding a group packs for the top level group. -/
def topValues (topLevel : Option (List ℕ)) : List OscarTlv :=
  match topLevel with
  | some ids => [⟨0x00C8, idBytes (ids.map UInt16.ofNat)⟩]
  | none => []

/-- The data of the values that go through `tlvBuffer`. -/
theorem tlvBuffer_data {tlvs : Option TlvList}
    (hsize : ∀ m ∈ tlvs, ∀ tlv ∈ m.values, tlv.myData.length < 2 ^ 16)
    (h : ((tlvs.getD SortedMap.empty).values.flatMap OscarTlv.bytes).length < 2 ^ 16) :
    (tlvBuffer tlvs).data = (tlvs.getD SortedMap.empty).values.flatMap OscarTlv.bytes := by
  cases tlvs with
  | none => rfl
  | some m => exact packTlvs_data (hsize m rfl) h

/-- `nExportSize`, and what is packed for it. -/
theorem bytes_topLevel {topLevel : Option (List ℕ)}
    (h : ((topValues topLevel).flatMap OscarTlv.bytes).length < 2 ^ 16) :
    let nExportSize : UInt16 := (topLevel.map fun ids => UInt16.ofNat (4 + 2 * ids.length)).getD 0
    nExportSize.toNat = ((topValues topLevel).flatMap OscarTlv.bytes).length ∧
      (if nExportSize ≠ 0 then
        memberTlv ((topLevel.getD []).length * 2) ((topLevel.getD []).map UInt16.ofNat)
      else ∅).bytes = (topValues topLevel).flatMap OscarTlv.bytes := by
  cases topLevel with
  | none => exact ⟨rfl, rfl⟩
  | some ids =>
    have hlength : ((topValues (some ids)).flatMap OscarTlv.bytes).length = 4 + 2 * ids.length := by
      rw [topValues, flatMap_singleton, OscarTlv.length_bytes, length_idBytes, length_map]
    rw [hlength] at h
    have hsize : (UInt16.ofNat (4 + 2 * ids.length)).toNat = 4 + 2 * ids.length :=
      UInt16.toNat_ofNat_of_lt' h
    have hne : UInt16.ofNat (4 + 2 * ids.length) ≠ 0 := by
      intro hzero
      rw [hzero] at hsize
      change 0 = _ at hsize
      omega
    refine ⟨hsize.trans hlength.symm, ?_⟩
    simp only [Option.map_some, Option.getD_some, if_pos hne]
    rw [bytes_memberTlv (by rw [length_map, Nat.mul_comm]), topValues,
      flatMap_singleton]

theorem packsItem_add {nSubSequence : UInt16} {name : List UInt8} {nGSID nSID nType : UInt16}
    {tlvs : Option TlvList} {bAuthReq : Bool} {topLevel : Option (List ℕ)}
    (hsize : ∀ m ∈ tlvs, ∀ tlv ∈ m.values, tlv.myData.length < 2 ^ 16) :
    PacksItem
      (addToServerListInit nSubSequence name nGSID nSID nType tlvs bAuthReq topLevel)
      ⟨name, nGSID, nSID, nType, some (topValues topLevel ++ (authValues bAuthReq ++
        (tlvs.getD SortedMap.empty).values))⟩ := by
  refine ⟨_, _, _, _, _, rfl, fun hblock => ?_⟩
  simp only [values, Option.getD_some, flatMap_append, length_append]
    at hblock
  obtain ⟨hexport, htop⟩ := @bytes_topLevel topLevel (by omega)
  have hdata := @tlvBuffer_data tlvs hsize (by omega)
  have hauth : (if bAuthReq = true then 4 else 0)
      = ((authValues bAuthReq).flatMap OscarTlv.bytes).length := by
    cases bAuthReq <;> rfl
  have hauthBytes : (if bAuthReq = true ∧ (empty : TlvList).find? 0x0066 = none then
      authTlv else ∅).bytes = (authValues bAuthReq).flatMap OscarTlv.bytes := by
    cases bAuthReq <;> rfl
  have hextra : ((topLevel.map fun ids => UInt16.ofNat (4 + 2 * ids.length)).getD 0 :
      UInt16).toNat + (if bAuthReq = true then 4 else 0) + (tlvBuffer tlvs).getDataSize
        = ((topValues topLevel ++ (authValues bAuthReq ++
          (tlvs.getD empty).values)).flatMap OscarTlv.bytes).length := by
    rw [hexport, hauth, getDataSize, hdata]
    simp only [flatMap_append, length_append]
    omega
  rw [hextra]
  constructor
  · rw [Layout.bytes_append, Layout.bytes_ofFields, Layout.bytes_sizedBE, Layout.bytes_append,
      Layout.bytes_append, htop, hauthBytes, bytes_tlvBlock, hdata]
    simp only [bytes, rosterItemBytes, values, Option.getD_some,
      flatMap_cons, flatMap_nil, flatMap_append, Buffer.Field.bytes,
      append_assoc,
      append_nil]
  · rfl

theorem packsItem_remove {nSubSequence : UInt16} {name : List UInt8} {nGSID nSID nType : UInt16}
    {tlvs : Option TlvList} (hsize : ∀ m ∈ tlvs, ∀ tlv ∈ m.values, tlv.myData.length < 2 ^ 16) :
    PacksItem (removeFromServerListInit nSubSequence name nGSID nSID nType tlvs)
      ⟨name, nGSID, nSID, nType, some (tlvs.getD SortedMap.empty).values⟩ := by
  refine ⟨_, _, _, _, _, rfl, fun hblock => ?_⟩
  have hdata := tlvBuffer_data hsize hblock
  constructor
  · rw [Layout.bytes_append, Layout.bytes_ofFields, Layout.bytes_sizedBE, bytes_tlvBlock,
      getDataSize, hdata]
    simp only [bytes, rosterItemBytes, values, Option.getD_some,
      flatMap_cons, flatMap_nil, Buffer.Field.bytes, append_assoc, append_nil]
  · rw [getDataSize, hdata]
    rfl

theorem packsItem_update {nSubSequence : UInt16} {name : List UInt8} {nGSID nSID nType : UInt16}
    {bAuthReq : Bool} {nExtraLen : UInt16} {tlvs : Option TlvList} {ids : List UInt16}
    {values : List OscarTlv}
    (hextra : (values.flatMap OscarTlv.bytes).length < 2 ^ 16 →
      nExtraLen.toNat = (values.flatMap OscarTlv.bytes).length ∧
        (if nExtraLen ≠ 0 then
          if nType = ContactType.normal.code then tlvBlock tlvs
          else if nType = icqRostGroup then memberTlv (nExtraLen - 4).toNat ids
          else ∅
        else ∅).bytes = values.flatMap OscarTlv.bytes) :
    PacksItem (updateToServerListInit nSubSequence name nType bAuthReq nGSID nSID nExtraLen tlvs ids)
      ⟨name, nGSID, nSID, nType, some (values ++ authValues bAuthReq)⟩ := by
  refine ⟨_, _, _, _, _, rfl, fun hblock => ?_⟩
  simp only [RosterItem.values, Option.getD_some, flatMap_append] at hblock
  have hlt := hblock
  rw [length_append] at hlt
  obtain ⟨hlength, hbytes⟩ := hextra (by omega)
  have hauth : (if bAuthReq = true then 4 else 0)
      = ((authValues bAuthReq).flatMap OscarTlv.bytes).length := by
    cases bAuthReq <;> rfl
  have hauthBytes : (if bAuthReq = true then authTlv else ∅).bytes
      = (authValues bAuthReq).flatMap OscarTlv.bytes := by
    cases bAuthReq <;> rfl
  rw [hlength, hauth, ← length_append, ← flatMap_append]
  constructor
  · rw [Layout.bytes_append, Layout.bytes_ofFields, Layout.bytes_sizedBE, Layout.bytes_append,
      hbytes, hauthBytes]
    simp only [RosterItem.bytes, rosterItemBytes, RosterItem.values, Option.getD_some,
      flatMap_cons, flatMap_nil, flatMap_append, Buffer.Field.bytes,
      append_assoc,
      append_nil, Layout.bytesBE_ofNat]
  · rfl

/-! ## What the items are to say -/

/-- What is kept for a user goes with the user's item of the normal list. -/
def IcqUser.keptOn (u : IcqUser) (type : ContactType) : TlvList :=
  if type = .normal then u.tlvs else SortedMap.empty

/-- The item of a user on one of the lists. -/
def IcqUser.entry (u : IcqUser) (type : ContactType) (tlvs : TlvList) : ListEntry :=
  ⟨u.accountId, u.gsidOn type, u.sidOn type, type.code, tlvs⟩

/-- The value with the ids of a group, where there are any. -/
def memberTlvs (ids : List UInt16) : TlvList :=
  if ids = [] then SortedMap.empty else SortedMap.empty.insert 0x00C8 (idBytes ids)

/-- The alias is set where there is one. -/
def withAlias (name : List UInt8) (tlvs : TlvList) : TlvList :=
  if name ≠ [] then tlvs.insert 0x0131 name else tlvs

/-- The calls of the constructors.  The ids that are drawn for items come with them. -/
inductive ListChange
  | addUser (u : IcqUser) (type : ContactType) (nGroup : Option ℕ) (bAuthReq : Bool)
    (nSID : UInt16) (groupIds : List ℕ)
  | addGroup (groupName : List UInt8) (bAuthReq bTopLevel : Bool) (nNewSID : UInt16)
    (groupIds : List ℕ)
  | removeUser (u : IcqUser) (nGSID nSID : UInt16) (type : ContactType)
  | removeGroup (groupName : List UInt8) (nGSID : UInt16)
  | updateUser (u : IcqUser) (type : ContactType) (bAuthReq : Bool)
  | updateGroup (name : List UInt8) (nGSID : UInt16) (groupIds : List ℕ) (users : List IcqUser)
  | exportUsers (type : ContactType) (groupIds : List ℕ) (users : List (UInt16 × Option IcqUser))

namespace ListChange

/-- The packet of a change. -/
def packet (nSubSequence : UInt16) : ListChange → SrvPacket
  | addUser u type nGroup bAuthReq nSID groupIds =>
    (cpuAddToServerList nSubSequence u type nGroup bAuthReq nSID groupIds).2
  | addGroup groupName bAuthReq bTopLevel nNewSID groupIds =>
    cpuAddGroupToServerList nSubSequence groupName bAuthReq bTopLevel nNewSID groupIds
  | removeUser u nGSID nSID type => cpuRemoveFromServerList nSubSequence u nGSID nSID type
  | removeGroup groupName nGSID => cpuRemoveGroupFromServerList nSubSequence groupName nGSID
  | updateUser u type bAuthReq => cpuUpdateToServerList nSubSequence u type bAuthReq
  | updateGroup name nGSID groupIds users =>
    cpuUpdateGroupToServerList nSubSequence name nGSID groupIds users
  | exportUsers type groupIds users => cpuExportToServerList nSubSequence type groupIds users

/-- What its items are to say: the ids are those that the user has after the call, or those that
the constructor is called with. -/
def entries (nSubSequence : UInt16) : ListChange → List ListEntry
  | addUser u type nGroup bAuthReq nSID groupIds =>
    [(cpuAddToServerList nSubSequence u type nGroup bAuthReq nSID groupIds).1.entry type
      (withAuth bAuthReq (u.keptOn type))]
  | addGroup groupName bAuthReq bTopLevel nNewSID groupIds =>
    [⟨groupName, if bTopLevel then 0 else nNewSID, 0, icqRostGroup, withAuth bAuthReq
      (if bTopLevel then SortedMap.empty.insert 0x00C8 (idBytes (groupIds.map UInt16.ofNat))
        else SortedMap.empty)⟩]
  | removeUser u nGSID nSID type => [⟨u.accountId, nGSID, nSID, type.code, u.keptOn type⟩]
  | removeGroup groupName nGSID => [⟨groupName, nGSID, 0, icqRostGroup, SortedMap.empty⟩]
  | updateUser u type bAuthReq =>
    [u.entry type (withAuth (if type = .normal then u.bAwaitingAuth || bAuthReq else bAuthReq)
      (u.keptOn type))]
  | updateGroup name nGSID groupIds users =>
    [⟨name, nGSID, 0, icqRostGroup, memberTlvs (memberIds nGSID groupIds users)⟩]
  | exportUsers type groupIds users =>
    (exported type groupIds 0 users).map fun u =>
      u.entry type (withAlias (exportName type u) (u.keptOn type))

/-- No value is packed beside a kept one of its type, none is left out, and the item has the user's
id. -/
def Clean : ListChange → Prop
  | addUser u type _ bAuthReq _ _ => bAuthReq = true → (u.keptOn type).find? 0x0066 = none
  | updateUser u type bAuthReq =>
    if type = .normal then
      (u.bAwaitingAuth || bAuthReq) = true → u.tlvs.find? 0x0066 = none
    else u.sidOn type = 0
  | exportUsers type _ users =>
    ∀ u ∈ users.filterMap Prod.snd, ∀ tlv ∈ (u.keptOn type).values,
      tlv.myType = 0x0131 ∧ exportName type u ≠ []
  | _ => True

end ListChange

/-! ## One item -/

theorem RosterItem.size_asRead (item : RosterItem) : item.asRead.size = item.size := by
  rw [size, size, values_asRead,
    ((reverse_perm item.values).flatMap_right OscarTlv.bytes).length_eq]
  rfl

section OneItem

variable {p : SrvPacket} {nSequence : UInt16} {item : RosterItem} {entry : ListEntry}

/-- A packet with one item, by what the item says. -/
theorem yields_iff_of_says {C : Prop} (hp : PacksItem p item)
    (hsize : item.size ≤ entry.size + 4) (hC : item.asRead.Says entry ↔ C) :
    p.Yields nSequence [entry] ↔ C ∧ 10 + entry.size < 2 ^ 16 := by
  rw [yields_iff_of_packsItem hp hsize, ← hC, and_comm]
  refine and_congr_right fun hall => ?_
  rw [← hall.size_eq, item.size_asRead]

/-- A packet with one item that has the right name, ids and type. -/
theorem yields_iff_of_perm {C : Prop} {values : List OscarTlv}
    (hp : PacksItem p ⟨entry.name, entry.nGSID, entry.nSID, entry.nType, some values⟩)
    (hsize : (values.flatMap OscarTlv.bytes).length
      ≤ (entry.tlvs.values.flatMap OscarTlv.bytes).length + 4)
    (hC : values.Perm entry.tlvs.values ↔ C) :
    p.Yields nSequence [entry] ↔ C ∧ 10 + entry.size < 2 ^ 16 := by
  refine yields_iff_of_says hp ?_ ?_
  · simp only [RosterItem.size, ListEntry.size, RosterItem.values, Option.getD_some]
    omega
  · rw [RosterItem.says_asRead_iff, ← hC]
    simp only [RosterItem.values, Option.getD_some, true_and]

end OneItem

section Changes

variable {nSubSequence nSequence : UInt16}

/-- A packet that adds an item with kept values. -/
theorem yields_add_iff {name : List UInt8} {nGSID nSID nType : UInt16} {tlvs : Option TlvList}
    {bAuthReq : Bool} (hsize : ∀ m ∈ tlvs, ∀ tlv ∈ m.values, tlv.myData.length < 2 ^ 16) :
    let entry : ListEntry :=
      ⟨name, nGSID, nSID, nType, withAuth bAuthReq (tlvs.getD empty)⟩
    (addToServerListInit nSubSequence name nGSID nSID nType tlvs bAuthReq none).Yields nSequence
        [entry] ↔
      (bAuthReq = true → (tlvs.getD empty).find? 0x0066 = none) ∧
        10 + entry.size < 2 ^ 16 :=
  yields_iff_of_perm (packsItem_add hsize) (length_authValues_le _ _).1 perm_withAuth_iff

theorem yields_addUser_iff (u : IcqUser) (type : ContactType) (nGroup : Option ℕ)
    (bAuthReq : Bool) (nSID : UInt16) (groupIds : List ℕ) :
    let c : ListChange := .addUser u type nGroup bAuthReq nSID groupIds
    (c.packet nSubSequence).Yields nSequence (c.entries nSubSequence) ↔
      c.Clean ∧ 10 + ((c.entries nSubSequence).map ListEntry.size).sum < 2 ^ 16 := by
  cases type with
  | normal => exact yields_add_iff fun m hm => Option.mem_some_iff.mp hm ▸ u.tlvs_lt
  | visible => exact yields_add_iff fun m hm => absurd hm (Option.not_mem_none m)
  | invisible => exact yields_add_iff fun m hm => absurd hm (Option.not_mem_none m)
  | ignore => exact yields_add_iff fun m hm => absurd hm (Option.not_mem_none m)

theorem yields_addGroup_iff (groupName : List UInt8) (bAuthReq bTopLevel : Bool)
    (nNewSID : UInt16) (groupIds : List ℕ) :
    let c : ListChange := .addGroup groupName bAuthReq bTopLevel nNewSID groupIds
    (c.packet nSubSequence).Yields nSequence (c.entries nSubSequence) ↔
      c.Clean ∧ 10 + ((c.entries nSubSequence).map ListEntry.size).sum < 2 ^ 16 := by
  have hnone : ∀ m ∈ (none : Option TlvList), ∀ tlv ∈ m.values, tlv.myData.length < 2 ^ 16 :=
    fun m hm => absurd hm (Option.not_mem_none m)
  cases bTopLevel with
  | false =>
    refine (yields_add_iff hnone).trans (and_congr_left fun _ => ?_)
    exact ⟨fun _ => trivial, fun _ _ => rfl⟩
  | true =>
    -- The values that are packed are in another order than those of the map.
    have hperm : (topValues (some groupIds) ++ (authValues bAuthReq ++ [])).Perm
        (withAuth bAuthReq (empty.insert 0x00C8
          (idBytes (groupIds.map UInt16.ofNat)))).values := by
      refine List.Perm.trans ?_ (perm_withAuth_iff.mpr fun _ => rfl)
      rw [append_nil]
      exact perm_append_comm
    exact yields_iff_of_perm (packsItem_add hnone)
      ((hperm.flatMap_right OscarTlv.bytes).length_eq.le.trans (Nat.le_add_right _ _))
      ⟨fun _ => trivial, fun _ => hperm⟩

theorem yields_remove_iff {name : List UInt8} {nGSID nSID nType : UInt16} {tlvs : Option TlvList}
    (hsize : ∀ m ∈ tlvs, ∀ tlv ∈ m.values, tlv.myData.length < 2 ^ 16) :
    let entry : ListEntry := ⟨name, nGSID, nSID, nType, tlvs.getD SortedMap.empty⟩
    (removeFromServerListInit nSubSequence name nGSID nSID nType tlvs).Yields nSequence [entry] ↔
      True ∧ 10 + entry.size < 2 ^ 16 :=
  yields_iff_of_perm (packsItem_remove hsize) (Nat.le_add_right _ _)
    ⟨fun _ => trivial, fun _ => List.Perm.refl _⟩

theorem yields_removeUser_iff (u : IcqUser) (nGSID nSID : UInt16) (type : ContactType) :
    let c : ListChange := .removeUser u nGSID nSID type
    (c.packet nSubSequence).Yields nSequence (c.entries nSubSequence) ↔
      c.Clean ∧ 10 + ((c.entries nSubSequence).map ListEntry.size).sum < 2 ^ 16 := by
  cases type with
  | normal => exact yields_remove_iff fun m hm => Option.mem_some_iff.mp hm ▸ u.tlvs_lt
  | visible => exact yields_remove_iff fun m hm => absurd hm (Option.not_mem_none m)
  | invisible => exact yields_remove_iff fun m hm => absurd hm (Option.not_mem_none m)
  | ignore => exact yields_remove_iff fun m hm => absurd hm (Option.not_mem_none m)

theorem yields_removeGroup_iff (groupName : List UInt8) (nGSID : UInt16) :
    let c : ListChange := .removeGroup groupName nGSID
    (c.packet nSubSequence).Yields nSequence (c.entries nSubSequence) ↔
      c.Clean ∧ 10 + ((c.entries nSubSequence).map ListEntry.size).sum < 2 ^ 16 :=
  yields_remove_iff fun m hm => absurd hm (Option.not_mem_none m)

/-- A user is updated with zeros for its ids on another list than the normal one. -/
theorem yields_updateOther_iff {name : List UInt8} {nSID nType : UInt16} {bAuthReq : Bool} :
    let entry : ListEntry := ⟨name, 0, nSID, nType, withAuth bAuthReq SortedMap.empty⟩
    (updateToServerListInit nSubSequence name nType bAuthReq 0 0 0 none []).Yields nSequence
        [entry] ↔ nSID = 0 ∧ 10 + entry.size < 2 ^ 16 := by
  have hp := @packsItem_update nSubSequence name 0 0 nType bAuthReq 0 none [] [] fun _ => ⟨rfl, rfl⟩
  have hperm : ([] ++ authValues bAuthReq).Perm (withAuth bAuthReq empty).values := by
    refine List.Perm.trans ?_ (perm_withAuth_iff.mpr fun _ => rfl)
    exact perm_append_comm
  refine yields_iff_of_says hp ?_ ?_
  · rw [RosterItem.size, ListEntry.size]
    exact (Nat.add_le_add_left (hperm.flatMap_right OscarTlv.bytes).length_eq.le _).trans
      (Nat.le_add_right _ 4)
  · rw [RosterItem.says_asRead_iff]
    exact ⟨fun h => h.2.2.1.symm, fun h => ⟨rfl, rfl, h.symm, rfl, hperm⟩⟩

theorem yields_updateUser_iff (u : IcqUser) (type : ContactType) (bAuthReq : Bool) :
    let c : ListChange := .updateUser u type bAuthReq
    (c.packet nSubSequence).Yields nSequence (c.entries nSubSequence) ↔
      c.Clean ∧ 10 + ((c.entries nSubSequence).map ListEntry.size).sum < 2 ^ 16 := by
  cases type with
  | normal =>
    have hp := @packsItem_update nSubSequence u.accountId u.nGSID u.nSID ContactType.normal.code
      (u.bAwaitingAuth || bAuthReq) (UInt16.ofNat (packTlvs u.tlvs).getDataSize) (some u.tlvs) []
      u.tlvs.values fun hblock => by
        have hdata : (tlvBuffer (some u.tlvs)).data = u.tlvs.values.flatMap OscarTlv.bytes :=
          packTlvs_data u.tlvs_lt hblock
        have hlength : (UInt16.ofNat (packTlvs u.tlvs).getDataSize).toNat
            = (u.tlvs.values.flatMap OscarTlv.bytes).length := by
          rw [getDataSize, packTlvs_data u.tlvs_lt hblock]
          exact UInt16.toNat_ofNat_of_lt' hblock
        refine ⟨hlength, ?_⟩
        by_cases hzero : UInt16.ofNat (packTlvs u.tlvs).getDataSize = 0
        · rw [if_neg (not_not_intro hzero)]
          rw [hzero] at hlength
          exact (eq_nil_of_length_eq_zero hlength.symm).symm
        · rw [if_pos hzero, if_pos rfl, bytes_tlvBlock, hdata]
    have hcomm : (u.tlvs.values ++ authValues (u.bAwaitingAuth || bAuthReq)).Perm
        (authValues (u.bAwaitingAuth || bAuthReq) ++ u.tlvs.values) := perm_append_comm
    refine yields_iff_of_perm hp ?_ ?_
    · rw [(hcomm.flatMap_right OscarTlv.bytes).length_eq]
      exact (length_authValues_le _ _).1
    · exact Iff.trans ⟨hcomm.symm.trans, hcomm.trans⟩ perm_withAuth_iff
  | visible => exact yields_updateOther_iff
  | invisible => exact yields_updateOther_iff
  | ignore => exact yields_updateOther_iff

theorem yields_updateGroup_iff (name : List UInt8) (nGSID : UInt16) (groupIds : List ℕ)
    (users : List IcqUser) :
    let c : ListChange := .updateGroup name nGSID groupIds users
    (c.packet nSubSequence).Yields nSequence (c.entries nSubSequence) ↔
      c.Clean ∧ 10 + ((c.entries nSubSequence).map ListEntry.size).sum < 2 ^ 16 := by
  intro c
  have hvalues : (memberTlvs (memberIds nGSID groupIds users)).values
      = if memberIds nGSID groupIds users = [] then []
        else [⟨0x00C8, idBytes (memberIds nGSID groupIds users)⟩] := by
    rw [memberTlvs]
    split
    · rfl
    · rfl
  have hp := @packsItem_update nSubSequence name nGSID 0 icqRostGroup false
    (if UInt16.ofNat (2 * (memberIds nGSID groupIds users).length) ≠ 0 then
      UInt16.ofNat (2 * (memberIds nGSID groupIds users).length) + 4
      else UInt16.ofNat (2 * (memberIds nGSID groupIds users).length))
    none (memberIds nGSID groupIds users) (memberTlvs (memberIds nGSID groupIds users)).values
    fun hblock => by
      rw [hvalues] at hblock ⊢
      generalize memberIds nGSID groupIds users = ids at hblock ⊢
      cases ids with
      | nil => exact ⟨rfl, rfl⟩
      | cons id ids =>
        rw [if_neg (cons_ne_nil id ids), flatMap_singleton, OscarTlv.length_bytes,
          length_idBytes] at hblock
        have hlength : (UInt16.ofNat (2 * (id :: ids).length)).toNat = 2 * (id :: ids).length :=
          UInt16.toNat_ofNat_of_lt' (show _ < 2 ^ 16 by omega)
        have hne : UInt16.ofNat (2 * (id :: ids).length) ≠ 0 := by
          intro hzero
          rw [hzero, length_cons] at hlength
          change 0 = _ at hlength
          omega
        have hsum : (UInt16.ofNat (2 * (id :: ids).length) + 4).toNat
            = 4 + 2 * (id :: ids).length := by
          rw [UInt16.toNat_add, hlength]
          change (_ + 4) % _ = _
          omega
        have hne' : UInt16.ofNat (2 * (id :: ids).length) + 4 ≠ 0 := by
          intro hzero
          rw [hzero] at hsum
          change 0 = _ at hsum
          omega
        have hdiff : (UInt16.ofNat (2 * (id :: ids).length) + 4 - 4).toNat
            = 2 * (id :: ids).length := by
          rw [UInt16.add_sub_cancel, hlength]
        rw [if_pos hne, if_neg (cons_ne_nil id ids), flatMap_singleton,
          OscarTlv.length_bytes, length_idBytes, if_pos hne', if_neg (by decide), if_pos rfl,
          bytes_memberTlv hdiff]
        exact ⟨hsum, rfl⟩
  exact yields_iff_of_perm hp (by
      simp only [authValues, Bool.false_eq_true, if_false, append_nil]
      exact Nat.le_add_right _ _)
    ⟨fun _ => trivial, fun _ => by
      simp only [authValues, Bool.false_eq_true, if_false, append_nil]
      exact List.Perm.refl _⟩

/-! ## Exporting -/

/-- What exporting a user leaves as it is. -/
def IcqUser.kept (u : IcqUser) : List UInt8 × List UInt8 × TlvList :=
  (u.accountId, u.myAlias, u.tlvs)

theorem map_kept_exported (type : ContactType) (groupIds : List ℕ) (nGSID : UInt16)
    (users : List (UInt16 × Option IcqUser)) :
    (exported type groupIds nGSID users).map IcqUser.kept
      = (users.filterMap Prod.snd).map IcqUser.kept := by
  induction users generalizing nGSID with
  | nil => rfl
  | cons entry users ih =>
    obtain ⟨nSID, u⟩ := entry
    cases u with
    | none => exact ih nGSID
    | some u => cases type <;> exact congrArg (u.kept :: ·) (ih _)

theorem exportGsid_ne_zero (nGSID : UInt16) (u : IcqUser) (groupIds : List ℕ) :
    exportGsid nGSID u groupIds ≠ 0 := by
  have hone : ∀ n : UInt16, (if n = 0 then 1 else n) ≠ 0 := by
    intro n
    split
    · decide
    · assumption
  exact hone _

/-- A user that is exported to the normal list gets a group. -/
theorem nGSID_exported {groupIds : List ℕ} {nGSID : UInt16}
    {users : List (UInt16 × Option IcqUser)} :
    ∀ u ∈ exported .normal groupIds nGSID users, u.nGSID ≠ 0 := by
  induction users generalizing nGSID with
  | nil => exact nofun
  | cons entry users ih =>
    obtain ⟨nSID, u⟩ := entry
    cases u with
    | none => exact ih
    | some u => exact forall_mem_cons.mpr ⟨exportGsid_ne_zero nGSID u groupIds, ih⟩

/-- The value that is exported with a user. -/
def exportValues (name : List UInt8) : List OscarTlv :=
  if name ≠ [] then [⟨0x0131, name⟩] else []

/-- The item of a user that is exported. -/
def IcqUser.exportedItem (u : IcqUser) (type : ContactType) : RosterItem :=
  ⟨u.accountId, u.gsidOn type, u.sidOn type, type.code, some (exportValues (exportName type u))⟩

theorem length_exportValues (name : List UInt8) :
    ((exportValues name).flatMap OscarTlv.bytes).length
      = if name.length ≠ 0 then 4 + name.length else 0 := by
  cases name with
  | nil => rfl
  | cons c name =>
    rw [exportValues, if_pos (cons_ne_nil c name), flatMap_singleton,
      OscarTlv.length_bytes]
    rfl

theorem bytes_exportItem (type : ContactType) (u : IcqUser) :
    (exportItem type u).bytes = (u.exportedItem type).bytes := by
  have hvalues : (if exportName type u ≠ [] then
      Layout.sizedBE ((exportName type u).length + 4)
        (.tlv 0x0131 (exportName type u).length (.ofFields [.raw (exportName type u)]))
      else .ofFields [.uint16BE 0]).bytes
        = bytesBE 2 ((exportValues (exportName type u)).flatMap OscarTlv.bytes).length ++
          (exportValues (exportName type u)).flatMap OscarTlv.bytes := by
    rw [length_exportValues, exportValues]
    by_cases hname : exportName type u = []
    · rw [if_neg (not_not_intro hname), if_neg (not_not_intro hname), hname]
      rfl
    · rw [if_pos hname, if_pos hname, if_pos (fun h => hname (eq_nil_of_length_eq_zero h)),
        Layout.bytes_sizedBE, Layout.bytes_tlv, flatMap_singleton, Layout.bytes_ofFields,
        flatMap_singleton, Buffer.Field.bytes, OscarTlv.bytes, Nat.add_comm 4,
        append_assoc]
  rw [exportItem]
  simp only [Layout.bytes_append, Layout.bytes_ofFields, hvalues]
  simp only [IcqUser.exportedItem, bytes, rosterItemBytes, values,
    Option.getD_some, flatMap_cons, flatMap_nil, Buffer.Field.bytes, append_assoc,
    append_nil, Layout.bytesBE_ofNat]

/-- **Nothing that is kept is exported**, except for the alias. -/
theorem perm_withAlias_iff {name : List UInt8} {tlvs : TlvList} :
    (exportValues name).Perm (withAlias name tlvs).values ↔
      ∀ tlv ∈ tlvs.values, tlv.myType = 0x0131 ∧ name ≠ [] := by
  by_cases hname : name = []
  · subst hname
    rw [exportValues, withAlias, if_neg (not_not_intro rfl), if_neg (not_not_intro rfl)]
    constructor
    · intro hperm tlv htlv
      exact absurd (hperm.mem_iff.mpr htlv) not_mem_nil
    · intro hall
      rw [eq_nil_iff_forall_not_mem.mpr fun tlv htlv => (hall tlv htlv).2 rfl]
  · rw [exportValues, withAlias, if_pos hname, if_pos hname]
    constructor
    · intro hperm tlv htlv
      refine ⟨by_contra fun htype => htype ?_, hname⟩
      have hfound := TlvList.mem_values.mp htlv
      rw [← find?_insert_of_ne tlvs name htype] at hfound
      have hmem := hperm.mem_iff.mpr (TlvList.mem_values.mpr hfound)
      rw [mem_singleton.mp hmem]
    · intro hall
      refine (@TlvList.ofValues_eq_iff [⟨0x0131, name⟩] _ (nodup_singleton _)).mp ?_
      refine ext_find? fun type => ?_
      change (insert empty 0x0131 name).find? type = _
      by_cases htype : type = 0x0131
      · rw [htype, find?_insert_self, find?_insert_self]
      · rw [find?_insert_of_ne _ _ htype, find?_insert_of_ne _ _ htype]
        refine (Option.eq_none_iff_forall_ne_some.mpr fun data hdata => htype ?_).symm
        exact (hall ⟨type, data⟩ (TlvList.mem_values.mpr hdata)).1

theorem length_exportValues_le (name : List UInt8) (tlvs : TlvList) :
    ((exportValues name).flatMap OscarTlv.bytes).length
      ≤ ((withAlias name tlvs).values.flatMap OscarTlv.bytes).length := by
  by_cases hname : name = []
  · rw [exportValues, if_neg (not_not_intro hname)]
    exact Nat.zero_le _
  · have hmem : (⟨0x0131, name⟩ : OscarTlv) ∈ (withAlias name tlvs).values := by
      rw [TlvList.mem_values, withAlias, if_pos hname]
      exact find?_insert_self tlvs 0x0131 name
    rw [exportValues, if_pos hname, flatMap_singleton, length_flatMap]
    exact le_sum_of_mem (mem_map.mpr ⟨_, hmem, rfl⟩)

theorem bytes_foldr (l : List Layout) : (l.foldr (· ++ ·) ∅).bytes = l.flatMap Layout.bytes := by
  induction l with
  | nil => rfl
  | cons a l ih => rw [foldr_cons, Layout.bytes_append, ih, flatMap_cons]

theorem yields_exportUsers_iff (type : ContactType) (groupIds : List ℕ)
    (users : List (UInt16 × Option IcqUser)) :
    let c : ListChange := .exportUsers type groupIds users
    (c.packet nSubSequence).Yields nSequence (c.entries nSubSequence) ↔
      c.Clean ∧ 10 + ((c.entries nSubSequence).map ListEntry.size).sum < 2 ^ 16 := by
  let l := exported type groupIds 0 users
  let entry := fun u : IcqUser => u.entry type (withAlias (exportName type u) (u.keptOn type))
  have hmap : ∀ {β : Type} (f : List UInt8 × List UInt8 × TlvList → β),
      l.map (fun u => f u.kept) = (users.filterMap Prod.snd).map fun u => f u.kept := by
    intro β f
    have hkept := congrArg (map f) (map_kept_exported type groupIds 0 users)
    rwa [map_map, map_map] at hkept
  have hbytes : ((l.map (exportItem type)).foldr (· ++ ·) ∅).bytes
      = (l.map (IcqUser.exportedItem · type)).flatMap RosterItem.bytes := by
    rw [bytes_foldr, flatMap_map, flatMap_map]
    exact flatMap_congr fun u _ => bytes_exportItem type u
  have hn : ((users.filterMap Prod.snd).map fun u => u.accountId.length + 10 +
      if (exportName type u).length ≠ 0 then 4 + (exportName type u).length else 0).sum
        = ((l.map (IcqUser.exportedItem · type)).map RosterItem.size).sum := by
    have hsizes := hmap fun t => t.1.length + 10 +
      if (if type = .normal then t.2.1 else []).length ≠ 0 then
        4 + (if type = .normal then t.2.1 else []).length else 0
    refine (congrArg sum hsizes).symm.trans (congrArg sum ?_)
    rw [map_map]
    refine map_congr_left fun u _ => ?_
    simp only [Function.comp, RosterItem.size, IcqUser.exportedItem, RosterItem.values,
      Option.getD_some, length_exportValues]
    rw [Nat.add_comm 10]
    rfl
  have hsize : ((l.map (IcqUser.exportedItem · type)).map RosterItem.size).sum
      ≤ ((l.map entry).map ListEntry.size).sum + 4 := by
    rw [map_map, map_map]
    refine (sum_le_sum fun u _ => ?_).trans (Nat.le_add_right _ 4)
    exact Nat.add_le_add_left (length_exportValues_le _ _) _
  have hreal : ∀ e ∈ l.map entry, e.nGSID ≠ 0 ∨ e.nType ≠ 0 := by
    refine forall_mem_map.mpr fun u hu => ?_
    cases type with
    | normal => exact .inl (nGSID_exported u hu)
    | visible => exact .inr (show (0x0002 : UInt16) ≠ 0 by decide)
    | invisible => exact .inr (show (0x0003 : UInt16) ≠ 0 by decide)
    | ignore => exact .inr (show (0x000E : UInt16) ≠ 0 by decide)
  have hitems : ∀ u : IcqUser, (u.exportedItem type).asRead.Says (entry u) ↔
      ∀ tlv ∈ (u.keptOn type).values, tlv.myType = 0x0131 ∧ exportName type u ≠ [] := by
    intro u
    rw [RosterItem.says_asRead_iff, ← perm_withAlias_iff]
    exact ⟨fun h => h.2.2.2.2, fun h => ⟨rfl, rfl, rfl, rfl, h⟩⟩
  have hclean : (∀ u ∈ l, ∀ tlv ∈ (u.keptOn type).values,
      tlv.myType = 0x0131 ∧ exportName type u ≠ []) ↔
        (ListChange.exportUsers type groupIds users).Clean := by
    have hprops := hmap fun t => ∀ tlv ∈ (if type = .normal then t.2.2 else empty :
      TlvList).values, tlv.myType = 0x0131 ∧ (if type = .normal then t.2.1 else []) ≠ []
    have hiff : (∀ P ∈ l.map fun u : IcqUser => ∀ tlv ∈ (u.keptOn type).values,
        tlv.myType = 0x0131 ∧ exportName type u ≠ [], P) ↔
          ∀ P ∈ (users.filterMap Prod.snd).map fun u : IcqUser => ∀ tlv ∈ (u.keptOn type).values,
            tlv.myType = 0x0131 ∧ exportName type u ≠ [], P :=
      Iff.of_eq (congrArg (fun ps : List Prop => ∀ P ∈ ps, P) hprops)
    rwa [forall_mem_map, forall_mem_map] at hiff
  have hyields := @yields_iff_of_items icqSnacFamList icqSnacListRostAdd nSubSequence nSequence _ _
    (l.map (IcqUser.exportedItem · type)) (l.map entry)
    (by rw [length_map, length_map]) (fun _ => ⟨hbytes, hn⟩) hsize (.inr hreal)
  refine hyields.trans ?_
  rw [forall₂_map_left_iff, forall₂_map_right_iff, forall₂_same, and_comm]
  simp only [hitems, hclean]
  refine and_congr_right fun hall => ?_
  have hsizes : (l.map (IcqUser.exportedItem · type)).map RosterItem.size
      = (l.map entry).map ListEntry.size := by
    rw [map_map, map_map]
    refine map_congr_left fun u hu => ?_
    have hitem := ((hitems u).mpr (hclean.mpr hall u hu)).size_eq
    rwa [RosterItem.size_asRead] at hitem
  rw [hsizes]
  rfl

end Changes

/-! ## The main result -/

/-- **Which changes arrive.** -/
theorem listChange_yields_iff (c : ListChange) (nSubSequence nSequence : UInt16) :
    (c.packet nSubSequence).Yields nSequence (c.entries nSubSequence) ↔
      c.Clean ∧ 10 + ((c.entries nSubSequence).map ListEntry.size).sum < 2 ^ 16 := by
  cases c with
  | addUser u type nGroup bAuthReq nSID groupIds =>
    exact yields_addUser_iff u type nGroup bAuthReq nSID groupIds
  | addGroup groupName bAuthReq bTopLevel nNewSID groupIds =>
    exact yields_addGroup_iff groupName bAuthReq bTopLevel nNewSID groupIds
  | removeUser u nGSID nSID type => exact yields_removeUser_iff u nGSID nSID type
  | removeGroup groupName nGSID => exact yields_removeGroup_iff groupName nGSID
  | updateUser u type bAuthReq => exact yields_updateUser_iff u type bAuthReq
  | updateGroup name nGSID groupIds users =>
    exact yields_updateGroup_iff name nGSID groupIds users
  | exportUsers type groupIds users => exact yields_exportUsers_iff type groupIds users

/-- A user that awaits authorisation, as the server has told. -/
def awaitingUser : IcqUser where
  accountId := [49, 50, 51, 52]
  myAlias := []
  nSID := 5
  nGSID := 1
  nVisibleSID := 0
  nInvisibleSID := 0
  bAwaitingAuth := true
  groups := []
  tlvs := SortedMap.empty.insert 0x0066 []
  tlvs_lt := by decide

/-- The value 0x0066 is there twice when the user is updated, and is missing when the user is
exported. -/
theorem not_yields_awaitingUser :
    ¬((ListChange.updateUser awaitingUser .normal false).packet 0).Yields 0
        ((ListChange.updateUser awaitingUser .normal false).entries 0) ∧
      ¬((ListChange.exportUsers .normal [1] [(6, some awaitingUser)]).packet 0).Yields 0
        ((ListChange.exportUsers .normal [1] [(6, some awaitingUser)]).entries 0) := by
  constructor
  · intro h
    have hclean := ((yields_updateUser_iff awaitingUser .normal false).mp h).1
    exact absurd (hclean rfl) (by decide)
  · intro h
    have hclean := ((yields_exportUsers_iff .normal [1] [(6, some awaitingUser)]).mp h).1
    have hvalue := hclean awaitingUser List.mem_cons_self ⟨0x0066, []⟩ (by decide)
    exact hvalue.2 rfl

end Licq
