import Licq.Icq.Tlv

/-!
# Icq/Srv/Roster — the items of a contact list of the server

An item has a name, the id of a group, an id of its own, a type and a block of tagged values, of
which the size stands before it.  `unpackRosterItem` is the parser of `ProcessListFam`; it reads no
block where the size is zero.

It reads what an item packs (`unpackRosterItem_bytes`).  And what it reads was there: an item takes
as many bytes as it has, except for zeros at the end of the data (`length_unpackRosterItem`).
-/

open Wire

namespace Licq

open List OscarTlv

/-- What the parser reads of an item. -/
structure RosterItem where
  name : List UInt8
  nTag : UInt16
  nID : UInt16
  nType : UInt16
  /-- The values of the block; none where `readTLV` is not called. -/
  tlvs : Option (List OscarTlv)

namespace RosterItem

/-- The values that have been read for the item. -/
def values (item : RosterItem) : List OscarTlv := item.tlvs.getD []

/-- As many bytes as the item takes. -/
def size (item : RosterItem) : ℕ :=
  10 + item.name.length + (item.values.flatMap OscarTlv.bytes).length

end RosterItem

/-- The bytes of an item. -/
def rosterItemBytes (name : List UInt8) (nTag nID nType : UInt16) (tlvs : List OscarTlv) :
    List UInt8 :=
  bytesBE 2 name.length ++ (name ++ (bytesBE 2 nTag.toNat ++ (bytesBE 2 nID.toNat ++
    (bytesBE 2 nType.toNat ++ (bytesBE 2 (tlvs.flatMap OscarTlv.bytes).length ++
      tlvs.flatMap OscarTlv.bytes)))))

theorem length_rosterItemBytes (name : List UInt8) (nTag nID nType : UInt16)
    (tlvs : List OscarTlv) : (rosterItemBytes name nTag nID nType tlvs).length
      = 10 + name.length + (tlvs.flatMap OscarTlv.bytes).length := by
  simp only [rosterItemBytes, length_append, length_bytesBE]
  omega

namespace Buffer

/-- The parser of an item. -/
def unpackRosterItem (b : Buffer) : RosterItem × Buffer :=
  let name := b.unpackShortStringBE
  let nTag := name.2.unpackUInt16BE
  let nID := nTag.2.unpackUInt16BE
  let nType := nID.2.unpackUInt16BE
  let nByteLen := nType.2.unpackUInt16BE
  if nByteLen.1 ≠ 0 then
    let read := nByteLen.2.readTLV (-1) nByteLen.1.toNat
    (⟨name.1, nTag.1, nID.1, nType.1, some read.2.1⟩, read.2.2)
  else (⟨name.1, nTag.1, nID.1, nType.1, none⟩, nByteLen.2)

/-- So many items one after the other. -/
def unpackRosterItems (b : Buffer) : ℕ → List RosterItem × Buffer
  | 0 => ([], b)
  | n + 1 =>
    let item := b.unpackRosterItem
    let items := item.2.unpackRosterItems n
    (item.1 :: items.1, items.2)

/-! ## Reading what was packed -/

/-- **An item that comes next is read whole**; its values are kept newest first. -/
theorem unpackRosterItem_bytes {b : Buffer} {name : List UInt8} {nTag nID nType : UInt16}
    {tlvs : List OscarTlv} {tail : List UInt8} (hname : name.length < 2 ^ 16)
    (hsize : ∀ tlv ∈ tlvs, tlv.myData.length < 2 ^ 16)
    (hblock : (tlvs.flatMap OscarTlv.bytes).length < 2 ^ 16)
    (h : b.rest = rosterItemBytes name nTag nID nType tlvs ++ tail) :
    b.unpackRosterItem.1
        = ⟨name, nTag, nID, nType, if tlvs = [] then none else some tlvs.reverse⟩ ∧
      b.unpackRosterItem.2.rest = tail := by
  simp only [rosterItemBytes, append_assoc] at h
  obtain ⟨hstring, hrest₁⟩ := unpackShortStringBE_append h
  rw [Nat.mod_eq_of_lt hname, take_left] at hstring
  rw [Nat.mod_eq_of_lt hname, drop_left] at hrest₁
  obtain ⟨htag, hrest₂⟩ := unpackUInt16BE_append hrest₁
  obtain ⟨hid, hrest₃⟩ := unpackUInt16BE_append hrest₂
  obtain ⟨htype, hrest₄⟩ := unpackUInt16BE_append hrest₃
  obtain ⟨hlen, hrest₅⟩ := unpackUInt16BE_append hrest₄
  rw [UInt16.ofNat_toNat] at htag hid htype
  have hlength : (UInt16.ofNat (tlvs.flatMap bytes).length).toNat
      = (tlvs.flatMap bytes).length := UInt16.toNat_ofNat_of_lt' hblock
  simp only [unpackRosterItem, hstring, htag, hid, htype, hlen, hlength]
  cases tlvs with
  | nil => exact ⟨rfl, hrest₅⟩
  | cons tlv tlvs =>
    have hpos : UInt16.ofNat ((tlv :: tlvs).flatMap bytes).length ≠ 0 := by
      intro hzero
      have hnat := hlength.symm.trans (congrArg UInt16.toNat hzero)
      rw [flatMap_cons, length_append, tlv.length_bytes] at hnat
      change 4 + _ + _ = 0 at hnat
      omega
    obtain ⟨hvalues, htail⟩ := readTLV_block hsize (cons_ne_nil tlv tlvs) hrest₅
    rw [if_pos hpos, if_neg (cons_ne_nil tlv tlvs), hvalues]
    exact ⟨rfl, htail⟩

/-! ## What is read was there -/

/-- A word is read, or there is none left and the result is zero. -/
theorem unpackUInt16BE_cases (b : Buffer) :
    b.unpackUInt16BE.2.rest.length + 2 = b.rest.length ∨
      b.rest.length < 2 ∧ b.unpackUInt16BE.1 = 0 ∧ b.unpackUInt16BE.2 = b := by
  rcases Nat.lt_or_ge b.rest.length 2 with hlt | hge
  · refine .inr ⟨hlt, ?_⟩
    rw [length_rest] at hlt
    simp only [unpackUInt16BE, unpack, dif_pos hlt]
    exact ⟨rfl, trivial⟩
  · refine .inl ?_
    have hrest : b.unpackUInt16BE.2.rest = b.rest.drop 2 := (unpack_rest hge).2
    rw [hrest, length_drop]
    omega

theorem length_unpackShortStringBE (b : Buffer) :
    b.unpackShortStringBE.1.length + b.unpackShortStringBE.2.rest.length
      = b.unpackUInt16BE.2.rest.length := by
  rw [unpackShortStringBE, unpackRawString_eq, unpackRawString_rest, length_take,
    length_drop]
  omega

/-- A value has no more bytes than are taken for it. -/
theorem length_unpackTlv {b : Buffer} (h : 4 ≤ b.remainingDataToRead) :
    b.unpackTlv.1.bytes.length + b.unpackTlv.2.2.rest.length ≤ b.rest.length := by
  rw [← length_rest] at h
  have htype := b.unpackUInt16BE_cases
  have hlen := b.unpackUInt16BE.2.unpackUInt16BE_cases
  rw [length_bytes]
  simp only [unpackTlv]
  split
  · simp only [length_nil]
    omega
  · rename_i hsome
    have hle : b.unpackUInt16BE.2.unpackUInt16BE.1.toNat
        ≤ b.unpackUInt16BE.2.unpackUInt16BE.2.rest.length := by
      rw [length_rest]
      omega
    obtain ⟨hdata, hrest⟩ := unpack_rest hle
    rw [hdata, hrest, length_take, length_drop]
    omega

theorem length_rest_reads_le (sizes : List ℕ) (b : Buffer) :
    (reads sizes b).rest.length ≤ b.rest.length := by
  induction sizes generalizing b with
  | nil => exact Nat.le_refl _
  | cons n sizes ih =>
    refine (ih (b.unpack n).2).trans ?_
    rw [length_rest, length_rest]
    exact unpack_remaining_le b n

theorem length_readTlvLoop (nCount nBytes : ℤ) (b : Buffer) (tlvs : List OscarTlv)
    (num nCurBytes : ℤ) :
    ((readTlvLoop nCount nBytes b tlvs num nCurBytes).1.flatMap OscarTlv.bytes).length
        + (readTlvLoop nCount nBytes b tlvs num nCurBytes).2.rest.length
      ≤ (tlvs.flatMap OscarTlv.bytes).length + b.rest.length := by
  fun_induction readTlvLoop nCount nBytes b tlvs num nCurBytes with
  | case1 b tlvs num nCurBytes h tlv =>
    have hle : tlv.1.bytes.length + tlv.2.2.rest.length ≤ b.rest.length := length_unpackTlv h
    simp only [flatMap_cons, length_append]
    omega
  | case2 b tlvs num nCurBytes h tlv =>
    have hle : tlv.1.bytes.length + tlv.2.2.rest.length ≤ b.rest.length := length_unpackTlv h
    simp only [flatMap_cons, length_append]
    omega
  | case3 b tlvs num nCurBytes h tlv num' nCurBytes' hdone hmore ih =>
    have hle : tlv.1.bytes.length + tlv.2.2.rest.length ≤ b.rest.length := length_unpackTlv h
    simp only [flatMap_cons, length_append] at ih
    omega
  | case4 b tlvs num nCurBytes h =>
    exact Nat.add_le_add_left (length_rest_reads_le _ b) _

/-- **An item takes as many bytes as it has**, except for zeros at the end of the data. -/
theorem length_unpackRosterItem (b : Buffer) :
    b.unpackRosterItem.1.size + b.unpackRosterItem.2.rest.length ≤ b.rest.length + 10 ∧
      (2 ≤ b.unpackRosterItem.2.rest.length →
        b.unpackRosterItem.1.size + b.unpackRosterItem.2.rest.length ≤ b.rest.length) ∧
      (b.rest.length < 2 → b.unpackRosterItem.1.nTag = 0 ∧ b.unpackRosterItem.1.nType = 0) := by
  have hlength := b.unpackUInt16BE_cases
  have hname := b.length_unpackShortStringBE
  simp only [unpackRosterItem]
  generalize b.unpackShortStringBE = name at hname ⊢
  have htag := name.2.unpackUInt16BE_cases
  generalize name.2.unpackUInt16BE = nTag at htag ⊢
  have hid := nTag.2.unpackUInt16BE_cases
  generalize nTag.2.unpackUInt16BE = nID at hid ⊢
  have htype := nID.2.unpackUInt16BE_cases
  generalize nID.2.unpackUInt16BE = nType at htype ⊢
  have hlen := nType.2.unpackUInt16BE_cases
  generalize nType.2.unpackUInt16BE = nByteLen at hlen ⊢
  have hrest : ∀ b b' : Buffer, b = b' → b.rest.length = b'.rest.length := fun _ _ h => by rw [h]
  have hlength' := hlength.imp_right fun h => hrest _ _ h.2.2
  have htag' := htag.imp_right fun h => hrest _ _ h.2.2
  have hid' := hid.imp_right fun h => hrest _ _ h.2.2
  have htype' := htype.imp_right fun h => hrest _ _ h.2.2
  have hlen' := hlen.imp_right fun h => hrest _ _ h.2.2
  have hzero : b.rest.length < 2 → nTag.1 = 0 ∧ nType.1 = 0 := by
    intro hlt
    exact ⟨(htag.resolve_left (by omega)).2.1, (htype.resolve_left (by omega)).2.1⟩
  by_cases hne : nByteLen.1 ≠ 0
  · have hloop := length_readTlvLoop (-1) nByteLen.1.toNat nByteLen.2 [] 0 0
    have hreal := hlen.resolve_right fun h => hne h.2.1
    have hread : nByteLen.2.readTLV (-1) nByteLen.1.toNat
        = (true, readTlvLoop (-1) nByteLen.1.toNat nByteLen.2 [] 0 0) := if_neg (by decide)
    simp only [if_pos hne, hread, RosterItem.size, RosterItem.values, Option.getD_some,
      flatMap_nil, length_nil] at hloop ⊢
    refine ⟨by omega, fun _ => by omega, hzero⟩
  · simp only [if_neg hne, RosterItem.size, RosterItem.values, Option.getD_none, flatMap_nil,
      length_nil]
    refine ⟨by omega, fun _ => by omega, hzero⟩

/-- **Items take as many bytes as they have**, except for zeros at the end of the data; but no item
behind the first is read from nothing. -/
theorem length_unpackRosterItems {n : ℕ} {b : Buffer}
    (h : ∀ item ∈ (b.unpackRosterItems n).1, item.nTag ≠ 0 ∨ item.nType ≠ 0) :
    ((b.unpackRosterItems n).1.map RosterItem.size).sum ≤ b.rest.length + 10 := by
  induction n generalizing b with
  | zero => exact Nat.zero_le _
  | succ n ih =>
    obtain ⟨hshort, hlong, -⟩ := b.length_unpackRosterItem
    have hitems := ih fun item hitem => h item (mem_cons_of_mem _ hitem)
    rw [unpackRosterItems, map_cons, sum_cons]
    rcases Nat.lt_or_ge b.unpackRosterItem.2.rest.length 2 with hlt | hge
    · cases n with
      | zero => exact (Nat.le_add_right _ _).trans hshort
      | succ n =>
        obtain ⟨-, -, hzero⟩ := b.unpackRosterItem.2.length_unpackRosterItem
        have hne := h _ (mem_cons_of_mem _ mem_cons_self)
        exact absurd (hzero hlt) fun hboth => hne.elim (· hboth.1) (· hboth.2)
    · have hle := hlong hge
      omega

end Buffer

/-! ## What an item says -/

namespace RosterItem

/-- The bytes that the item is packed in. -/
def bytes (item : RosterItem) : List UInt8 :=
  rosterItemBytes item.name item.nTag item.nID item.nType item.values

/-- The item with its values newest first, as it is read. -/
def asRead (item : RosterItem) : RosterItem :=
  { item with tlvs := if item.values = [] then none else some item.values.reverse }

@[simp] theorem values_asRead (item : RosterItem) :
    item.asRead.values = item.values.reverse := by
  rw [asRead, values]
  split
  · rename_i hnil
    rw [hnil]
    rfl
  · rfl

/-- The lengths of the item fit in their words. -/
structure Fits (item : RosterItem) : Prop where
  name : item.name.length < 2 ^ 16
  values : ∀ tlv ∈ item.values, tlv.myData.length < 2 ^ 16
  block : (item.values.flatMap OscarTlv.bytes).length < 2 ^ 16

theorem length_bytes (item : RosterItem) : item.bytes.length = item.size :=
  length_rosterItemBytes _ _ _ _ _

end RosterItem

/-- **Items that come next are read one after the other.** -/
theorem Buffer.unpackRosterItems_bytes {b : Buffer} {items : List RosterItem} {tail : List UInt8}
    (hfits : ∀ item ∈ items, item.Fits) (h : b.rest = items.flatMap RosterItem.bytes ++ tail) :
    (b.unpackRosterItems items.length).1 = items.map RosterItem.asRead ∧
      (b.unpackRosterItems items.length).2.rest = tail := by
  induction items generalizing b with
  | nil => exact ⟨rfl, h⟩
  | cons item items ih =>
    rw [flatMap_cons, append_assoc] at h
    have hitem := hfits item mem_cons_self
    obtain ⟨hread, hrest⟩ := Buffer.unpackRosterItem_bytes hitem.name hitem.values hitem.block h
    obtain ⟨hreads, htail⟩ := ih (fun i hi => hfits i (mem_cons_of_mem item hi)) hrest
    refine ⟨?_, htail⟩
    rw [length_cons, Buffer.unpackRosterItems, map_cons]
    exact congrArg₂ List.cons hread hreads

/-- What an item of the list is to say. -/
structure ListEntry where
  name : List UInt8
  nGSID : UInt16
  nSID : UInt16
  nType : UInt16
  tlvs : TlvList

/-- The values of a map, in the order of their types. -/
def TlvList.values (tlvs : TlvList) : List OscarTlv := tlvs.entries.map fun e => ⟨e.1, e.2⟩

theorem TlvList.mem_values {tlvs : TlvList} {tlv : OscarTlv} :
    tlv ∈ tlvs.values ↔ tlvs.find? tlv.myType = some tlv.myData := by
  rw [← SortedMap.mem_entries_iff, values, mem_map]
  constructor
  · rintro ⟨e, he, rfl⟩
    exact he
  · exact fun h => ⟨_, h, rfl⟩

theorem TlvList.nodup_types (tlvs : TlvList) : (tlvs.values.map OscarTlv.myType).Nodup := by
  rw [values, map_map]
  exact tlvs.nodupKeys

/-- Values of distinct types make a map if they are its values in some order. -/
theorem TlvList.ofValues_eq_iff {l : List OscarTlv} {tlvs : TlvList}
    (h : (l.map OscarTlv.myType).Nodup) : ofValues l = tlvs ↔ l.Perm tlvs.values := by
  have hiff := (perm_ext_iff_of_nodup h.of_map tlvs.nodup_types.of_map)
  rw [hiff]
  constructor
  · rintro rfl tlv
    rw [mem_values]
    exact (find?_ofValues h tlv.myType tlv.myData).symm
  · intro hmem
    refine SortedMap.ext_find? fun type => Option.ext fun data => ?_
    rw [find?_ofValues h, hmem, mem_values]

/-- The item has the name, the ids, the type and the values, and every value once. -/
structure RosterItem.Says (item : RosterItem) (entry : ListEntry) : Prop where
  name : item.name = entry.name
  nTag : item.nTag = entry.nGSID
  nID : item.nID = entry.nSID
  nType : item.nType = entry.nType
  nodup : (item.values.map OscarTlv.myType).Nodup
  tlvs : TlvList.ofValues item.values = entry.tlvs

/-- As many bytes as an item takes that says it. -/
def ListEntry.size (entry : ListEntry) : ℕ :=
  10 + entry.name.length + (entry.tlvs.values.flatMap OscarTlv.bytes).length

theorem RosterItem.Says.size_eq {item : RosterItem} {entry : ListEntry} (h : item.Says entry) :
    item.size = entry.size := by
  have hperm := (TlvList.ofValues_eq_iff h.nodup).mp h.tlvs
  rw [RosterItem.size, ListEntry.size, h.name, (hperm.flatMap_right OscarTlv.bytes).length_eq]

/-- A packed item says what it was packed for if its values are those of the entry, each once. -/
theorem RosterItem.says_asRead_iff {item : RosterItem} {entry : ListEntry} :
    item.asRead.Says entry ↔ item.name = entry.name ∧ item.nTag = entry.nGSID ∧
      item.nID = entry.nSID ∧ item.nType = entry.nType ∧ item.values.Perm entry.tlvs.values := by
  have hreverse : (item.asRead.values.map myType).Nodup ↔
      (item.values.map myType).Nodup := by
    rw [values_asRead, map_reverse, nodup_reverse]
  constructor
  · intro h
    refine ⟨h.name, h.nTag, h.nID, h.nType, ?_⟩
    have hperm := (TlvList.ofValues_eq_iff h.nodup).mp h.tlvs
    rw [values_asRead] at hperm
    exact (reverse_perm _).symm.trans hperm
  · rintro ⟨hname, hgroup, hid, htype, hperm⟩
    have hnodup : (item.asRead.values.map myType).Nodup :=
      hreverse.mpr ((hperm.map _).nodup_iff.mpr entry.tlvs.nodup_types)
    refine ⟨hname, hgroup, hid, htype, hnodup, ?_⟩
    rw [TlvList.ofValues_eq_iff hnodup, values_asRead]
    exact (reverse_perm _).trans hperm

end Licq
