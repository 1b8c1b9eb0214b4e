import Licq.Buffer.Fields
import Licq.Data.SortedMap

/-!
# Icq/Tlv — tagged values, packed and read

`PackTLV` of the ICQ buffer against `readTLV`.  A block of packed values is read back value by
value: with its size as the limit, whatever follows it (`readTLV_block`), and without a limit where
nothing follows (`readTLV_packTLV`).
-/

open Wire

namespace Licq

open List OscarTlv

instance uint16LinearOrder : LinearOrder UInt16 where
  le_refl a := UInt16.le_refl a
  le_trans _ _ _ := UInt16.le_trans
  le_antisymm _ _ := UInt16.le_antisymm
  le_total := UInt16.le_total
  lt_iff_le_not_ge a b := by
    rw [UInt16.lt_iff_toNat_lt, UInt16.le_iff_toNat_le, UInt16.le_iff_toNat_le]
    omega
  toDecidableLE := inferInstance
  toDecidableEq := inferInstance
  toDecidableLT := inferInstance

/-- `TlvList`: the data of each type. -/
abbrev TlvList := SortedMap UInt16 (List UInt8)

/-- The map that values are stored in one after the other; the last one stands first. -/
def TlvList.ofValues (tlvs : List OscarTlv) : TlvList :=
  tlvs.foldr (fun tlv m => m.insert tlv.myType tlv.myData) SortedMap.empty

/-- Values of distinct types are all in the map, and nothing else is. -/
theorem TlvList.find?_ofValues {tlvs : List OscarTlv} (h : (tlvs.map OscarTlv.myType).Nodup)
    (type : UInt16) (data : List UInt8) :
    (ofValues tlvs).find? type = some data ↔ ⟨type, data⟩ ∈ tlvs := by
  induction tlvs with
  | nil => exact ⟨fun h => absurd h (by simp [ofValues]), fun h => absurd h not_mem_nil⟩
  | cons tlv tlvs ih =>
    obtain ⟨hnotMem, htlvs⟩ := nodup_cons.mp h
    rw [mem_cons, ← ih htlvs]
    change (SortedMap.insert (ofValues tlvs) tlv.myType tlv.myData).find? type = some data ↔ _
    by_cases htype : type = tlv.myType
    · subst htype
      rw [SortedMap.find?_insert_self, Option.some.injEq]
      constructor
      · rintro rfl
        exact .inl rfl
      · rintro (heq | hmem)
        · exact (congrArg myData heq).symm
        · exact absurd (mem_map.mpr ⟨_, (ih htlvs).mp hmem, rfl⟩) hnotMem
    · rw [SortedMap.find?_insert_of_ne _ _ htype]
      constructor
      · exact Or.inr
      · rintro (rfl | hmem)
        · exact absurd rfl htype
        · exact hmem

namespace OscarTlv

/-- The bytes that `PackTLV` appends where they fit. -/
def bytes (tlv : OscarTlv) : List UInt8 :=
  bytesBE 2 tlv.myType.toNat ++ bytesBE 2 tlv.myData.length ++ tlv.myData

theorem length_bytes (tlv : OscarTlv) : tlv.bytes.length = 4 + tlv.myData.length := by
  rw [bytes, length_append, length_append, length_bytesBE, length_bytesBE]

end OscarTlv

namespace Buffer

/-- `PackTLV` of a type and data, of which the size is an `unsigned short`. -/
def packTLV (b : Buffer) (tlv : OscarTlv) : Buffer :=
  ((b.packUInt16BE tlv.myType).packUInt16BE (UInt16.ofNat tlv.myData.length)).packRaw tlv.myData

theorem packTLV_eq {b : Buffer} {tlv : OscarTlv} (hsize : tlv.myData.length < 2 ^ 16)
    (h : tlv.bytes.length ≤ b.remainingDataToWrite) : b.packTLV tlv = b.packRaw tlv.bytes := by
  have hlength : (UInt16.ofNat tlv.myData.length).toNat = tlv.myData.length :=
    UInt16.toNat_ofNat_of_lt' hsize
  have hhead : (bytesBE 2 tlv.myType.toNat ++ bytesBE 2 tlv.myData.length).length
      ≤ b.remainingDataToWrite :=
    (length_append ▸ Nat.le_add_right _ _ :).trans h
  rw [packTLV, packUInt16BE, packUInt16BE, hlength, packRaw_packRaw hhead, bytes,
    packRaw_packRaw h]

/-- Values that fit are packed behind each other. -/
theorem foldl_packTLV {b : Buffer} {tlvs : List OscarTlv}
    (hsize : ∀ tlv ∈ tlvs, tlv.myData.length < 2 ^ 16)
    (h : (tlvs.flatMap OscarTlv.bytes).length ≤ b.remainingDataToWrite) :
    tlvs.foldl packTLV b = b.packRaw (tlvs.flatMap OscarTlv.bytes) := by
  induction tlvs generalizing b with
  | nil => exact (packRaw_nil b).symm
  | cons tlv tlvs ih =>
    rw [flatMap_cons] at h ⊢
    have hle := h
    rw [length_append] at hle
    have hhead : (b.packRaw tlv.bytes).remainingDataToWrite + tlv.bytes.length
        = b.remainingDataToWrite := by
      rw [remainingDataToWrite, remainingDataToWrite, packRaw_maxSize, packRaw_data (by omega),
        length_append]
      rw [remainingDataToWrite] at hle
      omega
    rw [foldl_cons, packTLV_eq (hsize tlv mem_cons_self) (by omega),
      ih (fun t ht => hsize t (mem_cons_of_mem tlv ht)) (by omega), packRaw_packRaw h]

/-! ## Reading one value -/

/-- **A value that comes next is read whole.** -/
theorem unpackTlv_bytes {b : Buffer} {tlv : OscarTlv} {tail : List UInt8}
    (hsize : tlv.myData.length < 2 ^ 16) (h : b.rest = tlv.bytes ++ tail) :
    b.unpackTlv.1 = tlv ∧ b.unpackTlv.2.1 = tlv.bytes.length ∧ b.unpackTlv.2.2.rest = tail := by
  rw [bytes, append_assoc, append_assoc] at h
  obtain ⟨htype, hrest₁⟩ := unpackUInt16BE_append h
  obtain ⟨hlen, hrest₂⟩ := unpackUInt16BE_append hrest₁
  obtain ⟨hdata, hrest₃⟩ := unpack_append hrest₂
  have hlength : (UInt16.ofNat tlv.myData.length).toNat = tlv.myData.length :=
    UInt16.toNat_ofNat_of_lt' hsize
  have hremaining : b.unpackUInt16BE.2.unpackUInt16BE.2.remainingDataToRead
      = tlv.myData.length + tail.length := by
    rw [← length_rest, hrest₂, length_append]
  simp only [unpackTlv, htype, hlen, hlength, UInt16.ofNat_toNat, hremaining, length_bytes]
  split
  · have hnil : tlv.myData = [] := eq_nil_of_length_eq_zero (by omega)
    refine ⟨?_, rfl, ?_⟩
    · rw [← hnil]
    · rw [hrest₂, hnil, nil_append]
  · refine ⟨?_, rfl, hrest₃⟩
    rw [hdata]

/-! ## Reading a block -/

/-- Once nothing is left, the loop for the missing bytes does nothing. -/
theorem reads_of_rest_nil {b : Buffer} {sizes : List ℕ} (h : b.rest = []) :
    (reads sizes b).rest = [] := by
  have hend : b.data.length ≤ b.posRead := drop_eq_nil_iff.mp h
  induction sizes generalizing b with
  | nil => exact h
  | cons n sizes ih =>
    have hle : b.posRead ≤ (b.unpack n).2.posRead := by
      rw [unpack_posRead]
      split <;> omega
    have hend' : (b.unpack n).2.data.length ≤ (b.unpack n).2.posRead := by
      rw [unpack_data]
      omega
    exact ih (drop_eq_nil_iff.mpr hend') hend'

/-- **The loop of `readTLV` over a block of values.**  It ends behind the block: where the limit
says so, or where there is no limit and nothing follows. -/
theorem readTlvLoop_block {b : Buffer} {tlvs : List OscarTlv} {tail : List UInt8} {nBytes : ℤ}
    {acc : List OscarTlv} {num nCurBytes : ℤ}
    (hsize : ∀ tlv ∈ tlvs, tlv.myData.length < 2 ^ 16)
    (hrest : b.rest = tlvs.flatMap OscarTlv.bytes ++ tail)
    (hlimit : nBytes < 0 ∧ tail = [] ∨
      0 < nBytes ∧ tlvs ≠ [] ∧ nCurBytes + (tlvs.flatMap OscarTlv.bytes).length = nBytes) :
    (readTlvLoop (-1) nBytes b acc num nCurBytes).1 = tlvs.reverse ++ acc ∧
      (readTlvLoop (-1) nBytes b acc num nCurBytes).2.rest = tail := by
  induction tlvs generalizing b acc num nCurBytes with
  | nil =>
    have hnil : nBytes < 0 ∧ tail = [] := hlimit.resolve_right fun h => h.2.1 rfl
    rw [hnil.2] at hrest ⊢
    have hremaining : ¬4 ≤ b.remainingDataToRead := by
      rw [← length_rest, hrest]
      decide
    rw [readTlvLoop, dif_neg hremaining]
    exact ⟨rfl, reads_of_rest_nil hrest⟩
  | cons tlv tlvs ih =>
    rw [flatMap_cons, append_assoc] at hrest
    rw [flatMap_cons, length_append] at hlimit
    obtain ⟨hvalue, hcount, hrest'⟩ := unpackTlv_bytes (hsize tlv mem_cons_self) hrest
    have hlength := tlv.length_bytes
    have hremaining : 4 ≤ b.remainingDataToRead := by
      rw [← length_rest, hrest, length_append]
      omega
    rw [readTlvLoop, dif_pos hremaining]
    simp only [hvalue, hcount]
    by_cases hdone : 0 < (-1 : ℤ) ∧ num + 1 = -1 ∨
        0 < nBytes ∧ nCurBytes + tlv.bytes.length = nBytes
    · rw [if_pos hdone]
      -- The limit is met, so that this was the last value.
      have hnil : tlvs.flatMap bytes = [] :=
        eq_nil_of_length_eq_zero (by omega)
      have htlvs : tlvs = [] := by
        cases tlvs with
        | nil => rfl
        | cons tlv' tlvs =>
          have hpos := congrArg List.length hnil
          rw [flatMap_cons, length_append, tlv'.length_bytes] at hpos
          simp only [length_nil] at hpos
          omega
      subst htlvs
      exact ⟨rfl, hrest'⟩
    · have hmore : ¬(0 < nBytes ∧ nBytes < nCurBytes + tlv.bytes.length) := by omega
      rw [if_neg hdone, if_neg hmore]
      have hne : 0 < nBytes → tlvs ≠ [] := by
        rintro hpos rfl
        simp only [flatMap_nil, length_nil] at hlimit
        omega
      obtain ⟨hvalues, htail⟩ := @ih b.unpackTlv.2.2 (tlv :: acc) (num + 1)
        (nCurBytes + tlv.bytes.length) (fun t ht => hsize t (mem_cons_of_mem tlv ht)) hrest'
        (hlimit.imp_right fun h => ⟨h.1, hne h.1, by omega⟩)
      refine ⟨?_, htail⟩
      rw [hvalues, reverse_cons, append_assoc]
      rfl

/-- **A block of values, whatever follows it.** -/
theorem readTLV_block {b : Buffer} {tlvs : List OscarTlv} {tail : List UInt8}
    (hsize : ∀ tlv ∈ tlvs, tlv.myData.length < 2 ^ 16) (hne : tlvs ≠ [])
    (hrest : b.rest = tlvs.flatMap OscarTlv.bytes ++ tail) :
    let read := b.readTLV (-1) (tlvs.flatMap OscarTlv.bytes).length
    read.2.1 = tlvs.reverse ∧ read.2.2.rest = tail := by
  obtain ⟨tlv, tlvs', rfl⟩ := exists_cons_of_ne_nil hne
  have hlength := tlv.length_bytes
  obtain ⟨hvalues, htail⟩ := @readTlvLoop_block b (tlv :: tlvs') tail
    ((tlv :: tlvs').flatMap bytes).length [] 0 0 hsize hrest
    (.inr ⟨by rw [flatMap_cons, length_append]; omega, hne, by omega⟩)
  rw [append_nil] at hvalues
  exact ⟨hvalues, htail⟩

/-- **Packed values are read again**: all of them, nothing else, and all of the buffer. -/
theorem readTLV_packTLV {tlvs : List OscarTlv} (hdistinct : (tlvs.map OscarTlv.myType).Nodup)
    (hsize : ∀ tlv ∈ tlvs, tlv.myData.length < 2 ^ 16) {b : Buffer} (hb : b.rest = [])
    (hfits : (tlvs.flatMap OscarTlv.bytes).length ≤ b.remainingDataToWrite) :
    let read := (tlvs.foldl packTLV b).readTLV (-1) (-1)
    read.1 = true ∧
      (∀ type data, (TlvList.ofValues read.2.1).find? type = some data ↔ ⟨type, data⟩ ∈ tlvs) ∧
      read.2.2.isEnd = true := by
  have hrest : (tlvs.foldl packTLV b).rest = tlvs.flatMap OscarTlv.bytes ++ [] := by
    have hend : b.data.drop b.posRead = [] := hb
    rw [foldl_packTLV hsize hfits, rest, packRaw_data hfits, packRaw_posRead,
      List.drop_append_of_le_length b.posRead_le, hend, List.nil_append, List.append_nil]
  obtain ⟨hvalues, hend⟩ := @readTlvLoop_block _ tlvs [] (-1) [] 0 0 hsize hrest
    (.inl ⟨by decide, rfl⟩)
  rw [List.append_nil] at hvalues
  refine ⟨rfl, fun type data => ?_, isEnd_iff.mpr hend⟩
  change (TlvList.ofValues (readTlvLoop (-1) (-1) _ [] 0 0).1).find? type = some data ↔ _
  rw [hvalues, TlvList.find?_ofValues, List.mem_reverse]
  rw [List.map_reverse]
  exact List.nodup_reverse.mpr hdistinct

theorem readTLV_packTLV_two :
    let read := ([⟨5, [1, 2]⟩, ⟨1, []⟩].foldl packTLV (ofSize 10)).readTLV (-1) (-1)
    read.1 = true ∧
      (∀ type data, (TlvList.ofValues read.2.1).find? type = some data ↔
        (⟨type, data⟩ : OscarTlv) ∈ [⟨5, [1, 2]⟩, ⟨1, []⟩]) ∧
      read.2.2.isEnd = true :=
  readTLV_packTLV (by decide) (by decide) rfl (by decide)

end Buffer

end Licq
