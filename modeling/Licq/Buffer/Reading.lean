import Licq.Buffer.Basic

/-!
# Buffer/Reading — where the reads of a parser lead

Every read moves the read position by its size, or not at all where less remains.  A parser that
reads one item after the other is described by their sizes: `reads` is the buffer after them, and
`posRead_reads` says where it stands.  `readTLV` is the loop that cuts a packet into its tagged
values; it only moves over bytes that are there.
-/

open Wire

namespace Licq

open List

namespace Buffer

/-! ## A sequence of reads -/

/-- The buffer after reads of these sizes. -/
def reads (sizes : List ℕ) (b : Buffer) : Buffer := sizes.foldl (fun b n => (b.unpack n).2) b

theorem unpack_posRead (b : Buffer) (n : ℕ) :
    (b.unpack n).2.posRead = if b.remainingDataToRead < n then b.posRead else b.posRead + n := by
  rw [unpack]
  split <;> rfl

@[simp] theorem reads_data (sizes : List ℕ) (b : Buffer) : (reads sizes b).data = b.data := by
  induction sizes generalizing b with
  | nil => rfl
  | cons n sizes ih => rw [reads, foldl_cons, ← reads, ih, unpack_data]

/-- **Where a sequence of reads leads**: past all of them, or to a place where less remains than the
greatest of them needs. -/
theorem posRead_reads {sizes : List ℕ} {m : ℕ} (hm : ∀ n ∈ sizes, n ≤ m) (b : Buffer) :
    (sizes.sum ≤ b.remainingDataToRead → (reads sizes b).posRead = b.posRead + sizes.sum) ∧
      (b.remainingDataToRead < sizes.sum → (reads sizes b).remainingDataToRead < m) := by
  induction sizes generalizing b with
  | nil => exact ⟨fun _ => rfl, fun h => absurd h (Nat.not_lt_zero _)⟩
  | cons n sizes ih =>
    have hn : n ≤ m := hm n mem_cons_self
    obtain ⟨hall, hsome⟩ := ih (fun k hk => hm k (mem_cons_of_mem n hk)) (b.unpack n).2
    have hle := b.posRead_le
    have hstep : reads (n :: sizes) b = reads sizes (b.unpack n).2 := rfl
    rcases Nat.lt_or_ge b.remainingDataToRead n with hlt | hge
    · have hpos : (b.unpack n).2.posRead = b.posRead := by rw [unpack_posRead, if_pos hlt]
      simp only [remainingDataToRead, unpack_data, reads_data, hstep, hpos, sum_cons]
        at hall hsome hlt ⊢
      omega
    · have hpos : (b.unpack n).2.posRead = b.posRead + n := by
        rw [unpack_posRead, if_neg (Nat.not_lt.mpr hge)]
      simp only [remainingDataToRead, unpack_data, reads_data, hstep, hpos, sum_cons]
        at hall hsome hge ⊢
      omega

/-- Reads of single bytes take what they are asked for or all that remains. -/
theorem posRead_reads_bytes (n : ℕ) (b : Buffer) :
    (reads (List.replicate n 1) b).posRead = min (b.posRead + n) b.data.length := by
  have hle := b.posRead_le
  obtain ⟨hall, hsome⟩ := @posRead_reads (replicate n 1) 1
    (fun k hk => le_of_eq (eq_of_mem_replicate hk)) b
  have hend := (reads (replicate n 1) b).posRead_le
  simp only [sum_replicate_nat, mul_one, remainingDataToRead, reads_data]
    at hall hsome hend
  omega

/-! ## What remains -/

/-- The bytes that have not been read. -/
def rest (b : Buffer) : List UInt8 := b.data.drop b.posRead

theorem length_rest (b : Buffer) : b.rest.length = b.remainingDataToRead := length_drop

@[simp] theorem rest_ofData (bytes : List UInt8) : (ofData bytes).rest = bytes := rfl

theorem unpack_rest {b : Buffer} {n : ℕ} (h : n ≤ b.rest.length) :
    (b.unpack n).1 = b.rest.take n ∧ (b.unpack n).2.rest = b.rest.drop n := by
  rw [length_rest] at h
  obtain ⟨hbytes, hpos⟩ := unpack_of_le h
  refine ⟨hbytes, ?_⟩
  rw [rest, rest, unpack_data, hpos, drop_drop]

variable {b : Buffer} {n : ℕ}

theorem unpack_of_rest_lt (h : b.rest.length < n) : b.unpack n = ([], b) := by
  rw [length_rest] at h
  rw [unpack, dif_pos h]

theorem unpackRawString_rest (b : Buffer) (size : ℕ) :
    (b.unpackRawString size).2.rest = b.rest.drop size := by
  have hle : min size b.remainingDataToRead ≤ b.rest.length := by
    rw [length_rest]
    exact Nat.min_le_right _ _
  rw [unpackRawString, (unpack_rest hle).2, ← length_rest]
  rcases Nat.le_total size b.rest.length with h | h
  · rw [Nat.min_eq_left h]
  · rw [Nat.min_eq_right h, drop_length, drop_eq_nil_of_le h]

theorem unpackUInt8_rest {c : UInt8} {cs : List UInt8} (h : b.rest = c :: cs) :
    b.unpackUInt8.1 = c ∧ b.unpackUInt8.2.rest = cs := by
  obtain ⟨hbytes, hrest⟩ := @unpack_rest b 1 (by rw [h]; exact Nat.le_add_left _ _)
  have hvalue : valueLE (b.unpack 1).1 = c.toNat := by
    rw [hbytes, h, take_succ_cons, take_zero]
    exact Nat.add_zero _
  refine ⟨?_, ?_⟩
  · change UInt8.ofNat (valueLE (b.unpack 1).1) = c
    rw [hvalue, UInt8.ofNat_toNat]
  · exact hrest.trans (by rw [h]; rfl)

theorem unpackUInt16BE_rest {c d : UInt8} {cs : List UInt8}
    (h : b.rest = c :: d :: cs) :
    b.unpackUInt16BE.1 = UInt16.ofNat (valueBE [c, d]) ∧ b.unpackUInt16BE.2.rest = cs := by
  obtain ⟨hbytes, hrest⟩ := @unpack_rest b 2 (by rw [h]; exact Nat.le_add_left _ _)
  refine ⟨?_, ?_⟩
  · change UInt16.ofNat (valueBE (b.unpack 2).1) = _
    rw [hbytes, h]
    rfl
  · exact hrest.trans (by rw [h]; rfl)

theorem incDataPosRead_isSome {c : ℤ} :
    (b.incDataPosRead c).isSome = true ↔ 0 ≤ b.posRead + c ∧ b.posRead + c ≤ b.data.length := by
  rw [incDataPosRead]
  split
  · exact ⟨fun _ => ‹_›, fun _ => rfl⟩
  · exact ⟨fun h => Bool.noConfusion h, fun h => absurd h ‹_›⟩

theorem incDataPosRead_eq_some {b' : Buffer} {c : ℤ} (h : b.incDataPosRead c = some b') :
    b'.data = b.data ∧ b'.posRead = b.posRead + c := by
  rw [incDataPosRead] at h
  split at h
  · cases h
    exact ⟨rfl, Int.toNat_of_nonneg (And.left ‹_›)⟩
  · cases h

/-- Skipping bytes that remain leaves those behind them. -/
theorem incDataPosRead_rest {b' : Buffer} (h : b.incDataPosRead n = some b') :
    n ≤ b.rest.length ∧ b'.rest = b.rest.drop n := by
  have hsome := incDataPosRead_isSome.mp (Option.isSome_of_mem h)
  obtain ⟨hdata, hpos⟩ := incDataPosRead_eq_some h
  have hpos' : b'.posRead = b.posRead + n := by omega
  rw [length_rest, remainingDataToRead, rest, rest, hdata, hpos', drop_drop]
  exact ⟨by omega, rfl⟩

theorem incDataPosRead_of_le (h : n ≤ b.rest.length) : ∃ b', b.incDataPosRead n = some b' := by
  have hle := b.posRead_le
  rw [length_rest, remainingDataToRead] at h
  exact Option.isSome_iff_exists.mp (incDataPosRead_isSome.mpr (by omega))

/-! ## Tagged values -/

end Buffer

/-- A tagged value; one whose length was wrong has no data. -/
structure OscarTlv where
  myType : UInt16
  myData : List UInt8
  deriving DecidableEq, Repr

namespace Buffer

/-- One round of the loop of `readTLV`: a value, what its header says it takes, and the buffer
behind it. -/
def unpackTlv (b : Buffer) : OscarTlv × ℕ × Buffer :=
  let myType := b.unpackUInt16BE.1
  let b := b.unpackUInt16BE.2
  let myLen := b.unpackUInt16BE.1.toNat
  let b := b.unpackUInt16BE.2
  if b.remainingDataToRead < myLen ∨ myLen < 1 then (⟨myType, []⟩, 4 + myLen, b)
  else (⟨myType, (b.unpack myLen).1⟩, 4 + myLen, (b.unpack myLen).2)

theorem unpack_remaining_le (b : Buffer) (n : ℕ) :
    (b.unpack n).2.remainingDataToRead ≤ b.remainingDataToRead := by
  rw [remainingDataToRead, remainingDataToRead, unpack_data, unpack_posRead]
  split <;> omega

theorem unpackTlv_remaining {b : Buffer} (h : 4 ≤ b.remainingDataToRead) :
    b.unpackTlv.2.2.remainingDataToRead < b.remainingDataToRead := by
  have htype : (b.unpack 2).2.remainingDataToRead + 2 = b.remainingDataToRead := by
    rw [remainingDataToRead, unpack_data, unpack_posRead, if_neg (by omega)]
    rw [remainingDataToRead] at h ⊢
    omega
  have hlen := (b.unpack 2).2.unpack_remaining_le 2
  simp only [unpackTlv]
  split
  · exact lt_of_le_of_lt hlen (by omega)
  · exact lt_of_le_of_lt (unpack_remaining_le _ _) (lt_of_le_of_lt hlen (by omega))

/-- The loop of `readTLV`, which ends because every round takes the header of a value; the values
are kept newest first, so that one replaces an earlier one of its type. -/
def readTlvLoop (nCount nBytes : ℤ) (b : Buffer) (tlvs : List OscarTlv) (num nCurBytes : ℤ) :
    List OscarTlv × Buffer :=
  if _ : 4 ≤ b.remainingDataToRead then
    let tlv := b.unpackTlv
    let num := num + 1
    let nCurBytes := nCurBytes + tlv.2.1
    if 0 < nCount ∧ num = nCount ∨ 0 < nBytes ∧ nCurBytes = nBytes then
      (tlv.1 :: tlvs, tlv.2.2)
    else if 0 < nBytes ∧ nBytes < nCurBytes then (tlv.1 :: tlvs, tlv.2.2)
    else readTlvLoop nCount nBytes tlv.2.2 (tlv.1 :: tlvs) num nCurBytes
  else
    -- the bytes that were asked for and are not there
    (tlvs, reads (List.replicate (nBytes - nCurBytes).toNat 1) b)
termination_by b.remainingDataToRead
decreasing_by exact unpackTlv_remaining ‹_›

/-- `readTLV`: its result, the values and the buffer behind them. -/
def readTLV (b : Buffer) (nCount nBytes : ℤ) : Bool × List OscarTlv × Buffer :=
  if nCount = 0 then (false, [], b)
  else (true, readTlvLoop nCount nBytes b [] 0 0)

/-- `UnpackTLV`: the data of the value of a type in a buffer of its own. -/
def unpackTLV (tlvs : List OscarTlv) (nType : UInt16) : Buffer :=
  match tlvs.find? fun tlv => tlv.myType == nType with
  | some tlv => (ofSize tlv.myData.length).packRaw tlv.myData
  | none => ofSize 0

theorem unpackTlv_data (b : Buffer) : b.unpackTlv.2.2.data = b.data := by
  simp only [unpackTlv]
  split
  · exact (unpack_data _ _).trans (unpack_data _ _)
  · exact (unpack_data _ _).trans ((unpack_data _ _).trans (unpack_data _ _))

/-- **Reading tagged values stays within the packet**: the data is the same, and the read position
is at most its end. -/
theorem readTlvLoop_data (nCount nBytes : ℤ) (b : Buffer) (tlvs : List OscarTlv)
    (num nCurBytes : ℤ) :
    (readTlvLoop nCount nBytes b tlvs num nCurBytes).2.data = b.data := by
  fun_induction readTlvLoop nCount nBytes b tlvs num nCurBytes with
  | case1 => exact unpackTlv_data _
  | case2 => exact unpackTlv_data _
  | case3 b tlvs num nCurBytes h tlv num' nCurBytes' hdone hmore ih =>
    exact ih.trans (unpackTlv_data b)
  | case4 => exact reads_data _ _

end Buffer

end Licq
