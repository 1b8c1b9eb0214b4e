import Licq.Icq.Tlv

/-!
# Icq/TlvLimit — tagged values up to a limit

A block of tagged values in the middle of a packet has its size in front of it, which is the limit
in bytes that `readTLV` is called with.  Its loop looks at the limit behind a value only, and takes
zero for no limit.

The **main result** `keepsLimit_iff` says where the limit is kept.
-/

open Wire

namespace Licq.Buffer

/-- What a limit of `n` bytes asks for: a block of this size is read, value by value, and what
follows it is left; and whatever comes next, nothing behind the limit is read. -/
structure KeepsLimit (b : Buffer) (n : ℕ) : Prop where
  block (tlvs : List OscarTlv) (tail : List UInt8)
    (hsize : ∀ tlv ∈ tlvs, tlv.myData.length < 2 ^ 16)
    (hrest : b.rest = tlvs.flatMap OscarTlv.bytes ++ tail)
    (hn : (tlvs.flatMap OscarTlv.bytes).length = n) :
    (b.readTLV (-1) n).2.1 = tlvs.reverse ∧ (b.readTLV (-1) n).2.2.rest = tail
  within : (b.readTLV (-1) n).2.2.posRead ≤ b.posRead + n

/-- The size of a value by its header. -/
def tlvSize (s : List UInt8) : ℕ := 4 + valueBE ((s.drop 2).take 2)

/-- From value to value, a header that starts before the limit ends before it, and so does the data
where the packet has it. -/
def EndsWithin (n : ℕ) (s : List UInt8) : Prop :=
  4 ≤ s.length → 4 ≤ n ∧ (tlvSize s ≤ s.length → tlvSize s ≤ n ∧
    ((_ : tlvSize s < n) → EndsWithin (n - tlvSize s) (s.drop (tlvSize s))))
termination_by n
decreasing_by
  rw [tlvSize] at *
  omega

variable {b : Buffer} {n : ℕ}

/-! ## Positions -/

theorem posRead_add_length_rest (b : Buffer) : b.posRead + b.rest.length = b.data.length := by
  have hle := b.posRead_le
  rw [length_rest, remainingDataToRead]
  omega

theorem posRead_le_reads_ones (b : Buffer) (m : ℕ) :
    (reads (List.replicate m 1) b).posRead ≤ b.posRead + m := by
  induction m generalizing b with
  | zero => exact Nat.le_refl _
  | succ m ih =>
    have hone : (b.unpack 1).2.posRead ≤ b.posRead + 1 := by
      rw [unpack_posRead]
      split <;> omega
    exact (ih (b.unpack 1).2).trans (by omega)

theorem le_posRead_reads (b : Buffer) (sizes : List ℕ) : b.posRead ≤ (reads sizes b).posRead := by
  induction sizes generalizing b with
  | nil => exact Nat.le_refl _
  | cons m sizes ih =>
    refine le_trans ?_ (ih (b.unpack m).2)
    rw [unpack_posRead]
    split <;> omega

/-- One round, by the bytes that come next. -/
theorem unpackTlv_rest (h : 4 ≤ b.rest.length) : b.unpackTlv.2.1 = tlvSize b.rest ∧
    b.unpackTlv.2.2.rest =
      b.rest.drop (if tlvSize b.rest ≤ b.rest.length then tlvSize b.rest else 4) := by
  obtain ⟨-, htype⟩ := unpack_rest (show 2 ≤ b.rest.length by omega)
  have hlength : 2 ≤ (b.unpack 2).2.rest.length := by
    rw [htype, List.length_drop]
    omega
  obtain ⟨hlen, hdata⟩ := unpack_rest hlength
  rw [htype] at hlen hdata
  rw [List.drop_drop] at hdata
  have hvalue : ((b.unpackUInt16BE.2).unpackUInt16BE.1).toNat =
      valueBE ((b.rest.drop 2).take 2) := by
    change (UInt16.ofNat (valueBE ((b.unpack 2).2.unpack 2).1)).toNat = _
    rw [hlen]
    refine UInt16.toNat_ofNat_of_lt' ((valueLE_lt _).trans_le ?_)
    rw [List.length_reverse, List.length_take]
    exact Nat.pow_le_pow_right (by decide) (Nat.min_le_left _ _)
  have hrest : (b.unpackUInt16BE.2).unpackUInt16BE.2.rest = b.rest.drop 4 := hdata
  have hremaining : (b.unpackUInt16BE.2).unpackUInt16BE.2.remainingDataToRead =
      b.rest.length - 4 := by rw [← length_rest, hrest, List.length_drop]
  have hsize : tlvSize b.rest = 4 + valueBE ((b.rest.drop 2).take 2) := rfl
  simp only [unpackTlv, hvalue, hremaining, ← hsize]
  split_ifs with hnone hfits hfits
  · refine ⟨rfl, hrest.trans ?_⟩
    rw [show tlvSize b.rest = 4 by omega]
  · exact ⟨rfl, hrest⟩
  · refine ⟨rfl, ?_⟩
    obtain ⟨-, htail⟩ := unpack_rest
      (show valueBE ((b.rest.drop 2).take 2) ≤ (b.unpackUInt16BE.2).unpackUInt16BE.2.rest.length by
        rw [length_rest, hremaining]
        omega)
    rw [htail, hrest, List.drop_drop, hsize]
  · omega

/-- Reading only moves on. -/
theorem le_posRead_unpackTlv (h : 4 ≤ b.rest.length) : b.posRead + 4 ≤ b.unpackTlv.2.2.posRead := by
  have hrest := congrArg List.length (unpackTlv_rest h).2
  have hb := posRead_add_length_rest b
  have hb' := posRead_add_length_rest b.unpackTlv.2.2
  have hsize : 4 ≤ tlvSize b.rest := Nat.le_add_right _ _
  rw [unpackTlv_data] at hb'
  rw [List.length_drop] at hrest
  split_ifs at hrest <;> omega

theorem le_posRead_readTlvLoop (nCount nBytes : ℤ) (b : Buffer) (tlvs : List OscarTlv)
    (num nCurBytes : ℤ) :
    b.posRead ≤ (readTlvLoop nCount nBytes b tlvs num nCurBytes).2.posRead := by
  fun_induction readTlvLoop nCount nBytes b tlvs num nCurBytes with
  | case1 b tlvs num nCurBytes h =>
    exact (Nat.le_add_right _ 4).trans (le_posRead_unpackTlv (by rwa [length_rest]))
  | case2 b tlvs num nCurBytes h =>
    exact (Nat.le_add_right _ 4).trans (le_posRead_unpackTlv (by rwa [length_rest]))
  | case3 b tlvs num nCurBytes h tlv num' nCurBytes' hdone hmore ih =>
    exact ((Nat.le_add_right _ 4).trans (le_posRead_unpackTlv (by rwa [length_rest]))).trans ih
  | case4 => exact le_posRead_reads _ _

/-! ## The limit -/

theorem endsWithin_iff (n : ℕ) (s : List UInt8) : EndsWithin n s ↔
    (4 ≤ s.length → 4 ≤ n ∧ (tlvSize s ≤ s.length → tlvSize s ≤ n ∧
      (tlvSize s < n → EndsWithin (n - tlvSize s) (s.drop (tlvSize s))))) := by
  rw [EndsWithin]

/-- Where one round leads. -/
theorem posRead_unpackTlv (h : 4 ≤ b.rest.length) : b.unpackTlv.2.2.posRead =
    b.posRead + if tlvSize b.rest ≤ b.rest.length then tlvSize b.rest else 4 := by
  have hrest := congrArg List.length (unpackTlv_rest h).2
  have hb := posRead_add_length_rest b
  have hb' := posRead_add_length_rest b.unpackTlv.2.2
  rw [unpackTlv_data] at hb'
  rw [List.length_drop] at hrest
  split_ifs at hrest ⊢ <;> omega

/-- One round with a limit of which `m` bytes are left. -/
theorem readTlvLoop_round {nBytes num nCurBytes : ℤ} {tlvs : List OscarTlv} {m : ℕ} (hm : 0 < m)
    (hleft : nBytes = nCurBytes + m) (hcur : 0 ≤ nCurBytes) (h : 4 ≤ b.rest.length) :
    readTlvLoop (-1) nBytes b tlvs num nCurBytes =
      if tlvSize b.rest < m then
        readTlvLoop (-1) nBytes b.unpackTlv.2.2 (b.unpackTlv.1 :: tlvs) (num + 1)
          (nCurBytes + tlvSize b.rest)
      else (b.unpackTlv.1 :: tlvs, b.unpackTlv.2.2) := by
  rw [readTlvLoop, dif_pos (by rwa [← length_rest])]
  simp only [(unpackTlv_rest h).1]
  by_cases hmore : tlvSize b.rest < m
  · rw [if_pos hmore, if_neg (by omega), if_neg (by omega)]
  · rw [if_neg hmore]
    by_cases heq : tlvSize b.rest = m
    · rw [if_pos (by omega)]
    · rw [if_neg (by omega), if_pos (by omega)]

/-- **How far the loop reads** with a limit of which `m` bytes are left. -/
theorem readTlvLoop_within_iff {nBytes : ℤ} (b : Buffer) (tlvs : List OscarTlv)
    (num nCurBytes : ℤ) {m : ℕ} (hm : 0 < m) (hleft : nBytes = nCurBytes + m)
    (hcur : 0 ≤ nCurBytes) :
    (readTlvLoop (-1) nBytes b tlvs num nCurBytes).2.posRead ≤ b.posRead + m ↔
      EndsWithin m b.rest := by
  induction hremaining : b.remainingDataToRead using Nat.strong_induction_on
    generalizing b tlvs num nCurBytes m with
  | _ remaining ih =>
    subst hremaining
    rw [endsWithin_iff]
    by_cases h : 4 ≤ b.rest.length
    · have hrest := (unpackTlv_rest h).2
      have hpos := posRead_unpackTlv h
      have hfour : 4 ≤ tlvSize b.rest := Nat.le_add_right _ _
      rw [readTlvLoop_round hm hleft hcur h, forall_prop_of_true h]
      by_cases hfits : tlvSize b.rest ≤ b.rest.length
      · rw [if_pos hfits] at hpos hrest
        rw [forall_prop_of_true hfits]
        by_cases hmore : tlvSize b.rest < m
        · have hnext := @ih _ (unpackTlv_remaining (by rwa [← length_rest])) b.unpackTlv.2.2
            (b.unpackTlv.1 :: tlvs) (num + 1) (nCurBytes + tlvSize b.rest) (m - tlvSize b.rest)
            (by omega) (by omega) (by omega) rfl
          rw [if_pos hmore, forall_prop_of_true hmore, ← hrest, ← hnext, hpos]
          omega
        · rw [if_neg hmore, hpos, forall_prop_of_false hmore, and_true]
          omega
      · -- The data is not there: all that is left is within the limit, or the loop ends.
        rw [if_neg hfits] at hpos
        rw [forall_prop_of_false hfits, and_true]
        by_cases hmore : tlvSize b.rest < m
        · have hend := posRead_add_length_rest b
          have hle := (readTlvLoop (-1) nBytes b.unpackTlv.2.2 (b.unpackTlv.1 :: tlvs) (num + 1)
            (nCurBytes + tlvSize b.rest)).2.posRead_le
          rw [readTlvLoop_data, unpackTlv_data] at hle
          rw [if_pos hmore]
          omega
        · rw [if_neg hmore, hpos]
          omega
    · rw [length_rest] at h
      rw [readTlvLoop, dif_neg h, length_rest, show (nBytes - nCurBytes).toNat = m by omega]
      exact iff_of_true (posRead_le_reads_ones b m) fun hlength => absurd hlength h

/-- With zero for the limit the loop reads on as long as there is a header. -/
theorem readTLV_zero_within_iff (b : Buffer) :
    (b.readTLV (-1) 0).2.2.posRead ≤ b.posRead ↔ b.rest.length < 4 := by
  have hread : (b.readTLV (-1) 0).2 = readTlvLoop (-1) 0 b [] 0 0 := rfl
  rw [hread]
  by_cases h : 4 ≤ b.rest.length
  · refine iff_of_false ?_ (by omega)
    have hfirst := le_posRead_unpackTlv h
    have hloop := le_posRead_readTlvLoop (-1) 0 b.unpackTlv.2.2 [b.unpackTlv.1] (0 + 1)
      (0 + (b.unpackTlv.2.1 : ℤ))
    rw [readTlvLoop, dif_pos (by rwa [← length_rest])]
    simp only [Int.lt_irrefl, false_and, or_false, if_false]
    rw [if_neg (by omega)]
    omega
  · refine iff_of_true ?_ (by omega)
    rw [length_rest] at h
    rw [readTlvLoop, dif_neg h]
    exact posRead_le_reads_ones b 0

/-- **The limit is kept** where no value reaches beyond it; with the limit zero, where there is
none. -/
theorem keepsLimit_iff (b : Buffer) (n : ℕ) : b.KeepsLimit n ↔ EndsWithin n b.rest := by
  obtain rfl | hn := Nat.eq_zero_or_pos n
  · have hzero : EndsWithin 0 b.rest ↔ b.rest.length < 4 := by
      rw [endsWithin_iff]
      omega
    rw [hzero, ← readTLV_zero_within_iff]
    refine ⟨fun h => h.within, fun h => ⟨fun tlvs tail _ hrest hlength => ?_, h⟩⟩
    obtain rfl : tlvs = [] := by
      cases tlvs with
      | nil => rfl
      | cons tlv tlvs =>
        rw [List.flatMap_cons, List.length_append, tlv.length_bytes] at hlength
        omega
    have hlt : ¬ 4 ≤ b.remainingDataToRead := by
      rw [← length_rest]
      exact Nat.not_le.mpr ((readTLV_zero_within_iff b).mp h)
    have hread : (b.readTLV (-1) 0).2 = ([], b) := by
      change readTlvLoop (-1) 0 b [] 0 0 = _
      rw [readTlvLoop, dif_neg hlt]
      rfl
    rw [Nat.cast_zero, hread]
    exact ⟨rfl, hrest⟩
  · have hwithin := readTlvLoop_within_iff b [] 0 0 hn (zero_add (n : ℤ)).symm (Int.le_refl 0)
    refine ⟨fun h => hwithin.mp h.within, fun h => ⟨fun tlvs tail hsize hrest hlength => ?_,
      hwithin.mpr h⟩⟩
    subst hlength
    refine readTLV_block hsize ?_ hrest
    rintro rfl
    exact absurd hn (Nat.lt_irrefl 0)

/-- A block of no bytes, and a value behind it. -/
theorem not_keepsLimit_zero : ¬ (ofData [0, 1, 0, 1, 7]).KeepsLimit 0 := by
  intro h
  have hwithin := (readTLV_zero_within_iff _).mp h.within
  rw [rest_ofData] at hwithin
  exact absurd hwithin (by decide)

end Licq.Buffer
