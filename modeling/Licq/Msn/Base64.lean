import Licq.Text.Base64

/-!
# Msn/Base64 — the base64 encoder and decoder of the MSN plugin

`MSN_Base64Encode` and `MSN_Base64Decode` work on blocks of three bytes and four digits, and handle
what is left at the end on their own.  The encoder writes a digit too many there, and the decoder
keeps the length in an `int`.

The **main result** `encodesDecodes_iff` says for which texts both are right.
-/

namespace Licq.Msn

open Text List

/-! ## The two functions -/

/-- The digits of `char_array_3`. -/
def encodeBlock (a b c : UInt8) : List UInt8 :=
  [base64Digit (a.toNat / 4), base64Digit (a.toNat % 4 * 16 + b.toNat / 16),
    base64Digit (b.toNat % 16 * 4 + c.toNat / 64), base64Digit (c.toNat % 64)]

/-- `MSN_Base64Encode`; of what is left at the end, one digit more than twice as many as bytes. -/
def msnBase64Encode : List UInt8 → List UInt8
  | [] => []
  -- `for (j = 0; (j <= i + 1); j++)`, with `i` the bytes that are left
  | [a] => (encodeBlock a 0 0).take 3 ++ asciiBytes ['=']
  | [a, b] => (encodeBlock a b 0).take 4
  | a :: b :: c :: s => encodeBlock a b c ++ msnBase64Encode s

/-- `is_base64` -/
def isBase64 (c : UInt8) : Bool := c ∈ base64Digits

/-- `base64_chars.find`, in an `unsigned char`. -/
def base64Find (c : UInt8) : ℕ :=
  if c ∈ base64Digits then base64Digits.findIdx (· = c) else 255

/-- The bytes of `char_array_4`. -/
def decodeBlock (quad : List UInt8) : List UInt8 :=
  let d (j : ℕ) : ℕ := base64Find (quad.getD j 0)
  [UInt8.ofNat (d 0 * 4 + d 1 / 16 % 4), UInt8.ofNat (d 1 % 16 * 16 + d 2 / 4 % 16),
    UInt8.ofNat (d 2 % 4 * 64 + d 3)]

/-- The loop of the decoder, over what is left of the text; none where `nLen--` overflows. -/
def decodeLoop (nLen : ℤ) : List UInt8 → List UInt8 → List UInt8 →
    Option (List UInt8 × List UInt8)
  -- behind the text there is a NUL
  | [], quad, ret => if nLen = -2 ^ 31 then none else some (quad, ret)
  | c :: s, quad, ret =>
    if nLen = -2 ^ 31 then none
    else if nLen = 0 ∨ isBase64 c = false then some (quad, ret)
    else if quad.length = 3 then decodeLoop (nLen - 1) s [] (ret ++ decodeBlock (quad ++ [c]))
    else decodeLoop (nLen - 1) s (quad ++ [c]) ret

/-- `MSN_Base64Decode` -/
def msnBase64Decode (strIn : List UInt8) : Option (List UInt8) :=
  (decodeLoop ((strIn.length : ℤ).bmod (2 ^ 32)) strIn [] []).map fun (quad, ret) =>
    ret ++ (decodeBlock quad).take (quad.length - 1)

example : msnBase64Decode (asciiBytes ['T', 'W', 'F', 'u']) = some (asciiBytes ['M', 'a', 'n']) := by
  decide

/-- The encoder gives the standard encoding, and the decoder gives the text back. -/
def EncodesDecodes (s : List UInt8) : Prop :=
  msnBase64Encode s = base64 s ∧ msnBase64Decode (msnBase64Encode s) = some s

/-! ## The encoder -/

theorem encodeBlock_eq (a b c : UInt8) :
    encodeBlock a b c = base64Group (a.toNat * 2 ^ 16 + b.toNat * 2 ^ 8 + c.toNat) :=
  (base64Group_eq a b c).symm

/-- The digit that stands where there is to be a `=`. -/
theorem base64Digit_zero_ne : base64Digit 0 ≠ UInt8.ofNat '='.toNat := by decide

/-- **The encoder is right** for whole blocks. -/
theorem msnBase64Encode_eq_iff (s : List UInt8) :
    msnBase64Encode s = base64 s ↔ s.length % 3 = 0 := by
  induction s using msnBase64Encode.induct with
  | case1 => exact iff_of_true rfl rfl
  | case2 a =>
    refine iff_of_false (fun h => ?_) (by simp)
    exact base64Digit_zero_ne (Option.some.inj (congrArg (·[2]?) h))
  | case3 a b =>
    refine iff_of_false (fun h => ?_) (by simp)
    exact base64Digit_zero_ne (Option.some.inj (congrArg (·[3]?) h))
  | case4 a b c s ih =>
    rw [msnBase64Encode, base64, encodeBlock_eq, append_cancel_left_eq, ih]
    simp only [length_cons]
    omega

theorem isBase64_of_mem_encodeBlock {a b c x : UInt8} (h : x ∈ encodeBlock a b c) :
    isBase64 x = true := by
  have hdigit : ∀ n < 64, isBase64 (base64Digit n) = true := by decide +kernel
  have ha := UInt8.toNat_lt a
  have hb := UInt8.toNat_lt b
  have hc := UInt8.toNat_lt c
  simp only [encodeBlock, mem_cons, not_mem_nil, or_false] at h
  obtain rfl | rfl | rfl | rfl := h <;> exact hdigit _ (by omega)

/-- Whole blocks are encoded with digits alone. -/
theorem isBase64_of_mem_msnBase64Encode {s : List UInt8} (hs : s.length % 3 = 0) {x : UInt8}
    (h : x ∈ msnBase64Encode s) : isBase64 x = true := by
  induction s using msnBase64Encode.induct with
  | case1 => exact absurd h not_mem_nil
  | case2 a => exact absurd hs (by simp)
  | case3 a b => exact absurd hs (by simp)
  | case4 a b c s ih =>
    rw [msnBase64Encode, mem_append] at h
    obtain h | h := h
    · exact isBase64_of_mem_encodeBlock h
    · refine ih ?_ h
      simp only [length_cons] at hs
      omega

/-! ## The decoder -/

/-- **Four digits are the three bytes** that they were made of. -/
theorem decodeBlock_encodeBlock (a b c : UInt8) : decodeBlock (encodeBlock a b c) = [a, b, c] := by
  have hfind : ∀ n < 64, base64Find (base64Digit n) = n := by decide +kernel
  have ha := UInt8.toNat_lt a
  have hb := UInt8.toNat_lt b
  have hc := UInt8.toNat_lt c
  have h₀ : base64Find ((encodeBlock a b c).getD 0 0) = a.toNat / 4 := hfind _ (by omega)
  have h₁ : base64Find ((encodeBlock a b c).getD 1 0) = a.toNat % 4 * 16 + b.toNat / 16 :=
    hfind _ (by omega)
  have h₂ : base64Find ((encodeBlock a b c).getD 2 0) = b.toNat % 16 * 4 + c.toNat / 64 :=
    hfind _ (by omega)
  have h₃ : base64Find ((encodeBlock a b c).getD 3 0) = c.toNat % 64 := hfind _ (by omega)
  have hbyte : ∀ {n : ℕ} {x : UInt8}, n = x.toNat → UInt8.ofNat n = x := fun h =>
    h ▸ UInt8.ofNat_toNat
  simp only [decodeBlock, h₀, h₁, h₂, h₃]
  refine congrArg₂ _ (hbyte ?_) (congrArg₂ _ (hbyte ?_) (congrArg₂ _ (hbyte ?_) rfl)) <;> omega

/-- One round of the loop. -/
theorem decodeLoop_cons {nLen : ℤ} {c : UInt8} (hover : nLen ≠ -2 ^ 31) (hzero : nLen ≠ 0)
    (hc : isBase64 c = true) (s quad ret : List UInt8) :
    decodeLoop nLen (c :: s) quad ret =
      if quad.length = 3 then decodeLoop (nLen - 1) s [] (ret ++ decodeBlock (quad ++ [c]))
      else decodeLoop (nLen - 1) s (quad ++ [c]) ret := by
  rw [decodeLoop, if_neg hover, if_neg]
  simp [hzero, hc]

/-- **Whole blocks are decoded** where the length fits. -/
theorem decodeLoop_msnBase64Encode {s : List UInt8} (hs : s.length % 3 = 0) {nLen : ℤ}
    (hlen : nLen = (msnBase64Encode s).length) (ret : List UInt8) :
    decodeLoop nLen (msnBase64Encode s) [] ret = some ([], ret ++ s) := by
  induction s using msnBase64Encode.induct generalizing nLen ret with
  | case1 =>
    rw [hlen, append_nil]
    rfl
  | case2 a => exact absurd hs (by simp)
  | case3 a b => exact absurd hs (by simp)
  | case4 a b c s ih =>
    have hlength : (encodeBlock a b c ++ msnBase64Encode s).length = 4 + (msnBase64Encode s).length :=
      length_append
    have hdigit : ∀ {x : UInt8}, x ∈ encodeBlock a b c → isBase64 x = true :=
      isBase64_of_mem_encodeBlock
    have hblock := decodeBlock_encodeBlock a b c
    have ih := @ih (by simp only [length_cons] at hs; omega) (nLen - 1 - 1 - 1 - 1)
      (by rw [msnBase64Encode, hlength] at hlen; omega) (ret ++ [a, b, c])
    rw [msnBase64Encode, hlength] at hlen
    rw [msnBase64Encode]
    obtain ⟨d₀, d₁, d₂, d₃, hd⟩ : ∃ d₀ d₁ d₂ d₃, encodeBlock a b c = [d₀, d₁, d₂, d₃] :=
      ⟨_, _, _, _, rfl⟩
    rw [hd] at hdigit hblock ⊢
    simp only [cons_append, nil_append]
    rw [decodeLoop_cons (by omega) (by omega) (hdigit (by simp)), if_neg (by simp),
      decodeLoop_cons (by omega) (by omega) (hdigit (by simp)), if_neg (by simp),
      decodeLoop_cons (by omega) (by omega) (hdigit (by simp)), if_neg (by simp),
      decodeLoop_cons (by omega) (by omega) (hdigit (by simp)), if_pos (by simp)]
    change decodeLoop _ _ [] (ret ++ decodeBlock [d₀, d₁, d₂, d₃]) = _
    rw [hblock, ih, append_assoc]
    rfl

/-- A negative length counts down until it overflows. -/
theorem decodeLoop_overflows {s : List UInt8} (hdigits : ∀ c ∈ s, isBase64 c = true) {nLen : ℤ}
    (hneg : nLen < 0) (hlow : -2 ^ 31 ≤ nLen) (hlen : nLen + 2 ^ 31 ≤ s.length)
    (quad ret : List UInt8) : decodeLoop nLen s quad ret = none := by
  induction s generalizing nLen quad ret with
  | nil =>
    have hover : nLen = -2 ^ 31 := by
      rw [length_nil] at hlen
      omega
    rw [decodeLoop, if_pos hover]
  | cons c s ih =>
    rw [length_cons] at hlen
    by_cases hover : nLen = -2 ^ 31
    · rw [decodeLoop, if_pos hover]
    · have ih := fun quad ret =>
        @ih (fun x hx => hdigits x (mem_cons_of_mem c hx)) (nLen - 1) (by omega) (by omega)
          (by omega) quad ret
      rw [decodeLoop_cons hover (by omega) (hdigits c mem_cons_self), ih, ih, ite_self]

/-- **What the loop reads** is bounded by the length: three digits make four bytes. -/
theorem length_decodeLoop {s : List UInt8} {nLen : ℤ} (hlen : 0 ≤ nLen) {quad ret quad' ret' : List UInt8}
    (hquad : quad.length ≤ 3) (h : decodeLoop nLen s quad ret = some (quad', ret')) :
    quad'.length ≤ 3 ∧
      4 * (ret'.length : ℤ) + 3 * quad'.length ≤ 4 * ret.length + 3 * quad.length + 3 * nLen := by
  induction s generalizing nLen quad ret with
  | nil =>
    rw [decodeLoop, if_neg (by omega)] at h
    obtain ⟨rfl, rfl⟩ := Prod.mk.inj (Option.some.inj h)
    exact ⟨hquad, by omega⟩
  | cons c s ih =>
    rw [decodeLoop, if_neg (by omega)] at h
    split_ifs at h with hstop hfull
    · obtain ⟨rfl, rfl⟩ := Prod.mk.inj (Option.some.inj h)
      exact ⟨hquad, by omega⟩
    · rw [not_or] at hstop
      obtain ⟨hle, hbound⟩ := ih (by omega) (by simp) h
      refine ⟨hle, ?_⟩
      have hblock : (decodeBlock (quad ++ [c])).length = 3 := rfl
      rw [length_append, hblock, length_nil] at hbound
      omega
    · rw [not_or] at hstop
      have hmore : (quad ++ [c]).length = quad.length + 1 := length_append
      obtain ⟨hle, hbound⟩ := ih (by omega) (by omega) h
      rw [hmore] at hbound
      exact ⟨hle, by omega⟩

/-- The decoder gives no more bytes than three for every four digits that it counts. -/
theorem length_msnBase64Decode {strIn ret : List UInt8} (h : msnBase64Decode strIn = some ret)
    (hlen : 0 ≤ (strIn.length : ℤ).bmod (2 ^ 32)) :
    4 * (ret.length : ℤ) ≤ 3 * (strIn.length : ℤ).bmod (2 ^ 32) := by
  rw [msnBase64Decode, Option.map_eq_some_iff] at h
  obtain ⟨⟨quad, ret'⟩, hloop, rfl⟩ := h
  obtain ⟨hle, hbound⟩ := length_decodeLoop hlen (by simp) hloop
  have htail : ((decodeBlock quad).take (quad.length - 1)).length ≤ quad.length - 1 :=
    length_take_le ..
  simp only [length_append, length_nil] at hbound ⊢
  omega

theorem length_msnBase64Encode {s : List UInt8} (hs : s.length % 3 = 0) :
    3 * (msnBase64Encode s).length = 4 * s.length := by
  rw [(msnBase64Encode_eq_iff s).mpr hs, length_base64]
  omega

/-- **Both are right** if and only if the text is made of whole blocks and its encoding has a length
that an `int` holds. -/
theorem encodesDecodes_iff (s : List UInt8) :
    EncodesDecodes s ↔ s.length % 3 = 0 ∧ 4 * (s.length / 3) < 2 ^ 31 := by
  rw [EncodesDecodes, msnBase64Encode_eq_iff]
  refine and_congr_right fun hs => ?_
  have hlength := length_msnBase64Encode hs
  have hlow := @Int.le_bmod (msnBase64Encode s).length (2 ^ 32) (by decide)
  have hhigh := @Int.bmod_lt (msnBase64Encode s).length (2 ^ 32) (by decide)
  constructor
  · intro hdecode
    by_contra hlarge
    rcases Int.lt_or_le (((msnBase64Encode s).length : ℤ).bmod (2 ^ 32)) 0 with hneg | hpos
    · have hdigits : ∀ c ∈ msnBase64Encode s, isBase64 c = true := fun c hc =>
        isBase64_of_mem_msnBase64Encode hs hc
      have hnone := decodeLoop_overflows hdigits hneg (by omega) (by omega) [] []
      rw [msnBase64Decode, hnone] at hdecode
      cases hdecode
    · have hbound := length_msnBase64Decode hdecode hpos
      omega
  · intro hsmall
    have hlen : ((msnBase64Encode s).length : ℤ).bmod (2 ^ 32) = (msnBase64Encode s).length :=
      Int.bmod_eq_of_le (by omega) (by omega)
    rw [msnBase64Decode, decodeLoop_msnBase64Encode hs hlen]
    simp

/-- One byte at the end is encoded with a digit too many, and comes back with a NUL. -/
theorem not_encodesDecodes_oneByte : ¬ EncodesDecodes [77] := by
  rw [EncodesDecodes]
  decide +kernel

end Licq.Msn
