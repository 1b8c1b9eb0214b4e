import Mathlib.Data.UInt
import Mathlib.Tactic.Ring

/-!
# Wire/Words — bytes of machine words

Words are cut into bytes and put together again: `byteAt k w` is a byte of a 64-bit word, `wordOf`
the 32-bit word of four bytes and `bytesLE`/`valueLE` go between a number and its little-endian
form.  The
bytes of a 64-bit word below its 32nd bit are those of its low half, so that arithmetic on the low
halves (`UInt64.toUInt32`) says all there is to say about them.
-/

namespace Wire

/-! ## Bytes of a word -/

/-- Byte `k` of a word, the least significant one first. -/
def byteAt (k : ℕ) (w : UInt64) : UInt8 := (w >>> UInt64.ofNat (8 * k)).toUInt8

/-- The word of four bytes, the most significant one first. -/
def wordOf (b₃ b₂ b₁ b₀ : UInt8) : UInt32 :=
  b₃.toUInt32 <<< 24 ||| b₂.toUInt32 <<< 16 ||| b₁.toUInt32 <<< 8 ||| b₀.toUInt32

/-- A 32-bit `int` converted to a 64-bit `unsigned long`. -/
def signExtend (w : UInt32) : UInt64 := w.toInt32.toInt64.toUInt64

theorem toNat_byteAt {k : ℕ} (h : k < 8) (w : UInt64) :
    (byteAt k w).toNat = w.toNat / 2 ^ (8 * k) % 2 ^ 8 := by
  have hk : 8 * k % 2 ^ 64 % 64 = 8 * k := by omega
  simp only [byteAt, UInt64.toNat_toUInt8, UInt64.toNat_shiftRight, UInt64.toNat_ofNat', hk,
    Nat.shiftRight_eq_div_pow]

theorem toNat_wordOf (b₃ b₂ b₁ b₀ : UInt8) : (wordOf b₃ b₂ b₁ b₀).toNat =
    b₃.toNat * 2 ^ 24 + (b₂.toNat * 2 ^ 16 + (b₁.toNat * 2 ^ 8 + b₀.toNat)) := by
  have h₃ := b₃.toNat_lt
  have h₂ := b₂.toNat_lt
  have h₁ := b₁.toNat_lt
  have h₀ := b₀.toNat_lt
  have shift : ∀ (b : UInt8) (s : ℕ), s ≤ 24 → b.toNat <<< s % 2 ^ 32 = b.toNat <<< s := by
    intro b s hs
    rw [Nat.shiftLeft_eq]
    refine Nat.mod_eq_of_lt ?_
    calc b.toNat * 2 ^ s < 2 ^ 8 * 2 ^ s := Nat.mul_lt_mul_of_pos_right b.toNat_lt (Nat.two_pow_pos s)
      _ ≤ 2 ^ 8 * 2 ^ 24 := Nat.mul_le_mul_left _ (Nat.pow_le_pow_right (by decide) hs)
  have hnat : (wordOf b₃ b₂ b₁ b₀).toNat =
      b₃.toNat <<< 24 ||| (b₂.toNat <<< 16 ||| (b₁.toNat <<< 8 ||| b₀.toNat)) := by
    rw [← Nat.or_assoc, ← Nat.or_assoc, ← shift b₃ 24 (by decide), ← shift b₂ 16 (by decide),
      ← shift b₁ 8 (by decide)]
    rfl
  have hlow : b₁.toNat <<< 8 + b₀.toNat < 2 ^ 16 := by
    rw [Nat.shiftLeft_eq]
    omega
  have hmid : b₂.toNat <<< 16 + (b₁.toNat <<< 8 + b₀.toNat) < 2 ^ 24 := by
    rw [Nat.shiftLeft_eq]
    omega
  rw [hnat, ← Nat.shiftLeft_add_eq_or_of_lt h₀, ← Nat.shiftLeft_add_eq_or_of_lt hlow,
    ← Nat.shiftLeft_add_eq_or_of_lt hmid]
  simp only [Nat.shiftLeft_eq]

/-- The low bytes of a word are those of its low half. -/
theorem byteAt_congr {k : ℕ} (h : k < 4) {v w : UInt64} (hvw : v.toUInt32 = w.toUInt32) :
    byteAt k v = byteAt k w := by
  have hlow : v.toNat % 2 ^ 32 = w.toNat % 2 ^ 32 := by
    simpa only [UInt64.toNat_toUInt32] using congrArg UInt32.toNat hvw
  refine UInt8.toNat_inj.mp ?_
  rw [toNat_byteAt (by omega), toNat_byteAt (by omega)]
  rcases (by omega : k = 0 ∨ k = 1 ∨ k = 2 ∨ k = 3) with rfl | rfl | rfl | rfl <;> omega

/-- The low half of a word is the word of its four low bytes. -/
theorem wordOf_byteAt (w : UInt64) :
    wordOf (byteAt 3 w) (byteAt 2 w) (byteAt 1 w) (byteAt 0 w) = w.toUInt32 := by
  refine UInt32.toNat_inj.mp ?_
  rw [toNat_wordOf, toNat_byteAt (by decide), toNat_byteAt (by decide), toNat_byteAt (by decide),
    toNat_byteAt (by decide), UInt64.toNat_toUInt32]
  omega

/-- The four bytes that a word was made of. -/
theorem byteAt_wordOf {w : UInt64} {b₃ b₂ b₁ b₀ : UInt8} (h : w.toUInt32 = wordOf b₃ b₂ b₁ b₀) :
    byteAt 3 w = b₃ ∧ byteAt 2 w = b₂ ∧ byteAt 1 w = b₁ ∧ byteAt 0 w = b₀ := by
  have hlow : w.toNat % 2 ^ 32 =
      b₃.toNat * 2 ^ 24 + (b₂.toNat * 2 ^ 16 + (b₁.toNat * 2 ^ 8 + b₀.toNat)) := by
    rw [← toNat_wordOf, ← h, UInt64.toNat_toUInt32]
  have h₃ := b₃.toNat_lt
  have h₂ := b₂.toNat_lt
  have h₁ := b₁.toNat_lt
  have h₀ := b₀.toNat_lt
  refine ⟨?_, ?_, ?_, ?_⟩ <;> refine UInt8.toNat_inj.mp ?_ <;> rw [toNat_byteAt (by decide)] <;>
    omega

@[simp] theorem toUInt32_signExtend (w : UInt32) : (signExtend w).toUInt32 = w := by
  refine UInt32.toBitVec_inj.mp (BitVec.eq_of_getLsbD_eq fun i hi => ?_)
  have hi' : i < 64 := by omega
  simp only [signExtend, UInt64.toBitVec_toUInt32, BitVec.getLsbD_setWidth]
  change (decide (i < 32) && (BitVec.signExtend 64 w.toBitVec).getLsbD i) = _
  simp only [BitVec.getLsbD_signExtend, hi, hi', decide_true, Bool.true_and, if_true]

/-- What a negative `int` becomes. -/
theorem toNat_signExtend (w : UInt32) : (signExtend w).toNat =
    if w.toNat < 2 ^ 31 then w.toNat else w.toNat + (2 ^ 64 - 2 ^ 32) := by
  have hbits : (signExtend w).toNat = (w.toBitVec.signExtend 64).toNat := rfl
  have hlt := w.toNat_lt
  have hmod : w.toNat % 2 ^ 64 = w.toNat := Nat.mod_eq_of_lt (by omega)
  rw [hbits, BitVec.toNat_signExtend, BitVec.msb_eq_decide, BitVec.toNat_setWidth,
    UInt32.toNat_toBitVec, hmod]
  by_cases h : w.toNat < 2 ^ 31
  · have hmsb : decide (2 ^ (32 - 1) ≤ w.toNat) = false := decide_eq_false (by omega)
    rw [hmsb, if_pos h]
    rfl
  · have hmsb : decide (2 ^ (32 - 1) ≤ w.toNat) = true := decide_eq_true (by omega)
    rw [hmsb, if_neg h]
    rfl

/-! ## Numbers in little-endian and big-endian form -/

/-- The low `w` bytes of a number, the least significant one first. -/
def bytesLE : ℕ → ℕ → List UInt8
  | 0, _ => []
  | w + 1, n => UInt8.ofNat n :: bytesLE w (n / 256)

/-- The number of a little-endian string. -/
def valueLE : List UInt8 → ℕ
  | [] => 0
  | b :: bs => b.toNat + 256 * valueLE bs

/-- The low `w` bytes of a number, the most significant one first. -/
def bytesBE (w n : ℕ) : List UInt8 := (bytesLE w n).reverse

/-- The number of a big-endian string. -/
def valueBE (bs : List UInt8) : ℕ := valueLE bs.reverse

@[simp] theorem length_bytesLE (w n : ℕ) : (bytesLE w n).length = w := by
  induction w generalizing n with
  | zero => rfl
  | succ w ih => rw [bytesLE, List.length_cons, ih]

@[simp] theorem length_bytesBE (w n : ℕ) : (bytesBE w n).length = w := by
  rw [bytesBE, List.length_reverse, length_bytesLE]

theorem valueLE_lt (bs : List UInt8) : valueLE bs < 256 ^ bs.length := by
  induction bs with
  | nil => exact Nat.one_pos
  | cons b bs ih =>
    have hb := b.toNat_lt
    rw [valueLE, List.length_cons, pow_succ]
    omega

/-- **Reading back what was written**: the number, cut to the bytes it was given. -/
theorem valueLE_bytesLE (w n : ℕ) : valueLE (bytesLE w n) = n % 256 ^ w := by
  induction w generalizing n with
  | zero => rw [bytesLE, valueLE, pow_zero, Nat.mod_one]
  | succ w ih =>
    have hlow : (UInt8.ofNat n).toNat = n % 256 := UInt8.toNat_ofNat'
    rw [bytesLE, valueLE, ih, hlow, pow_succ', Nat.mod_mul]

theorem valueBE_bytesBE (w n : ℕ) : valueBE (bytesBE w n) = n % 256 ^ w := by
  rw [valueBE, bytesBE, List.reverse_reverse, valueLE_bytesLE]

/-- A string is the little-endian form of its number. -/
theorem bytesLE_valueLE (bs : List UInt8) : bytesLE bs.length (valueLE bs) = bs := by
  induction bs with
  | nil => rfl
  | cons b bs ih =>
    have hb := b.toNat_lt
    have hlow : UInt8.ofNat (b.toNat + 256 * valueLE bs) = b := by
      refine UInt8.toNat_inj.mp ?_
      rw [UInt8.toNat_ofNat']
      omega
    have hhigh : (b.toNat + 256 * valueLE bs) / 256 = valueLE bs := by omega
    rw [List.length_cons, valueLE, bytesLE, hlow, hhigh, ih]

/-- Only the bytes that there is room for matter. -/
theorem bytesLE_mod (w n : ℕ) : bytesLE w (n % 256 ^ w) = bytesLE w n := by
  have h := bytesLE_valueLE (bytesLE w n)
  rwa [valueLE_bytesLE, length_bytesLE] at h

theorem bytesBE_mod (w n : ℕ) : bytesBE w (n % 256 ^ w) = bytesBE w n := by
  rw [bytesBE, bytesBE, bytesLE_mod]

theorem toNat_wordOf_eq_valueLE (b₀ b₁ b₂ b₃ : UInt8) :
    (wordOf b₃ b₂ b₁ b₀).toNat = valueLE [b₀, b₁, b₂, b₃] := by
  rw [toNat_wordOf]
  simp only [valueLE]
  omega

end Wire
