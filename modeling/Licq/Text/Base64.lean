import Licq.Text.Bytes
import Mathlib.Data.List.GetD
import Mathlib.Data.List.Nodup

/-!
# Text/Base64 — the base64 encoding

Three bytes are four digits of base 64.  What is left at the end is one byte or two, and is filled up
with `=`.
-/

namespace Text

/-- The digits of base 64. -/
def base64Digits : List UInt8 :=
  asciiBytes ['A', 'B', 'C', 'D', 'E', 'F', 'G', 'H', 'I', 'J', 'K', 'L', 'M', 'N', 'O', 'P', 'Q',
    'R', 'S', 'T', 'U', 'V', 'W', 'X', 'Y', 'Z', 'a', 'b', 'c', 'd', 'e', 'f', 'g', 'h', 'i', 'j',
    'k', 'l', 'm', 'n', 'o', 'p', 'q', 'r', 's', 't', 'u', 'v', 'w', 'x', 'y', 'z', '0', '1', '2',
    '3', '4', '5', '6', '7', '8', '9', '+', '/']

/-- The digit with this value. -/
def base64Digit (n : ℕ) : UInt8 := base64Digits.getD n 0

/-- The four digits of a number of 24 bits. -/
def base64Group (n : ℕ) : List UInt8 :=
  [18, 12, 6, 0].map fun k => base64Digit (n / 2 ^ k % 64)

/-- The base64 encoding. -/
def base64 : List UInt8 → List UInt8
  | [] => []
  | [a] => (base64Group (a.toNat * 2 ^ 16)).take 2 ++ asciiBytes ['=', '=']
  | [a, b] => (base64Group (a.toNat * 2 ^ 16 + b.toNat * 2 ^ 8)).take 3 ++ asciiBytes ['=']
  | a :: b :: c :: s =>
    base64Group (a.toNat * 2 ^ 16 + b.toNat * 2 ^ 8 + c.toNat) ++ base64 s

example : base64 (asciiBytes ['M', 'a', 'n', 'M']) =
    asciiBytes ['T', 'W', 'F', 'u', 'T', 'Q', '=', '='] := by decide

theorem length_base64Digits : base64Digits.length = 64 := by decide

theorem length_base64Group (n : ℕ) : (base64Group n).length = 4 := rfl

/-- The digits of three bytes, one by one. -/
theorem base64Group_eq (s₀ s₁ s₂ : UInt8) :
    base64Group (s₀.toNat * 2 ^ 16 + s₁.toNat * 2 ^ 8 + s₂.toNat) =
      [base64Digit (s₀.toNat / 4), base64Digit (s₀.toNat % 4 * 16 + s₁.toNat / 16),
        base64Digit (s₁.toNat % 16 * 4 + s₂.toNat / 64), base64Digit (s₂.toNat % 64)] := by
  have h₀ := UInt8.toNat_lt s₀
  have h₁ := UInt8.toNat_lt s₁
  have h₂ := UInt8.toNat_lt s₂
  simp only [base64Group, List.map_cons, List.map_nil]
  refine congrArg₂ _ (congrArg _ ?_) (congrArg₂ _ (congrArg _ ?_) (congrArg₂ _ (congrArg _ ?_)
    (congrArg₂ _ (congrArg _ ?_) rfl)))
  all_goals omega

/-- **The length of an encoding**: four digits for every three bytes, and for what is left. -/
theorem length_base64 (s : List UInt8) : (base64 s).length = 4 * ((s.length + 2) / 3) := by
  induction s using base64.induct with
  | case1 => rfl
  | case2 a => simp [base64, asciiBytes, length_base64Group]
  | case3 a b => simp [base64, asciiBytes, length_base64Group]
  | case4 a b c s ih =>
    rw [base64, List.length_append, ih, length_base64Group]
    simp only [List.length_cons]
    omega

/-- **Digits are different.** -/
theorem base64Digit_inj {m n : ℕ} (hm : m < 64) (hn : n < 64) (h : base64Digit m = base64Digit n) :
    m = n := by
  have hnodup : base64Digits.Nodup := by decide
  rw [base64Digit, base64Digit, List.getD_eq_getElem _ _ (length_base64Digits ▸ hm),
    List.getD_eq_getElem _ _ (length_base64Digits ▸ hn)] at h
  exact (List.Nodup.getElem_inj_iff hnodup).mp h

end Text
