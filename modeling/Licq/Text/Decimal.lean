import Mathlib.Data.List.TakeWhile
import Mathlib.Tactic.Ring

/-!
# Text/Decimal — decimal numbers as texts

`decimal` and `decimalInt` write a number as `printf` does; `strtoul` and `atoi` read one as the C
library does: white space, a sign, the digits up to the first other character, saturation.  Reading
back what was written gives the number, within the range of the reader.
-/

namespace Text

/-- The decimal digits of a number. -/
def decimal (n : ℕ) : List Char := Nat.toDigits 10 n

/-- The decimal digits of an integer, after a minus sign when it is negative. -/
def decimalInt : ℤ → List Char
  | .ofNat n => decimal n
  | .negSucc n => '-' :: decimal (n + 1)

theorem isDigit_of_mem_decimal {n : ℕ} {c : Char} (h : c ∈ decimal n) : c.isDigit = true :=
  Nat.isDigit_of_mem_toDigits (by decide) (by decide) h

theorem decimal_ne_nil (n : ℕ) : decimal n ≠ [] := Nat.toDigits_ne_nil

/-- **Numbers with the same digits are equal.** -/
theorem decimal_injective : Function.Injective decimal := fun m n h => by
  rw [← @Nat.ofDigitChars_ten_toDigits m, ← @Nat.ofDigitChars_ten_toDigits n]
  exact congrArg (fun s => Nat.ofDigitChars 10 s 0) h

/-- What a positive number starts with is a positive number. -/
theorem take_decimal {n i : ℕ} (hn : 0 < n) (hi : 0 < i) :
    ∃ m, 0 < m ∧ m ≤ n ∧ (decimal n).take i = decimal m := by
  induction n using Nat.strong_induction_on with
  | h n ih =>
    by_cases hlength : (decimal n).length ≤ i
    · exact ⟨n, hn, Nat.le_refl n, List.take_of_length_le hlength⟩
    · have hten : 10 ≤ n := by
        by_contra hlt
        rw [decimal, Nat.toDigits_of_lt_base (by omega), List.length_singleton] at hlength
        omega
      have hdigits : decimal n = decimal (n / 10) ++ [Nat.digitChar (n % 10)] :=
        Nat.toDigits_of_base_le (by decide) hten
      obtain ⟨m, hm, hle, htake⟩ := ih (n / 10) (by omega) (by omega)
      refine ⟨m, hm, by omega, ?_⟩
      rw [hdigits, List.length_append, List.length_singleton] at hlength
      rw [hdigits, List.take_append_of_le_length (by omega), htake]

/-- The characters `isspace` accepts. -/
def isSpace (c : Char) : Bool := c = ' ' || ('\t' ≤ c && c ≤ '\r')

/-- An optional sign: whether it is a minus sign, and what follows. -/
def readSign : List Char → Bool × List Char
  | '-' :: s => (true, s)
  | '+' :: s => (false, s)
  | s => (false, s)

/-- The value of the digits a text starts with. -/
def readDigits (s : List Char) : ℕ := Nat.ofDigitChars 10 (s.takeWhile Char.isDigit) 0

/-- `strtoul`: an unsigned 64-bit number, saturating, negated in the ring after a minus sign. -/
def strtoul (s : List Char) : ℕ :=
  let (neg, s) := readSign (s.dropWhile isSpace)
  let n := readDigits s
  if 2 ^ 64 ≤ n then 2 ^ 64 - 1 else if neg then (2 ^ 64 - n) % 2 ^ 64 else n

/-- `strtol`: a signed 64-bit number, saturating. -/
def strtol (s : List Char) : ℤ :=
  let (neg, s) := readSign (s.dropWhile isSpace)
  let n : ℤ := readDigits s
  if neg then max (-n) (-2 ^ 63) else min n (2 ^ 63 - 1)

/-- `atoi`: the low 32 bits of what `strtol` reads, as a signed number. -/
def atoi (s : List Char) : ℤ := (strtol s).bmod (2 ^ 32)

theorem not_isSpace_of_isDigit {c : Char} (h : c.isDigit = true) : isSpace c = false := by
  simp only [Char.isDigit, Bool.and_eq_true, decide_eq_true_eq] at h
  simp only [isSpace, Bool.or_eq_false_iff, Bool.and_eq_false_iff, decide_eq_false_iff_not]
  refine ⟨?_, Or.inr fun hle => ?_⟩
  · rintro rfl
    exact absurd h.1 (by decide)
  · exact absurd (UInt32.le_trans h.1 hle) (by decide)

/-- A text that starts with a digit has no white space and no sign to skip. -/
theorem readSign_digits {s : List Char} (hne : s ≠ []) (hs : ∀ c ∈ s, c.isDigit = true) :
    readSign (s.dropWhile isSpace) = (false, s) := by
  obtain ⟨c, t, rfl⟩ := List.exists_cons_of_ne_nil hne
  have hc : c.isDigit = true := hs c (by simp)
  rw [List.dropWhile_cons_of_neg (by rw [not_isSpace_of_isDigit hc]; decide)]
  have hminus : c ≠ '-' := by rintro rfl; exact absurd hc (by decide)
  have hplus : c ≠ '+' := by rintro rfl; exact absurd hc (by decide)
  rw [readSign]
  · rintro s ⟨⟩; exact hminus rfl
  · rintro s ⟨⟩; exact hplus rfl

theorem readDigits_decimal (n : ℕ) : readDigits (decimal n) = n := by
  rw [readDigits, List.takeWhile_eq_self_iff.mpr fun c hc => isDigit_of_mem_decimal hc]
  exact Nat.ofDigitChars_ten_toDigits

/-- **`strtoul` reads back what `%lu` wrote.** -/
theorem strtoul_decimal {n : ℕ} (h : n < 2 ^ 64) : strtoul (decimal n) = n := by
  rw [strtoul, readSign_digits (decimal_ne_nil n) fun c hc => isDigit_of_mem_decimal hc]
  simp only [readDigits_decimal, if_neg (Nat.not_le.mpr h), Bool.false_eq_true, if_false]

theorem atoi_bounds (s : List Char) : -2 ^ 31 ≤ atoi s ∧ atoi s < 2 ^ 31 := by
  have hlow := @Int.le_bmod (strtol s) (2 ^ 32) (by decide)
  have hhigh := @Int.bmod_lt (strtol s) (2 ^ 32) (by decide)
  rw [atoi]
  omega

theorem atoi_decimal {n : ℕ} (h : n < 2 ^ 31) : atoi (decimal n) = n := by
  have hl : strtol (decimal n) = n := by
    rw [strtol, readSign_digits (decimal_ne_nil n) fun c hc => isDigit_of_mem_decimal hc]
    simp only [readDigits_decimal, Bool.false_eq_true, if_false]
    omega
  rw [atoi, hl, Int.bmod_eq_of_le] <;> omega

/-- **`atoi` reads back what `%d` wrote.** -/
theorem atoi_decimalInt {z : ℤ} (hlow : -2 ^ 31 ≤ z) (hhigh : z < 2 ^ 31) :
    atoi (decimalInt z) = z := by
  cases z with
  | ofNat n => exact atoi_decimal (by simpa using hhigh)
  | negSucc n =>
    have hl : strtol (decimalInt (Int.negSucc n)) = Int.negSucc n := by
      rw [strtol, decimalInt, List.dropWhile_cons_of_neg (by decide)]
      simp only [readSign, readDigits_decimal, if_true]
      omega
    rw [atoi, hl, Int.bmod_eq_of_le] <;> omega

end Text
