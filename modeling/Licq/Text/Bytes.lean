import Licq.Text.Decimal

/-!
# Text/Bytes — texts as bytes

Packets hold bytes, the functions of the C library are described on characters.  A byte stands for
the character with its number.
-/

namespace Text

/-- The bytes of a string as characters. -/
def byteChars (s : List UInt8) : List Char := s.map fun c => Char.ofNat c.toNat

/-- A text in ASCII as bytes. -/
def asciiBytes (cs : List Char) : List UInt8 := cs.map fun c => UInt8.ofNat c.toNat

/-- The digits of a number as bytes. -/
def decimalBytes (n : ℕ) : List UInt8 := asciiBytes (decimal n)

theorem toNat_byteChar (c : UInt8) : (Char.ofNat c.toNat).toNat = c.toNat := by
  have hlt := UInt8.toNat_lt c
  have hvalid : c.toNat.isValidChar := .inl (by omega)
  rw [Char.ofNat, dif_pos hvalid]
  rfl

theorem byteChars_asciiBytes {cs : List Char} (h : ∀ c ∈ cs, c.toNat < 256) :
    byteChars (asciiBytes cs) = cs := by
  rw [byteChars, asciiBytes, List.map_map]
  refine (List.map_congr_left fun c hc => ?_).trans (List.map_id cs)
  refine Char.toNat_inj.mp ((toNat_byteChar _).trans ?_)
  rw [UInt8.toNat_ofNat']
  exact Nat.mod_eq_of_lt (h c hc)

theorem toNat_of_isDigit {c : Char} (h : c.isDigit = true) : 48 ≤ c.toNat ∧ c.toNat ≤ 57 := by
  simp only [Char.isDigit, Bool.and_eq_true, decide_eq_true_eq] at h
  exact h

/-- The bytes of a number are digits. -/
theorem mem_decimalBytes {n : ℕ} {c : UInt8} (h : c ∈ decimalBytes n) :
    48 ≤ c.toNat ∧ c.toNat ≤ 57 := by
  obtain ⟨d, hd, rfl⟩ := List.mem_map.mp h
  have hdigit := toNat_of_isDigit (isDigit_of_mem_decimal hd)
  rw [UInt8.toNat_ofNat']
  omega

theorem decimalBytes_ne_nil (n : ℕ) : decimalBytes n ≠ [] := fun h =>
  decimal_ne_nil n (List.map_eq_nil_iff.mp h)

theorem byteChars_decimalBytes (n : ℕ) : byteChars (decimalBytes n) = decimal n :=
  byteChars_asciiBytes fun c hc => by
    have hdigit := toNat_of_isDigit (isDigit_of_mem_decimal hc)
    omega

end Text
