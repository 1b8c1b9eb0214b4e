import Mathlib.Data.List.Basic

/-!
# Text/IconvConvert — a conversion and the room for it

`Translator::iconvConvert` gives `iconv` an output of two bytes for each byte of the input.  `iconv`
itself is a parameter: it converts the characters of its input one after the other, and stops at the
first one whose conversion does not fit (`FillsRoom`).

The **main result** `iconvConvert_whole_iff` says that the conversion is complete exactly if it is
at most twice as long as the input. -/

namespace Licq

/-! ## The code -/

/-- A descriptor of `iconv_open`: for an input and the room for the output, what is written to the
output, and whether `iconv` succeeds. -/
abbrev Descriptor := List UInt8 → ℕ → List UInt8 × Bool

/-- `iconv_open`, from the names of the encodings; none where the conversion is not supported. -/
abbrev IconvOpen := List Char → List Char → Option Descriptor

/-- `Translator::iconvConvert`: its result and `ok`. -/
def iconvConvert (iconvOpen : IconvOpen) (s : List UInt8) (tocode fromcode : List Char) :
    List UInt8 × Bool :=
  if tocode = fromcode then (s, true)
  else
    let outLen := s.length * 2
    match iconvOpen tocode fromcode with
    | none => ([], false)
    | some iconv => iconv s outLen

/-! ## What `iconv` does -/

/-- The conversions of the characters that fit, one after the other. -/
def fitting : ℕ → List (List UInt8) → List (List UInt8)
  | _, [] => []
  | n, p :: ps => if p.length ≤ n then p :: fitting (n - p.length) ps else []

/-- The input is convertible, its characters to the pieces, and **as many of them are written as
fit**; it is an error if some do not. -/
def FillsRoom (iconv : Descriptor) (s : List UInt8) (pieces : List (List UInt8)) : Prop :=
  ∀ n, iconv s n = ((fitting n pieces).flatten, decide (fitting n pieces = pieces))

/-- The whole input is convertible, and this is its conversion. -/
def Converts (iconvOpen : IconvOpen) (tocode fromcode : List Char) (s whole : List UInt8) : Prop :=
  if tocode = fromcode then whole = s
  else ∃ iconv pieces, iconvOpen tocode fromcode = some iconv ∧ FillsRoom iconv s pieces ∧
    pieces.flatten = whole

/-! ## The main result -/

/-- **Everything fits exactly if there is room for the whole.** -/
theorem fitting_eq_self_iff (n : ℕ) (pieces : List (List UInt8)) :
    fitting n pieces = pieces ↔ pieces.flatten.length ≤ n := by
  induction pieces generalizing n with
  | nil => exact iff_of_true rfl (Nat.zero_le n)
  | cons p pieces ih =>
    rw [fitting, List.flatten_cons, List.length_append]
    by_cases hp : p.length ≤ n
    · rw [if_pos hp, List.cons_inj_right, ih]
      omega
    · rw [if_neg hp]
      exact iff_of_false (List.cons_ne_nil p pieces).symm (by omega)

variable {iconvOpen : IconvOpen} {tocode fromcode : List Char} {s whole : List UInt8}

/-- Between different encodings, what fits is written. -/
theorem iconvConvert_of_ne (hne : tocode ≠ fromcode)
    (h : Converts iconvOpen tocode fromcode s whole) : ∃ pieces, pieces.flatten = whole ∧ iconvConvert iconvOpen s tocode fromcode =
      ((fitting (s.length * 2) pieces).flatten,
        decide (fitting (s.length * 2) pieces = pieces)) := by
  rw [Converts, if_neg hne] at h
  obtain ⟨iconv, pieces, hopen, hfills, hwhole⟩ := h
  refine ⟨pieces, hwhole, ?_⟩
  rw [iconvConvert, if_neg hne, hopen]
  exact hfills _

/-- **The conversion of a convertible input is complete exactly if** the encodings are the same or
it is at most twice as long as the input. -/
theorem iconvConvert_whole_iff (h : Converts iconvOpen tocode fromcode s whole) :
    iconvConvert iconvOpen s tocode fromcode = (whole, true) ↔
      tocode = fromcode ∨ whole.length ≤ 2 * s.length := by
  by_cases heq : tocode = fromcode
  · rw [Converts, if_pos heq] at h
    rw [iconvConvert, if_pos heq, h]
    exact iff_of_true rfl (Or.inl heq)
  · obtain ⟨pieces, rfl, hresult⟩ := iconvConvert_of_ne heq h
    rw [hresult, or_iff_right heq, Nat.mul_comm 2, ← fitting_eq_self_iff]
    constructor
    · exact fun hwhole => of_decide_eq_true (Prod.mk.inj hwhole).2
    · intro hfits
      rw [hfits, decide_eq_true rfl]

/-! ## An encoding of one byte -/

/-- What a byte of CP1252 is in UTF-8: the ASCII characters and the euro sign. -/
def cp1252Char (b : UInt8) : List UInt8 := if b = 0x80 then [0xE2, 0x82, 0xAC] else [b]

/-- The conversion from CP1252 to UTF-8, of texts with these characters. -/
def cp1252 : IconvOpen := fun tocode fromcode =>
  if tocode = ['U', 'T', 'F', '-', '8'] ∧ fromcode = ['C', 'P', '1', '2', '5', '2'] then
    some fun s n => ((fitting n (s.map cp1252Char)).flatten,
      decide (fitting n (s.map cp1252Char) = s.map cp1252Char))
  else none

theorem converts_cp1252 (s : List UInt8) :
    Converts cp1252 ['U', 'T', 'F', '-', '8'] ['C', 'P', '1', '2', '5', '2'] s
      (s.map cp1252Char).flatten := by
  rw [Converts, if_neg (by decide)]
  exact ⟨_, s.map cp1252Char, rfl, fun n => rfl, rfl⟩

/-- The text of a euro sign and its price. -/
theorem iconvConvert_price :
    iconvConvert cp1252 [0x80, 0x20, 0x35] ['U', 'T', 'F', '-', '8']
      ['C', 'P', '1', '2', '5', '2'] = ([0xE2, 0x82, 0xAC, 0x20, 0x35], true) :=
  (iconvConvert_whole_iff (converts_cp1252 _)).mpr (Or.inr (by decide))

/-- **The euro sign alone does not fit.** -/
theorem not_iconvConvert_euro :
    Converts cp1252 ['U', 'T', 'F', '-', '8'] ['C', 'P', '1', '2', '5', '2'] [0x80]
      [0xE2, 0x82, 0xAC] ∧
    iconvConvert cp1252 [0x80] ['U', 'T', 'F', '-', '8'] ['C', 'P', '1', '2', '5', '2']
      ≠ ([0xE2, 0x82, 0xAC], true) :=
  ⟨converts_cp1252 [0x80], by decide⟩

end Licq
