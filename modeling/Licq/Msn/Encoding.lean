import Licq.Buffer.Basic

/-!
# Msn/Encoding — escaped names

`CMSN::Encode` keeps letters and digits and writes every other byte as a percent sign and the two
digits of `%02X`; `CMSN::Decode` reads the two bytes after a percent sign with `strtol`.  Where a
`char` is signed, a byte from 0x80 on is printed as eight digits, into a buffer of four bytes.  A
percent sign that nothing follows makes the decoder read behind the terminator.

The **main result** `codes_iff` is that there are no other exceptions.
-/

namespace Licq.Msn

/-! ## Characters -/

/-- `isalnum` of ASCII. -/
def asciiAlnum (b : UInt8) : Bool :=
  (0x30 ≤ b && b ≤ 0x39) || (0x41 ≤ b && b ≤ 0x5A) || (0x61 ≤ b && b ≤ 0x7A)

/-- `isspace` of ASCII. -/
def asciiSpace (b : UInt8) : Bool := b = 0x20 || (0x09 ≤ b && b ≤ 0x0D)

/-- What the compiler and the locale decide about characters. -/
structure CharType where
  signed : Bool
  isalnum : UInt8 → Bool
  isspace : UInt8 → Bool
  isalnum_ascii : ∀ b < 0x80, isalnum b = asciiAlnum b
  isspace_ascii : ∀ b < 0x80, isspace b = asciiSpace b

variable (t : CharType)

/-- A `char` as the `unsigned int` that `%X` takes for it. -/
def CharType.word (b : UInt8) : ℕ :=
  if t.signed = true ∧ 0x80 ≤ b then 2 ^ 32 - 256 + b.toNat else b.toNat

/-- A digit of `%X`. -/
def hexDigit (n : ℕ) : UInt8 := UInt8.ofNat (if n < 10 then 0x30 + n else 0x37 + n)

/-- `%02X` of an `unsigned int`: its digits without leading zeros, but two at least. -/
def formatHex (n : ℕ) : List UInt8 :=
  let digits := [7, 6, 5, 4, 3, 2, 1, 0].map fun k => n / 16 ^ k % 16
  (digits.drop (min 6 (digits.takeWhile (· = 0)).length)).map hexDigit

/-- The value of a digit. -/
def hexValue (b : UInt8) : Option ℕ :=
  if 0x30 ≤ b ∧ b ≤ 0x39 then some (b.toNat - 0x30)
  else if 0x41 ≤ b ∧ b ≤ 0x46 then some (b.toNat - 0x37)
  else if 0x61 ≤ b ∧ b ≤ 0x66 then some (b.toNat - 0x57)
  else none

/-- The value of the digits that come first. -/
def readHex (n : ℕ) : List UInt8 → ℕ
  | [] => n
  | b :: s => match hexValue b with
    | some d => readHex (16 * n + d) s
    | none => n

/-- `strtol(szByte, NULL, 16)` of at most two characters, so that no digit can follow `0x`. -/
def strtolHex (szByte : List UInt8) : ℤ :=
  match (cStr szByte).dropWhile t.isspace with
  | 0x2D :: s => -(readHex 0 s : ℤ)
  | 0x2B :: s => readHex 0 s
  | s => readHex 0 s

/-! ## Encoding and decoding -/

/-- `sprintf(szChar, "%%%02X", …)`; none where more is written than the four bytes of `szChar`. -/
def escapeByte (b : UInt8) : Option (List UInt8) :=
  let text := 0x25 :: formatHex (t.word b)
  if text.length + 1 ≤ 4 then some text else none

def encodeByte (b : UInt8) : Option (List UInt8) :=
  if t.isalnum b then some [b] else escapeByte t b

/-- `CMSN::Encode` -/
def encode : List UInt8 → Option (List UInt8)
  | [] => some []
  | b :: s => do
    let text ← encodeByte t b
    let strOut ← encode s
    some (text ++ strOut)

/-- `CMSN::Decode`; none where it reads behind the terminator. -/
def decode : List UInt8 → Option (List UInt8)
  | [] => some []
  | c :: s =>
    if c = 0x25 then
      match s with
      | a :: b :: s => do
        let strOut ← decode s
        some (UInt8.ofNat ((strtolHex t [a, b]) % 256).toNat :: strOut)
      | [a] => some [UInt8.ofNat ((strtolHex t [a, 0]) % 256).toNat]
      | [] => none
    else do
      let strOut ← decode s
      some (c :: strOut)

/-- Only letters and digits, and percent signs that two digits follow. -/
inductive Escaped : List UInt8 → Prop
  | nil : Escaped []
  | char {b : UInt8} {s : List UInt8} : t.isalnum b = true → Escaped s → Escaped (b :: s)
  | triplet {m n : ℕ} {s : List UInt8} : m < 16 → n < 16 → Escaped s →
      Escaped (0x25 :: hexDigit m :: hexDigit n :: s)

/-- The string is encoded within the buffer, as it is to be, and decoded to itself. -/
def RoundTrips (s : List UInt8) : Prop :=
  ∃ strOut, encode t s = some strOut ∧ Escaped t strOut ∧ decode t strOut = some s

/-- The last character is a percent sign, and not one of the two after another. -/
def Dangling : List UInt8 → Prop
  | [] => False
  | c :: s =>
    if c = 0x25 then
      match s with
      | _ :: _ :: s => Dangling s
      | [_] => False
      | [] => True
    else Dangling s

/-- A byte that `Encode` can take: a `char` that is not negative, or a letter of the locale. -/
def CharType.Plain (b : UInt8) : Prop := b < 0x80 ∨ t.signed = false ∨ t.isalnum b = true

/-! ## Digits -/

variable {n : ℕ}

theorem formatHex_of_lt (h : n < 256) : formatHex n = [hexDigit (n / 16), hexDigit (n % 16)] := by
  have hzero : ∀ k, 256 ≤ 16 ^ k → n / 16 ^ k % 16 = 0 := fun k hk => by
    rw [Nat.div_eq_of_lt (Nat.lt_of_lt_of_le h hk)]
  have hhigh : n / 16 ^ 1 % 16 = n / 16 := by omega
  have hlow : n / 16 ^ 0 % 16 = n % 16 := by omega
  simp only [formatHex, List.map_cons, List.map_nil, hzero 7 (by decide), hzero 6 (by decide),
    hzero 5 (by decide), hzero 4 (by decide), hzero 3 (by decide), hzero 2 (by decide), hhigh, hlow]
  simp

/-- A negative `char` has eight digits. -/
theorem length_formatHex (hn : 2 ^ 28 ≤ n) (hlt : n < 2 ^ 32) : (formatHex n).length = 8 := by
  have htop : n / 268435456 % 16 ≠ 0 := by omega
  simp [formatHex, htop]

theorem hexValue_hexDigit : ∀ m < 16, hexValue (hexDigit m) = some m := by decide

theorem hexDigit_ne : ∀ m < 16, hexDigit m ≠ 0 ∧ hexDigit m ≠ 0x2D ∧ hexDigit m ≠ 0x2B ∧
    hexDigit m < 0x80 ∧ asciiSpace (hexDigit m) = false := by decide

theorem readHex_digits {m : ℕ} (hm : m < 16) (hn : n < 16) :
    readHex 0 [hexDigit m, hexDigit n] = 16 * m + n := by
  simp only [readHex, hexValue_hexDigit m hm, hexValue_hexDigit n hn, Nat.mul_zero, Nat.zero_add]

section Coding

variable {t : CharType}

theorem strtolHex_digits {m n : ℕ} (hm : m < 16) (hn : n < 16) :
    strtolHex t [hexDigit m, hexDigit n] = 16 * m + n := by
  obtain ⟨hmzero, hminus, hplus, hmlt, hmspace⟩ := hexDigit_ne m hm
  have hnzero := (hexDigit_ne n hn).1
  have hcstr : cStr [hexDigit m, hexDigit n] = [hexDigit m, hexDigit n] := by
    simp [cStr, hmzero, hnzero]
  have hspace : t.isspace (hexDigit m) = false := (t.isspace_ascii _ hmlt).trans hmspace
  rw [strtolHex, hcstr, List.dropWhile_cons_of_neg (by simp [hspace])]
  split
  · rename_i heq
    exact absurd (List.cons.inj heq).1 hminus
  · rename_i heq
    exact absurd (List.cons.inj heq).1 hplus
  · rw [readHex_digits hm hn]
    push_cast
    rfl

theorem decode_triplet {m n : ℕ} (hm : m < 16) (hn : n < 16) (s : List UInt8) :
    decode t (0x25 :: hexDigit m :: hexDigit n :: s)
      = (decode t s).map (UInt8.ofNat (16 * m + n) :: ·) := by
  have hbyte : (((16 * m + n : ℕ) : ℤ) % 256).toNat = 16 * m + n := by omega
  rw [decode, if_pos rfl]
  simp only [strtolHex_digits hm hn]
  push_cast at hbyte
  rw [hbyte]
  cases decode t s <;> rfl

variable {b : UInt8}

theorem decode_cons_of_ne (h : b ≠ 0x25) (s : List UInt8) :
    decode t (b :: s) = (decode t s).map (b :: ·) := by
  rw [decode.eq_def]
  refine (if_neg h).trans ?_
  cases decode t s <;> rfl

/-! ## Which strings come back -/

theorem ne_percent_of_isalnum (h : t.isalnum b = true) : b ≠ 0x25 := by
  rintro rfl
  rw [t.isalnum_ascii 0x25 (by decide)] at h
  exact absurd h (by decide)

theorem escapeByte_of_plain (h : t.Plain b) (halnum : t.isalnum b = false) :
    escapeByte t b = some [0x25, hexDigit (b.toNat / 16), hexDigit (b.toNat % 16)] := by
  have hword : t.word b = b.toNat := by
    refine if_neg ?_
    rintro ⟨hsigned, hhigh⟩
    rcases h with h | h | h
    · exact absurd hhigh (UInt8.not_le.mpr h)
    · rw [hsigned] at h
      cases h
    · rw [halnum] at h
      cases h
  rw [escapeByte, hword, formatHex_of_lt b.toNat_lt]
  rfl

theorem escapeByte_of_not_plain (h : ¬ t.Plain b) : escapeByte t b = none := by
  simp only [CharType.Plain, not_or, Bool.not_eq_false, UInt8.not_lt] at h
  have hhigh : 128 ≤ b.toNat := UInt8.le_iff_toNat_le.mp h.1
  have hword : t.word b = 2 ^ 32 - 256 + b.toNat := if_pos ⟨h.2.1, h.1⟩
  have hlt := b.toNat_lt
  have hlength := length_formatHex (n := t.word b) (by omega) (by omega)
  refine if_neg ?_
  rw [List.length_cons, hlength]
  decide

/-- A plain byte is escaped, and decoded where it was. -/
theorem encodeByte_of_plain (h : t.Plain b) : ∃ text, encodeByte t b = some text ∧
    (∀ s, Escaped t s → Escaped t (text ++ s)) ∧
    ∀ s, decode t (text ++ s) = (decode t s).map (b :: ·) := by
  cases halnum : t.isalnum b with
  | true =>
    refine ⟨[b], by rw [encodeByte, halnum]; rfl, fun s hs => .char halnum hs, fun s => ?_⟩
    exact decode_cons_of_ne (ne_percent_of_isalnum halnum) s
  | false =>
    have hlt := b.toNat_lt
    have hhigh : b.toNat / 16 < 16 := by omega
    have hlow : b.toNat % 16 < 16 := by omega
    refine ⟨_, by rw [encodeByte, halnum]; exact escapeByte_of_plain h halnum,
      fun s hs => .triplet hhigh hlow hs, fun s => ?_⟩
    refine (decode_triplet hhigh hlow s).trans ?_
    rw [Nat.div_add_mod, UInt8.ofNat_toNat]

theorem plain_of_encodeByte {text : List UInt8} (h : encodeByte t b = some text) : t.Plain b := by
  by_contra hplain
  have halnum : t.isalnum b = false := by
    simp only [CharType.Plain, not_or, Bool.not_eq_true] at hplain
    exact hplain.2.2
  rw [encodeByte, halnum] at h
  exact absurd (h.symm.trans (escapeByte_of_not_plain hplain)) (Option.some_ne_none _)

theorem plain_of_encode {s strOut : List UInt8} (h : encode t s = some strOut) :
    ∀ b ∈ s, t.Plain b := by
  induction s generalizing strOut with
  | nil => exact nofun
  | cons b s ih =>
    obtain ⟨text, htext, hrest⟩ := Option.bind_eq_some_iff.mp h
    obtain ⟨rest, hencode, -⟩ := Option.bind_eq_some_iff.mp hrest
    exact List.forall_mem_cons.mpr ⟨plain_of_encodeByte htext, ih hencode⟩

/-- **Strings of plain bytes come back**, and no others. -/
theorem roundTrips_iff_plain {s : List UInt8} : RoundTrips t s ↔ ∀ b ∈ s, t.Plain b := by
  refine ⟨fun ⟨_, hencode, _⟩ => plain_of_encode hencode, fun h => ?_⟩
  induction s with
  | nil => exact ⟨[], rfl, .nil, rfl⟩
  | cons b s ih =>
    obtain ⟨hb, hs⟩ := List.forall_mem_cons.mp h
    obtain ⟨strOut, hencode, hescaped, hdecode⟩ := ih hs
    obtain ⟨text, htext, hescape, hback⟩ := encodeByte_of_plain hb
    refine ⟨text ++ strOut, ?_, hescape _ hescaped, ?_⟩
    · rw [encode, htext, hencode]
      rfl
    · rw [hback, hdecode]
      rfl

/-! ## Where the decoder reads -/

theorem dangling_cons_of_ne (h : b ≠ 0x25) (s : List UInt8) : Dangling (b :: s) ↔ Dangling s := by
  rw [Dangling.eq_def]
  exact iff_of_eq (if_neg h)

theorem decode_eq_none_iff (s : List UInt8) : decode t s = none ↔ Dangling s := by
  induction s using Dangling.induct with
  | case1 => exact iff_of_false (Option.some_ne_none _) id
  | case2 a b s ih =>
    rw [decode, if_pos rfl, Dangling, if_pos rfl, ← ih]
    cases decode t s <;> simp
  | case3 a =>
    rw [decode, if_pos rfl, Dangling, if_pos rfl]
    exact iff_of_false (Option.some_ne_none _) id
  | case4 =>
    rw [decode, if_pos rfl, Dangling, if_pos rfl]
    exact iff_of_true rfl trivial
  | case5 c s hc ih =>
    rw [decode_cons_of_ne hc, Option.map_eq_none_iff, ih, dangling_cons_of_ne hc]

end Coding

/-- **Encoding and decoding.**  A string is encoded within the buffer, into letters, digits and
escapes, and decoded to itself, and decoding it reads nothing behind its terminator, where its bytes
are plain and it does not end in a percent sign on its own. -/
theorem codes_iff (s : List UInt8) :
    RoundTrips t s ∧ decode t s ≠ none ↔ (∀ b ∈ s, t.Plain b) ∧ ¬ Dangling s := by
  rw [roundTrips_iff_plain, Ne, decode_eq_none_iff]

/-- A `char` that is signed, and the letters and the white space of ASCII. -/
def signedAscii : CharType where
  signed := true
  isalnum := asciiAlnum
  isspace := asciiSpace
  isalnum_ascii _ _ := rfl
  isspace_ascii _ _ := rfl

/-- A name with an accent in UTF-8. -/
theorem not_codes_accent : ¬ ∀ (t : CharType) (s : List UInt8),
    RoundTrips t s ∧ decode t s ≠ none := by
  intro h
  obtain ⟨⟨strOut, hencode, -⟩, -⟩ := h signedAscii [0xC3, 0xA9]
  exact absurd hencode (by decide +revert)

end Licq.Msn
