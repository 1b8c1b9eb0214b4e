import Mathlib.Data.List.Basic

/-!
# Text/Utf8 — texts in UTF-8

`utf8` writes a text character by character.  No character is the beginning of another one in bytes,
so what is written is read in one way only (`utf8_append_inj`), and a text that is followed by a
part of a character is none (`utf8_ne_append`).

A `Decoder` reads it, with replacement characters for the part of a character at the end.
-/

namespace Text

open String (utf8EncodeChar)

/-- A text in UTF-8. -/
def utf8 (s : List Char) : List UInt8 := s.flatMap utf8EncodeChar

@[simp] theorem utf8_nil : utf8 [] = [] := rfl

theorem utf8_cons (c : Char) (s : List Char) : utf8 (c :: s) = utf8EncodeChar c ++ utf8 s := rfl

theorem utf8_append (a b : List Char) : utf8 (a ++ b) = utf8 a ++ utf8 b := List.flatMap_append

/-! ## Bytes of characters -/

variable {c : Char} {s : List Char} {t : List UInt8}

/-- A character of ASCII is its own byte. -/
theorem utf8EncodeChar_of_lt (h : c.toNat < 128) :
    utf8EncodeChar c = [UInt8.ofNat c.toNat] := if_pos (Nat.le_of_lt_succ h)

/-- A byte of ASCII stands for a character of ASCII. -/
theorem toNat_of_mem_utf8EncodeChar {b : UInt8} (hb : b.toNat < 128)
    (h : b ∈ utf8EncodeChar c) : c.toNat = b.toNat := by
  have hhigh : ∀ k < 128, b ≠ UInt8.ofNat (k + 128) := by
    rintro k hk rfl
    rw [UInt8.toNat_ofNat'] at hb
    omega
  rw [utf8EncodeChar] at h
  have hval : c.val.toNat = c.toNat := rfl
  simp only [hval] at h
  split_ifs at h with h1 h2 h3
  · obtain rfl := List.mem_singleton.mp h
    rw [UInt8.toNat_ofNat', Nat.mod_eq_of_lt (by omega)]
  · simp only [List.mem_cons, List.not_mem_nil, or_false] at h
    rcases h with h | h
    · exact absurd (h.trans (by congr 1)) (hhigh (c.toNat / 64 % 32 + 64) (by omega))
    · exact absurd h (hhigh _ (by omega))
  · simp only [List.mem_cons, List.not_mem_nil, or_false] at h
    rcases h with h | h | h
    · exact absurd (h.trans (by congr 1)) (hhigh (c.toNat / 4096 % 16 + 96) (by omega))
    · exact absurd h (hhigh _ (by omega))
    · exact absurd h (hhigh _ (by omega))
  · simp only [List.mem_cons, List.not_mem_nil, or_false] at h
    rcases h with h | h | h | h
    · exact absurd (h.trans (by congr 1)) (hhigh (c.toNat / 262144 % 8 + 112) (by omega))
    · exact absurd h (hhigh _ (by omega))
    · exact absurd h (hhigh _ (by omega))
    · exact absurd h (hhigh _ (by omega))

/-- A character of ASCII is in a text exactly when its byte is. -/
theorem mem_utf8_iff (hc : c.toNat < 128) : UInt8.ofNat c.toNat ∈ utf8 s ↔ c ∈ s := by
  have hbyte : (UInt8.ofNat c.toNat).toNat = c.toNat := by
    rw [UInt8.toNat_ofNat', Nat.mod_eq_of_lt (by omega)]
  rw [utf8, List.mem_flatMap]
  constructor
  · rintro ⟨d, hd, hmem⟩
    have hlt : (UInt8.ofNat c.toNat).toNat < 128 := by
      rw [hbyte]
      exact hc
    have hnat := toNat_of_mem_utf8EncodeChar hlt hmem
    rwa [← Char.toNat_inj.mp (hnat.trans hbyte)]
  · intro hmem
    refine ⟨c, hmem, ?_⟩
    rw [utf8EncodeChar_of_lt hc]
    exact List.mem_singleton_self _

/-! ## Reading in one way -/

/-- **No character begins with another one.** -/
theorem utf8EncodeChar_append_inj {d : Char} {a b : List UInt8}
    (h : utf8EncodeChar c ++ a = utf8EncodeChar d ++ b) : c = d ∧ a = b := by
  have hdecode : ∀ (c : Char) (a : List UInt8),
      (utf8EncodeChar c ++ a).toByteArray.utf8DecodeChar? 0 = some c := by
    intro c a
    rw [List.toByteArray_append]
    exact ByteArray.utf8DecodeChar?_utf8EncodeChar_append
  have hc := hdecode c a
  rw [h, hdecode d b] at hc
  cases hc
  exact ⟨rfl, List.append_cancel_left h⟩

theorem utf8_append_inj {cs : List Char} (h : utf8 cs = utf8 s ++ t) :
    ∃ cs', cs = s ++ cs' ∧ utf8 cs' = t := by
  induction s generalizing cs with
  | nil => exact ⟨cs, rfl, h⟩
  | cons c s ih =>
    cases cs with
    | nil =>
      rw [utf8_cons, List.append_assoc] at h
      exact absurd (List.append_eq_nil_iff.mp h.symm).1 String.utf8EncodeChar_ne_nil
    | cons d cs =>
      rw [utf8_cons, utf8_cons, List.append_assoc] at h
      obtain ⟨rfl, hrest⟩ := utf8EncodeChar_append_inj h
      obtain ⟨cs', rfl, ht⟩ := ih hrest
      exact ⟨cs', rfl, ht⟩

theorem utf8_inj {a b : List Char} (h : utf8 a = utf8 b) : a = b := by
  obtain ⟨b', rfl, hb'⟩ := utf8_append_inj (t := []) (h.trans (List.append_nil _).symm)
  cases b' with
  | nil => exact List.append_nil b
  | cons c b' => exact absurd (List.append_eq_nil_iff.mp hb').1 String.utf8EncodeChar_ne_nil

/-- Some bytes of a character, but not all. -/
def Cut (c : Char) (t : List UInt8) : Prop := t <+: utf8EncodeChar c ∧ t ≠ utf8EncodeChar c

/-- **A text and a part of a character are no text.** -/
theorem utf8_ne_append (ht : Cut c t) (hne : t ≠ []) (cs : List Char) : utf8 cs ≠ utf8 s ++ t := by
  intro h
  obtain ⟨cs', -, hcs'⟩ := utf8_append_inj h
  cases cs' with
  | nil => exact hne hcs'.symm
  | cons d cs' =>
    obtain ⟨rest, hrest⟩ := ht.1
    rw [utf8_cons] at hcs'
    rw [← hcs', List.append_assoc] at hrest
    obtain ⟨rfl, hnil⟩ := utf8EncodeChar_append_inj (hrest.trans (List.append_nil _).symm)
    rw [(List.append_eq_nil_iff.mp hnil).1, List.append_nil] at hcs'
    exact ht.2 hcs'.symm

/-! ## Decoders -/

/-- The replacement character. -/
def replacement : Char := '\uFFFD'

/-- A reader of UTF-8: a part of a character behind a text gives replacement characters, and a
character of ASCII comes from its byte only.  What a text is read as is left open, as a byte order
mark at its beginning may be dropped and a noncharacter replaced. -/
structure Decoder where
  fromUtf8 : List UInt8 → List Char
  fromUtf8_cut : ∀ s c t, Cut c t → ∃ r, fromUtf8 (utf8 s ++ t) = fromUtf8 (utf8 s) ++ r ∧
    ∀ x ∈ r, x = replacement
  mem_ascii : ∀ s c, c.toNat < 128 → c ∈ fromUtf8 s → UInt8.ofNat c.toNat ∈ s

theorem cut_nil (c : Char) : Cut c [] :=
  ⟨List.nil_prefix, fun h => String.utf8EncodeChar_ne_nil h.symm⟩

/-- One replacement character for each byte that does not begin a character. -/
def decode : ℕ → List UInt8 → List Char
  | _, [] => []
  | n + 1, _ :: s => decode n s
  | 0, b :: s =>
    match (b :: s).toByteArray.utf8DecodeChar? 0 with
    | some c => c :: decode (c.utf8Size - 1) s
    | none => replacement :: decode 0 s

theorem prefix_of_utf8DecodeChar? {s : List UInt8}
    (h : s.toByteArray.utf8DecodeChar? 0 = some c) : utf8EncodeChar c <+: s := by
  have hextract := String.toByteArray_utf8EncodeChar_of_utf8DecodeChar?_eq_some h
  have hlist := congrArg (fun b => b.data.toList) hextract
  simp only [List.data_toByteArray, ByteArray.data_extract, List.extract_toArray,
    List.extract_eq_take_drop, List.drop_zero] at hlist
  rw [hlist]
  exact List.take_prefix _ _

theorem decode_length_append (a s : List UInt8) : decode a.length (a ++ s) = decode 0 s := by
  induction a with
  | nil => rfl
  | cons b a ih => exact ih

theorem decode_utf8EncodeChar (c : Char) (s : List UInt8) :
    decode 0 (utf8EncodeChar c ++ s) = c :: decode 0 s := by
  obtain ⟨b, a, hchar⟩ := List.exists_cons_of_ne_nil (String.utf8EncodeChar_ne_nil (c := c))
  have hdecode : (b :: (a ++ s)).toByteArray.utf8DecodeChar? 0 = some c := by
    rw [← List.cons_append, ← hchar, List.toByteArray_append]
    exact ByteArray.utf8DecodeChar?_utf8EncodeChar_append
  have hsize : c.utf8Size - 1 = a.length := by
    rw [← String.length_utf8EncodeChar, hchar]
    rfl
  rw [hchar, List.cons_append, decode, hdecode]
  simp only [hsize, decode_length_append]

theorem decode_utf8_append (s : List Char) (t : List UInt8) :
    decode 0 (utf8 s ++ t) = s ++ decode 0 t := by
  induction s with
  | nil => rfl
  | cons c s ih => rw [utf8_cons, List.append_assoc, decode_utf8EncodeChar, ih, List.cons_append]

theorem decode_utf8 (s : List Char) : decode 0 (utf8 s) = s := by
  have := decode_utf8_append s []
  rwa [List.append_nil, show decode 0 [] = [] from rfl, List.append_nil] at this

/-- No character begins within a part of one. -/
theorem utf8DecodeChar?_drop (ht : Cut c t) {i : ℕ}
    (hi : i < t.length) : (t.drop i).toByteArray.utf8DecodeChar? 0 = none := by
  rw [Option.eq_none_iff_forall_not_mem]
  intro d hd
  have hpre := prefix_of_utf8DecodeChar? hd
  have hlen := String.utf8EncodeChar_ne_nil (c := d)
  have hpos : 0 < (utf8EncodeChar d).length := List.length_pos_iff.mpr hlen
  have hfirst : (utf8EncodeChar d)[0].IsUTF8FirstByte := by
    rw [UInt8.isUTF8FirstByte_getElem_utf8EncodeChar]
  have hic : i < (utf8EncodeChar c).length := Nat.lt_of_lt_of_le hi ht.1.length_le
  have hsame : (utf8EncodeChar d)[0] = (utf8EncodeChar c)[i] := by
    rw [hpre.getElem hpos, List.getElem_drop, ht.1.getElem]
    rfl
  rw [hsame, UInt8.isUTF8FirstByte_getElem_utf8EncodeChar] at hfirst
  subst hfirst
  rw [List.drop_zero] at hpre
  obtain ⟨rest, hrest⟩ := hpre.trans ht.1
  obtain ⟨rfl, -⟩ := utf8EncodeChar_append_inj (hrest.trans (List.append_nil _).symm)
  exact ht.2 (ht.1.eq_of_length_le hpre.length_le)

theorem decode_of_none
    (h : ∀ i < t.length, (t.drop i).toByteArray.utf8DecodeChar? 0 = none) :
    ∀ x ∈ decode 0 t, x = replacement := by
  induction t with
  | nil => exact nofun
  | cons b t ih =>
    have hnone := h 0 (Nat.succ_pos _)
    rw [List.drop_zero] at hnone
    rw [decode, hnone]
    refine List.forall_mem_cons.mpr ⟨rfl, ih fun i hi => ?_⟩
    exact h (i + 1) (Nat.succ_lt_succ hi)

theorem mem_of_mem_decode (hc : c.toNat < 128) {n : ℕ} {s : List UInt8}
    (h : c ∈ decode n s) : UInt8.ofNat c.toNat ∈ s := by
  induction s generalizing n with
  | nil =>
    rw [decode] at h
    exact absurd h List.not_mem_nil
  | cons b s ih =>
    cases n with
    | succ n => exact List.mem_cons_of_mem b (ih h)
    | zero =>
      rw [decode] at h
      split at h
      · rename_i d hd
        rcases List.mem_cons.mp h with rfl | hrest
        · refine (prefix_of_utf8DecodeChar? hd).mem ?_
          rw [utf8EncodeChar_of_lt hc]
          exact List.mem_singleton_self _
        · exact List.mem_cons_of_mem b (ih hrest)
      · rcases List.mem_cons.mp h with rfl | hrest
        · exact absurd hc (by decide)
        · exact List.mem_cons_of_mem b (ih hrest)

/-- The decoder that goes on behind each byte that does not begin a character. -/
def Decoder.bytewise : Decoder where
  fromUtf8 := decode 0
  fromUtf8_cut s _ t ht := by
    refine ⟨decode 0 t, ?_, decode_of_none fun _ hi => utf8DecodeChar?_drop ht hi⟩
    rw [decode_utf8_append, decode_utf8]
  mem_ascii _ _ hc h := mem_of_mem_decode hc h

end Text
