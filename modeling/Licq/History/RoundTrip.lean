import Licq.History.Load

/-!
# History/RoundTrip — reading the lines of an entry

A header is read as it was written (`matchHeader_headerLine`), with the direction of the entry and with
texts in UTF-8 (`flags_header`).  A value comes back from its line (`withLine_line`) and a text from its
lines (`getValidLines_lines`), up to what a C string loses.
-/

open Text Nat

namespace Licq.History

open List

/-! ## Headers -/

theorem readText_append (p s : List UInt8) : readText p (p ++ s) = some s := by
  rw [readText, if_pos (prefix_append p s), drop_left]

/-- Digits are read up to the first character that is none. -/
theorem readNumber_append {digits : List UInt8} (hne : digits ≠ [])
    (hdigits : ∀ c ∈ digits, 48 ≤ c.toNat ∧ c.toNat ≤ 57) (s : List UInt8) :
    readNumber (digits ++ 0x20 :: s) = some (digits, 0x20 :: s) := by
  have hdigit : ∀ c ∈ digits, (decide (0x30 ≤ c) && decide (c ≤ 0x39)) = true := by
    intro c hc
    obtain ⟨hlow, hhigh⟩ := hdigits c hc
    rw [Bool.and_eq_true, decide_eq_true_eq, decide_eq_true_eq, UInt8.le_iff_toNat_le,
      UInt8.le_iff_toNat_le]
    exact ⟨hlow, hhigh⟩
  have htake : (digits ++ 0x20 :: s).takeWhile (fun c : UInt8 => 0x30 ≤ c && c ≤ 0x39) = digits := by
    rw [takeWhile_append_of_pos hdigit, takeWhile_cons_of_neg (by decide),
      append_nil]
  have hdrop : (digits ++ 0x20 :: s).dropWhile (fun c : UInt8 => 0x30 ≤ c && c ≤ 0x39) =
      0x20 :: s := by
    rw [dropWhile_append_of_pos hdigit, dropWhile_cons_of_neg (by decide)]
  rw [readNumber]
  simp only [htake, hdrop, if_neg hne]

variable {n : ℕ} {f text : List UInt8}

theorem mem_padded {c : UInt8} (h : c ∈ padded n) : 48 ≤ c.toNat ∧ c.toNat ≤ 57 := by
  rcases mem_append.mp h with h | h
  · rw [eq_of_mem_replicate h]
    decide
  · exact mem_decimalBytes h

theorem padded_ne_nil (n : ℕ) : padded n ≠ [] :=
  append_ne_nil_of_right_ne_nil _ (decimalBytes_ne_nil n)

theorem byteChars_padded (n : ℕ) : byteChars (padded n) =
    List.replicate (4 - (decimalBytes n).length) '0' ++ decimal n := by
  rw [padded, ← byteChars_decimalBytes, byteChars, map_append, map_replicate]
  rfl

theorem readDigits_padded (n : ℕ) : readDigits (byteChars (padded n)) = n := by
  rw [byteChars_padded, readDigits, takeWhile_eq_self_iff.mpr, ofDigitChars_append,
    ofDigitChars_replicate_zero, Nat.mul_zero]
  · exact ofDigitChars_ten_toDigits
  · intro c hc
    rcases mem_append.mp hc with hc | hc
    · rw [eq_of_mem_replicate hc]
      rfl
    · exact isDigit_of_mem_decimal hc

/-- **What `strtol` makes of digits.** -/
theorem strtol_digits {s : List Char} (hne : s ≠ []) (hs : ∀ c ∈ s, c.isDigit = true)
    (h : readDigits s < 2 ^ 63) : strtol s = readDigits s := by
  rw [strtol, readSign_digits hne hs]
  simp only [Bool.false_eq_true, if_false]
  omega

theorem isDigit_of_mem_byteChars {s : List UInt8} (h : ∀ c ∈ s, 48 ≤ c.toNat ∧ c.toNat ≤ 57)
    {c : Char} (hc : c ∈ byteChars s) : c.isDigit = true := by
  obtain ⟨d, hd, rfl⟩ := mem_map.mp hc
  obtain ⟨hlow, hhigh⟩ := h d hd
  rw [← toNat_byteChar] at hlow hhigh
  simp only [Char.isDigit, Bool.and_eq_true, decide_eq_true_eq]
  exact ⟨hlow, hhigh⟩

theorem longNumber_padded (h : n < 2 ^ 63) : longNumber (padded n) = n := by
  have hne : byteChars (padded n) ≠ [] := fun hnil =>
    padded_ne_nil n (map_eq_nil_iff.mp hnil)
  rw [longNumber, strtol_digits hne (fun c => isDigit_of_mem_byteChars fun d => mem_padded),
    readDigits_padded]
  rw [readDigits_padded]
  exact h

theorem number_padded (h : n < 2 ^ 31) : number (padded n) = n := by
  rw [number, atoi, ← longNumber, longNumber_padded (by omega), Int.bmod_eq_of_le] <;> omega

theorem longNumber_decimalBytes (h : n < 2 ^ 63) : longNumber (decimalBytes n) = n := by
  rw [longNumber, byteChars_decimalBytes,
    strtol_digits (decimal_ne_nil n) fun c hc => isDigit_of_mem_decimal hc, readDigits_decimal]
  rw [readDigits_decimal]
  exact h

theorem Event.nSubCommand_lt (e : Event) : e.nSubCommand < 2 ^ 16 := by
  rw [Event.nSubCommand]
  split
  · exact UInt16.toNat_lt _
  · cases e.body <;> simp [Body.eventType]

theorem Event.nCommand_lt (e : Event) : e.nCommand < 2 ^ 16 := by
  rw [Event.nCommand]
  split
  · exact UInt16.toNat_lt _
  · split_ifs <;> decide

theorem Event.headerFlags_lt (e : Event) : e.headerFlags < 2 ^ 16 :=
  Nat.lt_of_le_of_lt and_le_left (mod_lt _ (by decide))

theorem toNat_toUInt64_of_pos {t : Int64} (h : 0 < t) :
    t.toUInt64.toNat < 2 ^ 63 ∧ (t.toUInt64.toNat : ℤ) = t.toInt := by
  have hpos : 0 < t.toInt := Int64.lt_iff_toInt_lt.mp h
  have hlt := Int64.toInt_lt t
  have heq : (t.toUInt64.toNat : ℤ) = t.toInt := by
    rw [Int64.toNat_toUInt64_of_le (Int64.le_iff_toInt_le.mpr (Int.le_of_lt hpos)),
      ← Int64.toNat_toInt]
    omega
  exact ⟨by omega, heq⟩

/-- The header that an entry has. -/
def Event.header (e : Event) (isReceiver : Bool) : Header :=
  ⟨if isReceiver then 0x52 else 0x53, e.nSubCommand, e.nCommand, e.headerFlags * 2 ^ 16, e.tTime⟩

/-- **A header is read as it was written**, when the time is positive. -/
theorem matchHeader_headerLine {e : Event} (isReceiver : Bool) (h : 0 < e.tTime)
    (s : List UInt8) : matchHeader (e.headerLine isReceiver ++ s) = some (e.header isReceiver) := by
  obtain ⟨htime, hint⟩ := toNat_toUInt64_of_pos h
  have hflags : (longNumber (padded e.headerFlags) * 2 ^ 16 % 2 ^ 64).toNat =
      e.headerFlags * 2 ^ 16 := by
    have hlt := e.headerFlags_lt
    rw [longNumber_padded (by omega)]
    omega
  have hsub := number_padded (Nat.lt_trans e.nSubCommand_lt (by decide))
  have hcommand := number_padded (Nat.lt_trans e.nCommand_lt (by decide))
  have hpadded (n : ℕ) (cs : List Char) (s : List UInt8) :
      readNumber (padded n ++ (asciiBytes (' ' :: cs) ++ s)) =
        some (padded n, asciiBytes (' ' :: cs) ++ s) :=
    readNumber_append (padded_ne_nil n) (fun c => mem_padded) _
  have hdecimal (n : ℕ) (cs : List Char) (s : List UInt8) :
      readNumber (decimalBytes n ++ (asciiBytes (' ' :: cs) ++ s)) =
        some (decimalBytes n, asciiBytes (' ' :: cs) ++ s) :=
    readNumber_append (decimalBytes_ne_nil n) (fun c => mem_decimalBytes) _
  have hstart (d : Char) (s : List UInt8) : readText (asciiBytes ['[', ' '])
      (asciiBytes ['[', ' ', d] ++ s) = some (UInt8.ofNat d.toNat :: s) := by
    exact readText_append (asciiBytes ['[', ' ']) (UInt8.ofNat d.toNat :: s)
  rw [matchHeader, Event.headerLine, Event.header]
  cases isReceiver
  all_goals
    simp only [append_assoc, hstart, Option.bind_eq_bind, Option.bind_some, head?_cons,
      tail_cons, readText_append, hpadded, hdecimal, hflags, hsub, hcommand,
      longNumber_decimalBytes htime, hint, Int64.ofInt_toInt]
    rfl

/-! ## Flags -/

theorem and_two_pow_eq_zero_iff (n i : ℕ) : n &&& 2 ^ i = 0 ↔ n.testBit i = false := by
  constructor
  · intro h
    have hbit := congrArg (·.testBit i) h
    simpa [testBit_two_pow] using hbit
  · intro h
    refine eq_of_testBit_eq fun j => ?_
    rw [testBit_and, testBit_two_pow, zero_testBit]
    by_cases hj : i = j
    · rw [← hj, h, Bool.false_and]
    · rw [decide_eq_false hj, Bool.and_false]

theorem isReceiver_eq (e : Event) : e.isReceiver = !e.nFlags.testBit 21 := by
  have hiff : e.nFlags &&& flagSender = 0 ↔ e.nFlags.testBit 21 = false :=
    and_two_pow_eq_zero_iff e.nFlags 21
  rw [Event.isReceiver]
  cases h : e.nFlags.testBit 21
  · exact decide_eq_true (hiff.mpr h)
  · exact decide_eq_false fun hzero => by simp [hiff.mp hzero] at h

theorem testBit_headerFlags (e : Event) :
    (e.headerFlags * 2 ^ 16).testBit 21 = false ∧ (e.headerFlags * 2 ^ 16).testBit 23 = true := by
  rw [testBit_mul_two_pow, testBit_mul_two_pow, Event.headerFlags]
  simp only [testBit_and, testBit_mod_two_pow, testBit_shiftRight, testBit_or]
  constructor
  · have hmask : testBit 0x809F (21 - 16) = false := by decide
    rw [hmask]
    simp
  · have hmask : testBit 0x809F (23 - 16) = true := by decide
    have hflag : flagUnicode.testBit (16 + (23 - 16)) = true := by decide
    rw [hmask, hflag]
    simp

/-- **The flags of a header**: the direction is kept, and the texts are in UTF-8. -/
theorem testBit_flags {h : Header} (h21 : h.nFlags.testBit 21 = false)
    (h23 : h.nFlags.testBit 23 = true) :
    h.flags.1.testBit 21 = decide (h.cDir ≠ 0x52) ∧ h.flags.2 = true := by
  obtain ⟨n, hn, h21, h23⟩ : ∃ n, n = (if h.nCommand = commandRcvOffline then h.nFlags ||| flagOffline
      else h.nFlags) ∧ n.testBit 21 = false ∧ n.testBit 23 = true := by
    have hbit : flagOffline.testBit 21 = false := by decide
    refine ⟨_, rfl, ?_⟩
    split_ifs
    · rw [testBit_or, testBit_or, h21, h23, hbit]
      exact ⟨rfl, rfl⟩
    · exact ⟨h21, h23⟩
  obtain ⟨m, hm, hm21, hm23⟩ : ∃ m, m = (if h.cDir ≠ 0x52 then n ||| flagSender else n) ∧
      m.testBit 21 = decide (h.cDir ≠ 0x52) ∧ m.testBit 23 = true := by
    have hbit : flagSender.testBit 21 = true := by decide
    refine ⟨_, rfl, ?_⟩
    split_ifs with hdir
    · rw [testBit_or, testBit_or, h21, h23, hbit]
      exact ⟨(decide_eq_true hdir).symm, rfl⟩
    · exact ⟨h21.trans (decide_eq_false hdir).symm, h23⟩
  have hset : m &&& flagUnicode ≠ 0 := fun hzero =>
    absurd ((and_two_pow_eq_zero_iff m 23).mp hzero) (by rw [hm23]; decide)
  have hmask : (2 ^ 64 - 1 - flagUnicode).testBit 21 = true := by decide
  rw [Header.flags, ← hn, ← hm]
  simp only [if_pos hset, testBit_and, hm21, hmask, Bool.and_true, and_self]

theorem flags_header (e : Event) (isReceiver : Bool) :
    (e.header isReceiver).flags.1.testBit 21 = (!isReceiver) ∧
      (e.header isReceiver).flags.2 = true := by
  obtain ⟨hsender, hunicode⟩ := testBit_headerFlags e
  refine (testBit_flags (h := e.header isReceiver) hsender hunicode).imp_left fun h => h.trans ?_
  cases isReceiver <;> rfl

/-! ## Lines -/

/-- A line as `fgets` gives it. -/
def line (l : List UInt8) : List UInt8 := cStr (l ++ [nl])

theorem cStr_of_notMem {s : List UInt8} (h : 0 ∉ s) : cStr s = s := by
  refine takeWhile_eq_self_iff.mpr fun c hc => ?_
  exact decide_eq_true fun heq => h (heq ▸ hc)

theorem line_cons (l : List UInt8) : line (0x3A :: l) = 0x3A :: line l := by
  rw [line, cons_append, cStr, takeWhile_cons_of_pos (by decide)]
  rfl

theorem line_of_notMem {l : List UInt8} (h : 0 ∉ l) : line l = l ++ [nl] := by
  refine cStr_of_notMem fun hmem => ?_
  rcases mem_append.mp hmem with hmem | hmem
  · exact h hmem
  · exact absurd (mem_singleton.mp hmem) (by decide)

theorem line_ne_nil {l : List UInt8} (h : l.head? ≠ some 0) : line l ≠ [] := by
  cases l with
  | nil => exact cons_ne_nil _ _
  | cons c l =>
    have hc : c ≠ 0 := fun heq => h (congrArg some heq)
    rw [line, cons_append, cStr, takeWhile_cons_of_pos (by simpa using hc)]
    exact cons_ne_nil _ _

/-- **A value** is read from its line. -/
theorem getValidLine_line (h : f.head? ≠ some 0) (sz : List UInt8) (cs : Lines) :
    getValidLine (sz :: line (0x3A :: f) :: cs) =
      some (some (line f).dropLast, line (0x3A :: f) :: cs) := by
  rw [line_cons]
  simp only [getValidLine, tail_cons, head?_cons, ne_eq, not_true_eq_false, if_false,
    line_ne_nil h]

theorem head?_oneLine (h : f.head? ≠ some 0) : (oneLine f).head? ≠ some 0 := by
  cases f with
  | nil => exact h
  | cons c f =>
    intro heq
    have hc : (if c = nl then 0x20 else c) = 0 := Option.some.inj heq
    split_ifs at hc
    · exact absurd hc (by decide)
    · exact h (congrArg some hc)

theorem withLine_line {β : Type} (h : f.head? ≠ some 0) (sz : List UInt8)
    (cs : Lines) (k : List UInt8 → Lines → Option (Option β × Lines)) :
    withLine (sz :: line (0x3A :: oneLine f) :: cs) k =
      k (line (oneLine f)).dropLast (line (0x3A :: oneLine f) :: cs) := by
  rw [withLine, getValidLine_line (head?_oneLine h)]

/-- A value without line ends and NUL is read as it was. -/
theorem dropLast_line_oneLine (hnul : 0 ∉ f) (hnl : nl ∉ f) : (line (oneLine f)).dropLast = f := by
  rw [oneLine_of_notMem hnl, line_of_notMem hnul, dropLast_concat]

/-- The lines that are left when an entry has been read: none, or the header of another one. -/
def AtHeader (cs : Lines) : Prop := ∀ l ∈ cs.head?, l.head? = some 0x5B

theorem takeWhile_of_atHeader {cs : Lines} (h : AtHeader cs) :
    cs.takeWhile (fun l => decide (l.head? = some 0x3A)) = [] ∧
      cs.dropWhile (fun l => decide (l.head? = some 0x3A)) = cs := by
  cases cs with
  | nil => exact ⟨rfl, rfl⟩
  | cons l cs =>
    have hl : ¬ l.head? = some 0x3A := by
      rw [h l rfl]
      decide
    rw [takeWhile_cons_of_neg (by simpa using hl), dropWhile_cons_of_neg (by simpa using hl)]
    exact ⟨rfl, rfl⟩

/-- **A text** is read from its lines. -/
theorem getValidLines_lines (sz : List UInt8) (ls : List (List UInt8)) {cs : Lines}
    (h : AtHeader cs) :
    getValidLines (sz :: ((ls.map (0x3A :: ·)).map line ++ cs)) =
      ((ls.flatMap line).dropLast, cs) := by
  have hcolon : ∀ l ∈ (ls.map (0x3A :: ·)).map line, decide (l.head? = some 0x3A) = true := by
    intro l hl
    obtain ⟨l', hl', rfl⟩ := mem_map.mp hl
    obtain ⟨l, -, rfl⟩ := mem_map.mp hl'
    rw [line_cons]
    rfl
  obtain ⟨htake, hdrop⟩ := takeWhile_of_atHeader h
  simp only [getValidLines, tail_cons]
  rw [takeWhile_append_of_pos hcolon, dropWhile_append_of_pos hcolon, htake, hdrop,
    append_nil, map_map, flatMap_map]
  simp only [Function.comp_apply, line_cons, tail_cons]

theorem notMem_textLines {c : UInt8} (h : c ∉ text) : ∀ l ∈ textLines text, c ∉ l := by
  induction text with
  | nil =>
    intro l hl
    rw [mem_singleton.mp hl]
    exact not_mem_nil
  | cons d text ih =>
    rw [mem_cons, not_or] at h
    have ih := ih h.2
    rw [textLines]
    split_ifs
    · intro l hl
      rcases mem_cons.mp hl with rfl | hl
      · exact not_mem_nil
      · exact ih l hl
    · obtain ⟨l', ls, hlines⟩ := exists_cons_of_ne_nil (textLines_ne_nil text)
      rw [hlines] at ih ⊢
      intro l hl
      rcases mem_cons.mp hl with rfl | hl
      · exact not_mem_cons_of_ne_of_not_mem h.1 (ih l' mem_cons_self)
      · exact ih l (mem_cons_of_mem _ hl)

theorem nl_notMem_textLines (text : List UInt8) : ∀ l ∈ textLines text, nl ∉ l := by
  induction text with
  | nil =>
    intro l hl
    rw [mem_singleton.mp hl]
    exact not_mem_nil
  | cons c text ih =>
    rw [textLines]
    split_ifs with hc
    · intro l hl
      rcases mem_cons.mp hl with rfl | hl
      · exact not_mem_nil
      · exact ih l hl
    · obtain ⟨l', ls, hlines⟩ := exists_cons_of_ne_nil (textLines_ne_nil text)
      rw [hlines] at ih ⊢
      intro l hl
      rcases mem_cons.mp hl with rfl | hl
      · exact not_mem_cons_of_ne_of_not_mem (Ne.symm hc) (ih l' mem_cons_self)
      · exact ih l (mem_cons_of_mem _ hl)

theorem textLines_of_notMem (h : nl ∉ text) : textLines text = [text] := by
  induction text with
  | nil => rfl
  | cons c text ih =>
    rw [mem_cons, not_or] at h
    rw [textLines, if_neg (Ne.symm h.1), ih h.2]

theorem unlines_textLines (text : List UInt8) : unlines nl (textLines text) = text ++ [nl] := by
  induction text with
  | nil => rfl
  | cons c text ih =>
    rw [textLines]
    split_ifs with hc
    · rw [unlines_cons, ih, hc]
      rfl
    · obtain ⟨l, ls, hlines⟩ := exists_cons_of_ne_nil (textLines_ne_nil text)
      rw [hlines, unlines_cons] at ih
      rw [hlines]
      simp only [unlines_cons, cons_append, ih]

/-- A text without NUL is read as it was. -/
theorem dropLast_textLines (hnul : 0 ∉ text) : ((textLines text).flatMap line).dropLast = text := by
  have hlines : (textLines text).flatMap line = unlines nl (textLines text) :=
    flatMap_congr fun l hl => line_of_notMem (notMem_textLines hnul l hl)
  rw [hlines, unlines_textLines, dropLast_concat]

end Licq.History
