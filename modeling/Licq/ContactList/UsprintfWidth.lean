import Licq.ContactList.Usprintf

/-!
# ContactList/UsprintfWidth — the width of a field

A field of a format string may have a width: its value is to be padded to it, or cut.  `asked` is
the text that a format asks for, with the widths as numbers as they are written.  `User::usprintf`
cuts no value: what is too long for its width stays as it is on the left, and is an exception on the
right, since `erase` gets the negative number of characters that are missing.

The **main result** `aligns_iff` is that the format's widths have to be wide enough.
-/

namespace Licq

open Text Shell List

/-! ## The text that is asked for -/

/-- The width that is written after a `%`; zero is no width. -/
def writtenWidth (t : List Char) : ℕ :=
  ((if t.head? = some '-' then t.tail else t).takeWhile Char.isDigit).foldl
    (fun w d => w * 10 + (d.toNat - 48)) 0

def widthAt (flags : UsprintfFlags) (c : Char) (t : List Char) : ℕ :=
  if c = '%' ∧ flags.allowFieldWidth then writtenWidth t else 0

/-- The pieces of a format, past what the last ones took, each with the width that is written. -/
def widthsFrom (u : UserData) (flags : UsprintfFlags) : Bool → ℕ → List Char → List (Piece × ℕ)
  | _, _, [] => []
  | addQuotes, n + 1, _ :: t => widthsFrom u flags addQuotes n t
  | addQuotes, 0, c :: t =>
    (emit u flags addQuotes c t).pieces.map (·, widthAt flags c t) ++
      widthsFrom u flags (emit u flags addQuotes c t).addQuotes (emit u flags addQuotes c t).skip t

/-- The cursor before the first character. -/
def Cursor.start (flags : UsprintfFlags) (format : List Char) : Cursor :=
  ⟨format, 0, flags.quotes = .quoteAll ∨ (flags.quotes = .quotePipe ∧ format.head? = some '|')⟩

/-- The pieces of a format and their widths. -/
def widths (u : UserData) (flags : UsprintfFlags) (format : List Char) : List (Piece × ℕ) :=
  widthsFrom u flags (Cursor.start flags format).addQuotes 0 format

/-- A value that is padded to a width, or cut to it. -/
def fit (alignLeft : Bool) (width : ℕ) (value : List Char) : List Char :=
  if width = 0 then value
  else if width < value.length then value.take width
  else if alignLeft then value ++ List.replicate (width - value.length) ' '
  else List.replicate (width - value.length) ' ' ++ value

def Piece.asked (width : ℕ) : Piece → List Char
  | .lit c => [c]
  | .newline toDos => if toDos then ['\r', '\n'] else ['\n']
  | .field f quoted =>
    if quoted then quoteString (fit f.alignLeft width f.value) else fit f.alignLeft width f.value

/-- **The text that a format asks for.** -/
def asked (u : UserData) (flags : UsprintfFlags) (format : List Char) : List Char :=
  (widths u flags format).flatMap fun i => i.1.asked i.2

/-- The loop comes to the end of the string, without an exception and without a width that an `int`
does not hold, and the string is what was asked for. -/
def Aligns (u : UserData) (flags : UsprintfFlags) (format : List Char) : Prop :=
  (∀ i ∈ widths u flags format, i.2 < 2 ^ 31) ∧
    ∃ st, Cursor.loop u flags format.length (Cursor.start flags format) = some st ∧
      st.s.length ≤ st.pos ∧ st.s = asked u flags format

/-- A value is not longer than its width. -/
def WideEnough (i : Piece × ℕ) : Prop :=
  ∀ f quoted, i.1 = .field f quoted → i.2 = 0 ∨ f.value.length ≤ i.2

/-! ## The widths -/

theorem fst_widthsFrom (u : UserData) (flags : UsprintfFlags) (addQuotes : Bool) (n : ℕ)
    (t : List Char) :
    (widthsFrom u flags addQuotes n t).map Prod.fst = piecesFrom u flags addQuotes n t := by
  induction t generalizing addQuotes n with
  | nil => cases n <;> rfl
  | cons c t ih =>
    cases n with
    | succ n => exact ih addQuotes n
    | zero =>
      rw [widthsFrom, piecesFrom, map_append, map_map, ih]
      exact congrArg (· ++ _) (map_id _)

theorem foldl_bmod (digits : List Char) (m w : ℕ) :
    digits.foldl (fun (w : ℤ) d => (w * 10 + (d.toNat - 48 : ℕ)).bmod m) ((w : ℤ).bmod m) =
      ((digits.foldl (fun w d => w * 10 + (d.toNat - 48)) w : ℕ) : ℤ).bmod m := by
  induction digits generalizing w with
  | nil => rfl
  | cons d digits ih =>
    have hd : ((w : ℤ).bmod m * 10 + (d.toNat - 48 : ℕ)).bmod m =
        ((w * 10 + (d.toNat - 48) : ℕ) : ℤ).bmod m := by
      rw [← Int.bmod_add_bmod, Int.bmod_mul_bmod, Int.bmod_add_bmod, Int.natCast_add,
        Int.natCast_mul]
      rfl
    rw [foldl_cons, foldl_cons, hd, ih]

/-- The width that is read is the one that is written, as an `int`. -/
theorem fieldWidth_eq (flags : UsprintfFlags) (t : List Char) :
    (directive flags.allowFieldWidth t).fieldWidth =
      (widthAt flags '%' t : ℤ).bmod (2 ^ 32) := by
  cases hallow : flags.allowFieldWidth with
  | false =>
    rw [widthAt, if_neg (by simp [hallow])]
    rfl
  | true =>
    rw [widthAt, if_pos ⟨rfl, hallow⟩, writtenWidth, ← foldl_bmod, directive, if_pos rfl]
    simp only [beq_iff_eq, Nat.cast_zero, Int.zero_bmod]

theorem fieldWidth_of_mem_emit {u : UserData} {flags : UsprintfFlags} {addQuotes : Bool} {c : Char}
    {t : List Char} {f : Field} {quoted : Bool}
    (h : Piece.field f quoted ∈ (emit u flags addQuotes c t).pieces) :
    c = '%' ∧ f.fieldWidth = (directive flags.allowFieldWidth t).fieldWidth := by
  have hlit : ∀ l : List Char, Piece.field f quoted ∉ l.map Piece.lit := fun l hmem => by
    obtain ⟨x, -, hx⟩ := mem_map.mp hmem
    cases hx
  rw [Licq.emit] at h
  split at h
  · split at h
    · exact absurd h (hlit _)
    · exact absurd h (hlit _)
  split at h
  · rename_i hc
    split at h
    · exact absurd h (hlit _)
    · simp only at h
      split at h
      · exact absurd h (hlit _)
      · obtain ⟨rfl, -⟩ := Piece.field.inj (mem_singleton.mp h)
        exact ⟨hc, rfl⟩
  split at h
  · exact absurd h (by simp)
  · exact absurd h (hlit [c])

theorem fieldWidth_of_mem {u : UserData} {flags : UsprintfFlags} {addQuotes : Bool} {n : ℕ}
    {t : List Char} {f : Field} {quoted : Bool} {width : ℕ}
    (h : (Piece.field f quoted, width) ∈ widthsFrom u flags addQuotes n t) :
    f.fieldWidth = (width : ℤ).bmod (2 ^ 32) := by
  induction t generalizing addQuotes n with
  | nil => cases n <;> exact absurd h not_mem_nil
  | cons c t ih =>
    cases n with
    | succ n => exact ih h
    | zero =>
      rw [widthsFrom] at h
      rcases mem_append.mp h with h | h
      · obtain ⟨p, hp, heq⟩ := mem_map.mp h
        obtain ⟨rfl, rfl⟩ := Prod.mk.inj heq
        obtain ⟨rfl, hwidth⟩ := fieldWidth_of_mem_emit hp
        rw [hwidth, fieldWidth_eq]
      · exact ih h

/-! ## One value -/

theorem length_le_flatMap_escapeQuote (l : List Char) :
    l.length ≤ (l.flatMap escapeQuote).length := by
  induction l with
  | nil => exact le_rfl
  | cons c l ih =>
    have hc : 1 ≤ (escapeQuote c).length := by
      rw [escapeQuote]
      split_ifs
      · decide
      · rfl
    rw [flatMap_cons, length_append, length_cons]
    omega

/-- A part of a string is quoted shorter. -/
theorem length_quoteString_lt {l : List Char} (a b m : List Char) (hm : m ≠ []) :
    (quoteString l).length < (quoteString (a ++ (l ++ m) ++ b)).length := by
  have hpos := length_pos_iff.mpr hm
  have hle := length_le_flatMap_escapeQuote m
  rw [quoteString_eq, quoteString_eq, singleQuote, singleQuote]
  simp only [flatMap_append, length_cons, length_append]
  omega

variable {f : Field} {width : ℕ} {sz : List Char}

/-- The width of an `int` is the width. -/
theorem bmod_width (hwidth : width < 2 ^ 31) : ((width : ℕ) : ℤ).bmod (2 ^ 32) = width := by
  rw [Int.bmod_eq_of_le] <;> omega

/-- **A value that is not too long** is padded as asked. -/
theorem text_of_le (hf : f.fieldWidth = width) (hwidth : width < 2 ^ 31)
    (hlen : width = 0 ∨ f.value.length ≤ width) :
    f.text = some (fit f.alignLeft width f.value) := by
  rw [Field.text, align, hf, fit]
  rcases Nat.eq_zero_or_pos width with rfl | hpos
  · rw [if_neg (by decide), if_pos rfl]
  have hle := hlen.resolve_left hpos.ne'
  have hbmod : ((width : ℤ) - f.value.length).bmod (2 ^ 32) = (width - f.value.length : ℕ) := by
    rw [← Int.ofNat_sub hle, bmod_width (by omega)]
  rw [if_pos (by omega), if_neg hpos.ne', if_neg (Nat.not_lt.mpr hle), hbmod]
  simp only [Int.toNat_natCast, if_neg (Int.not_lt.mpr (Int.natCast_nonneg _))]
  split_ifs <;> rfl

/-- A value that is too long is not cut. -/
theorem exists_of_text (hf : f.fieldWidth = width) (hpos : 0 < width) (htext : f.text = some sz) :
    ∃ a b, sz = a ++ f.value ++ b := by
  rw [Field.text, align, hf, if_pos (by omega)] at htext
  simp only at htext
  split_ifs at htext
  · exact ⟨[], _, (Option.some_inj.mp htext).symm⟩
  · exact ⟨_, [], by rw [append_nil]; exact (Option.some_inj.mp htext).symm⟩

/-! ## The pieces -/

/-- The width of a field is the one beside it. -/
def Reads (i : Piece × ℕ) : Prop :=
  i.2 < 2 ^ 31 ∧ ∀ f quoted, i.1 = .field f quoted → f.fieldWidth = i.2

theorem render_of_wideEnough {i : Piece × ℕ} (hreads : Reads i) (h : WideEnough i) :
    i.1.render = some (i.1.asked i.2) := by
  obtain ⟨p, width⟩ := i
  cases p with
  | lit c => rfl
  | newline toDos => rfl
  | field f quoted =>
    rw [Piece.render, text_of_le (hreads.2 f quoted rfl) hreads.1 (h f quoted rfl)]
    rfl

theorem length_lt_of_not_wideEnough {i : Piece × ℕ} {s : List Char} (hreads : Reads i)
    (h : ¬ WideEnough i) (hs : i.1.render = some s) : (i.1.asked i.2).length < s.length := by
  obtain ⟨p, width⟩ := i
  cases p with
  | lit c => exact absurd (fun f quoted h => by cases h) h
  | newline toDos => exact absurd (fun f quoted h => by cases h) h
  | field f quoted =>
    have hlong : 0 < width ∧ width < f.value.length := by
      by_contra hlong
      refine h fun g quoted' heq => ?_
      obtain ⟨rfl, rfl⟩ := Piece.field.inj heq
      simp only
      omega
    obtain ⟨sz, htext, rfl⟩ := Option.map_eq_some_iff.mp hs
    obtain ⟨a, b, rfl⟩ := exists_of_text (hreads.2 f quoted rfl) hlong.1 htext
    have hfit : fit f.alignLeft width f.value = f.value.take width := by
      rw [fit, if_neg hlong.1.ne', if_pos hlong.2]
    have hrest : f.value.drop width ≠ [] := by
      rw [ne_eq, drop_eq_nil_iff]
      omega
    have hlt := length_quoteString_lt (l := f.value.take width) a b _ hrest
    rw [take_append_drop] at hlt
    simp only [Piece.asked, hfit]
    cases quoted with
    | true => exact hlt
    | false =>
      simp only [Bool.false_eq_true, if_false, length_append, length_take]
      omega

/-- **Pieces render to what is asked**, or to more. -/
theorem render_widths {is : List (Piece × ℕ)} (hreads : ∀ i ∈ is, Reads i) {s : List Char}
    (h : render (is.map Prod.fst) = some s) :
    (is.flatMap fun i => i.1.asked i.2).length ≤ s.length ∧
      ((is.flatMap fun i => i.1.asked i.2).length = s.length → ∀ i ∈ is, WideEnough i) := by
  induction is generalizing s with
  | nil => exact ⟨Nat.zero_le _, nofun⟩
  | cons i is ih =>
    obtain ⟨hi, his⟩ := forall_mem_cons.mp hreads
    rw [map_cons, render, Option.bind_eq_some_iff] at h
    obtain ⟨a, ha, hrest⟩ := h
    obtain ⟨b, hb, rfl⟩ := Option.map_eq_some_iff.mp hrest
    obtain ⟨hle, hwide⟩ := ih his hb
    rw [flatMap_cons, length_append, length_append]
    by_cases hfits : WideEnough i
    · rw [render_of_wideEnough hi hfits, Option.some_inj] at ha
      rw [ha]
      exact ⟨by omega, fun heq => forall_mem_cons.mpr ⟨hfits, hwide (by omega)⟩⟩
    · have hlt := length_lt_of_not_wideEnough hi hfits ha
      exact ⟨by omega, fun heq => by omega⟩

theorem render_widths_iff {is : List (Piece × ℕ)} (hreads : ∀ i ∈ is, Reads i) :
    render (is.map Prod.fst) = some (is.flatMap fun i => i.1.asked i.2) ↔
      ∀ i ∈ is, WideEnough i := by
  constructor
  · intro h
    exact (render_widths hreads h).2 rfl
  · intro h
    induction is with
    | nil => rfl
    | cons i is ih =>
      obtain ⟨hi, his⟩ := forall_mem_cons.mp hreads
      obtain ⟨hfits, hwide⟩ := forall_mem_cons.mp h
      rw [map_cons, render, render_of_wideEnough hi hfits, ih his hwide, flatMap_cons]
      rfl

/-! ## The whole format -/

/-- The loop ends at the end of the string. -/
theorem Cursor.loop_finished (u : UserData) (flags : UsprintfFlags) {n : ℕ} {st st' : Cursor}
    (hn : (st.s.drop st.pos).length ≤ n) (h : Cursor.loop u flags n st = some st') :
    st'.s.length ≤ st'.pos := by
  induction n generalizing st with
  | zero =>
    cases h
    exact drop_eq_nil_iff.mp (length_eq_zero_iff.mp (Nat.le_zero.mp hn))
  | succ n ih =>
    rw [Cursor.loop] at h
    split_ifs at h with hlt
    · obtain ⟨next, hstep, hloop⟩ := Option.bind_eq_some_iff.mp h
      refine ih ?_ hloop
      obtain ⟨c, t, hdrop⟩ : ∃ c t, st.s.drop st.pos = c :: t :=
        exists_cons_of_ne_nil fun hnil => by
          rw [drop_eq_nil_iff] at hnil
          omega
      obtain ⟨done, -, hst⟩ := Cursor.eq_of_drop hdrop
      have hrenders := Cursor.step_append u flags done t c st.addQuotes
      rw [← hst, hstep, Cursor.Renders] at hrenders
      split at hrenders
      · cases hrenders
      · obtain ⟨st'', heq, hadv⟩ := hrenders
        cases heq
        rw [hadv.after, length_drop]
        rw [hdrop, length_cons] at hn
        omega
    · cases h
      exact Nat.le_of_not_lt hlt

theorem usprintf_widths (u : UserData) (flags : UsprintfFlags) (format : List Char) :
    usprintf u flags format = render ((widths u flags format).map Prod.fst) := by
  rw [usprintf_eq, widths, fst_widthsFrom]
  rfl

/-- **A format is aligned** just when every width is wide enough, and is an `int`. -/
theorem aligns_iff (u : UserData) (flags : UsprintfFlags) (format : List Char) :
    Aligns u flags format ↔
      ∀ i ∈ widths u flags format, i.2 < 2 ^ 31 ∧ WideEnough i := by
  rw [Aligns, forall₂_and]
  refine and_congr_right fun hint => ?_
  have hreads : ∀ i ∈ widths u flags format, Reads i := by
    rintro ⟨p, width⟩ hi
    refine ⟨hint _ hi, fun f quoted heq => ?_⟩
    subst heq
    rw [fieldWidth_of_mem hi, bmod_width (hint _ hi)]
  have husprintf := usprintf_widths u flags format
  have hstart : usprintf u flags format =
      (Cursor.loop u flags format.length (Cursor.start flags format)).map Cursor.s := rfl
  rw [← render_widths_iff hreads, ← husprintf, hstart, Option.map_eq_some_iff]
  constructor
  · rintro ⟨st, hloop, -, hs⟩
    exact ⟨st, hloop, hs⟩
  · rintro ⟨st, hloop, hs⟩
    exact ⟨st, hloop, Cursor.loop_finished u flags (List.length_drop ▸ Nat.sub_le _ _) hloop, hs⟩

/-- `%3a` of a longer alias: `erase` throws. -/
theorem not_aligns : ¬ ∀ (u : UserData) (flags : UsprintfFlags) (format : List Char),
    Aligns u flags format := by
  intro h
  obtain ⟨-, st, hloop, -⟩ :=
    h (UserData.ofAlias ['A', 'l', 'i', 'c', 'e']) ⟨.quoteNone, false, true⟩ ['%', '3', 'a']
  have hnone : Cursor.loop (UserData.ofAlias ['A', 'l', 'i', 'c', 'e']) ⟨.quoteNone, false, true⟩ 3
      (Cursor.start ⟨.quoteNone, false, true⟩ ['%', '3', 'a']) = none := by
    decide
  exact absurd (hnone.symm.trans hloop) (by simp)

end Licq
