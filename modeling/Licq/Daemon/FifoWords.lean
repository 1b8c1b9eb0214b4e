import Licq.Daemon.Fifo
import Mathlib.Data.List.DropRight

/-!
# Daemon/FifoWords — the words of a command

A command is read character by character, in the gap between two words, in a word, between quotes,
or behind a backslash between quotes.  `words` is what the words are, with the quotes and the
escapes resolved, and `unreads` is what is still to be read at the beginning of each.
-/

namespace Licq.Fifo

open List

/-! ## Modes -/

inductive Mode
  | gap | plain | quoted | escaped
  deriving DecidableEq, Repr

namespace Mode

def next : Mode → UInt8 → Mode
  | gap, c | plain, c => if isspace c then gap else if c = 34 then quoted else plain
  | quoted, c => if c = 34 then plain else if c = 92 then escaped else quoted
  | escaped, _ => quoted

/-- The character that is added to a word. -/
def out : Mode → UInt8 → Option UInt8
  | gap, c | plain, c => if isspace c ∨ c = 34 then none else some c
  | quoted, c => if c = 34 ∨ c = 92 then none else some c
  | escaped, c => some (getQuotedChar c)

/-- The mode behind some text. -/
def final (m : Mode) (t : List UInt8) : Mode := t.foldl next m

end Mode

/-! ## Words -/

/-- A character at the beginning of the first word. -/
def push (c : UInt8) : List (List UInt8) → List (List UInt8)
  | [] => [[c]]
  | w :: ws => (c :: w) :: ws

/-- The words of a text; in another mode than the gap, the first is what belongs to a word that has
begun. -/
def wordsFrom : Mode → List UInt8 → List (List UInt8)
  | .gap, [] => []
  | _, [] => [[]]
  | m, c :: t =>
    let ws := match m.out c with
      | none => wordsFrom (m.next c) t
      | some b => push b (wordsFrom (m.next c) t)
    if m ≠ .gap ∧ m.next c = .gap then [] :: ws else ws

/-- What is still to be read at the beginning of each word that begins in a text. -/
def unreadsFrom : Mode → List UInt8 → List (List UInt8)
  | _, [] => []
  | m, c :: t =>
    if m = .gap ∧ m.next c ≠ .gap then (c :: t) :: unreadsFrom (m.next c) t
    else unreadsFrom (m.next c) t

/-- A line without the spaces around it. -/
def trim (line : List UInt8) : List UInt8 := (line.dropWhile isspace).rdropWhile isspace

/-- **The words of a line.** -/
def words (line : List UInt8) : List (List UInt8) := wordsFrom .gap (trim line)

def unreads (line : List UInt8) : List (List UInt8) := unreadsFrom .gap (trim line)

/-- The line ends behind a backslash between quotes. -/
def Dangling (line : List UInt8) : Prop := Mode.gap.final (trim line) = .escaped

instance (line : List UInt8) : Decidable (Dangling line) := inferInstanceAs (Decidable (_ = _))

/-! ## Small facts -/

variable {c : UInt8} {t : List UInt8} {m : Mode}

@[simp] theorem Mode.final_nil (m : Mode) : m.final [] = m := rfl

@[simp] theorem Mode.final_cons (m : Mode) (c : UInt8) (t : List UInt8) :
    m.final (c :: t) = (m.next c).final t := rfl

theorem Mode.final_concat (m : Mode) (c : UInt8) (t : List UInt8) :
    m.final (t ++ [c]) = (m.final t).next c := by
  rw [final, foldl_append]
  rfl

/-- Only a space makes a gap. -/
theorem Mode.next_ne_gap (hc : isspace c = false) : m.next c ≠ gap := by
  cases m with
  | gap | plain =>
    rw [next, hc, if_neg Bool.false_ne_true]
    split_ifs <;> exact Mode.noConfusion
  | quoted =>
    rw [next]
    split_ifs <;> exact Mode.noConfusion
  | escaped => exact Mode.noConfusion

theorem wordsFrom_gap_space (hc : isspace c) : wordsFrom .gap (c :: t) = wordsFrom .gap t := by
  simp [wordsFrom, Mode.next, Mode.out, hc]

theorem unreadsFrom_gap_space (hc : isspace c) :
    unreadsFrom .gap (c :: t) = unreadsFrom .gap t := by
  simp [unreadsFrom, Mode.next, hc]

theorem wordsFrom_gap_dropWhile (t : List UInt8) :
    wordsFrom .gap (t.dropWhile isspace) = wordsFrom .gap t := by
  induction t with
  | nil => rfl
  | cons c t ih =>
    cases hc : isspace c with
    | true => rw [dropWhile_cons_of_pos hc, ih, wordsFrom_gap_space hc]
    | false => rw [dropWhile_cons_of_neg (by rw [hc]; exact Bool.false_ne_true)]

theorem unreadsFrom_gap_dropWhile (t : List UInt8) :
    unreadsFrom .gap (t.dropWhile isspace) = unreadsFrom .gap t := by
  induction t with
  | nil => rfl
  | cons c t ih =>
    cases hc : isspace c with
    | true => rw [dropWhile_cons_of_pos hc, ih, unreadsFrom_gap_space hc]
    | false => rw [dropWhile_cons_of_neg (by rw [hc]; exact Bool.false_ne_true)]

theorem Mode.final_gap_dropWhile (t : List UInt8) :
    Mode.gap.final (t.dropWhile isspace) = Mode.gap.final t := by
  induction t with
  | nil => rfl
  | cons c t ih =>
    cases hc : isspace c with
    | true =>
      rw [dropWhile_cons_of_pos hc, ih, final_cons, next, if_pos hc]
    | false => rw [dropWhile_cons_of_neg (by rw [hc]; exact Bool.false_ne_true)]

/-- Where a word begins, the gap is as good as the word. -/
theorem wordsFrom_plain_eq (hc : isspace c = false) :
    wordsFrom .plain (c :: t) = wordsFrom .gap (c :: t) := by
  have hout : Mode.plain.out c = Mode.gap.out c := rfl
  have hnext : Mode.plain.next c = Mode.gap.next c := rfl
  have hne : Mode.gap.next c ≠ .gap := Mode.next_ne_gap hc
  simp only [wordsFrom, hout, hnext, hne, and_false, if_false]

theorem unreadsFrom_gap_eq (hc : isspace c = false) :
    unreadsFrom .gap (c :: t) = (c :: t) :: unreadsFrom .plain (c :: t) := by
  have hnext : Mode.plain.next c = Mode.gap.next c := rfl
  have hne : Mode.gap.next c ≠ .gap := Mode.next_ne_gap hc
  have hplain : Mode.plain ≠ Mode.gap := Mode.noConfusion
  rw [unreadsFrom, if_pos ⟨rfl, hne⟩, unreadsFrom, if_neg fun h => hplain h.1, hnext]

theorem wordsFrom_ne_nil (hm : m ≠ .gap) (t : List UInt8) : wordsFrom m t ≠ [] := by
  induction t generalizing m with
  | nil => cases m <;> simp [wordsFrom] at hm ⊢
  | cons c t ih =>
    rw [wordsFrom]
    split_ifs with h
    · exact cons_ne_nil _ _
    · have hne := ih fun heq => h ⟨hm, heq⟩
      split
      · exact hne
      · obtain ⟨w, ws, hws⟩ := exists_cons_of_ne_nil hne
        rw [hws]
        exact cons_ne_nil _ _

theorem getQuotedChar_ne_zero (hc : c ≠ 0) : getQuotedChar c ≠ 0 := by
  rw [getQuotedChar]
  split_ifs <;> first | exact hc | decide

/-- A word has no null character. -/
theorem zero_notMem_wordsFrom (ht : 0 ∉ t) : ∀ w ∈ wordsFrom m t, 0 ∉ w := by
  induction t generalizing m with
  | nil =>
    intro w hw
    cases m <;> simp_all [wordsFrom]
  | cons c t ih =>
    rw [mem_cons, not_or] at ht
    have hws := @ih (m.next c) ht.2
    have hout : ∀ b, m.out c = some b → b ≠ 0 := by
      intro b hb
      cases m with
      | gap | plain | quoted =>
        rw [Mode.out] at hb
        split_ifs at hb
        exact Option.some_inj.mp hb ▸ Ne.symm ht.1
      | escaped => exact Option.some_inj.mp hb ▸ getQuotedChar_ne_zero (Ne.symm ht.1)
    have hpush : ∀ b, b ≠ 0 → ∀ w ∈ push b (wordsFrom (m.next c) t), 0 ∉ w := by
      intro b hb w hw
      cases hcase : wordsFrom (m.next c) t with
      | nil =>
        rw [hcase, push, mem_singleton] at hw
        rw [hw, mem_singleton]
        exact Ne.symm hb
      | cons v vs =>
        rw [hcase, push] at hw
        rw [hcase] at hws
        rcases mem_cons.mp hw with rfl | hw
        · rw [mem_cons, not_or]
          exact ⟨Ne.symm hb, hws v mem_cons_self⟩
        · exact hws w (mem_cons_of_mem v hw)
    rw [wordsFrom]
    intro w hw
    split_ifs at hw
    · rcases mem_cons.mp hw with rfl | hw
      · exact not_mem_nil
      · split at hw
        · exact hws w hw
        · rename_i b hb
          exact hpush b (hout b hb) w hw
    · split at hw
      · exact hws w hw
      · rename_i b hb
        exact hpush b (hout b hb) w hw

theorem ne_nil_of_mem_unreadsFrom {u : List UInt8} (hu : u ∈ unreadsFrom m t) : u ≠ [] := by
  induction t generalizing m with
  | nil => exact absurd hu not_mem_nil
  | cons c t ih =>
    rw [unreadsFrom] at hu
    split_ifs at hu
    · rcases mem_cons.mp hu with rfl | hu
      · exact cons_ne_nil _ _
      · exact ih hu
    · exact ih hu

/-! ## The spaces around a line -/

/-- A line that is not only spaces, without those around it. -/
structure Trimmed (line lead text trail : List UInt8) : Prop where
  eq : line = lead ++ (text ++ trail)
  lead_eq : line.takeWhile isspace = lead
  trim_eq : trim line = text
  lead_space : ∀ c ∈ lead, isspace c = true
  trail_space : ∀ c ∈ trail, isspace c = true
  head : ∃ c t, text = c :: t ∧ isspace c = false
  last : ∃ t c, text = t ++ [c] ∧ isspace c = false

theorem exists_trimmed {line : List UInt8} (h : trim line ≠ []) :
    ∃ lead text trail, Trimmed line lead text trail := by
  have hdrop : trim line ++ (line.dropWhile isspace).rtakeWhile isspace = line.dropWhile isspace :=
    rdropWhile_append_rtakeWhile
  refine ⟨line.takeWhile isspace, trim line, (line.dropWhile isspace).rtakeWhile isspace,
    ?_, rfl, rfl, fun c => mem_takeWhile_imp, fun c => mem_rtakeWhile_imp, ?_, ?_⟩
  · rw [hdrop, takeWhile_append_dropWhile]
  · obtain ⟨c, t, ht⟩ := exists_cons_of_ne_nil h
    have heq : line.dropWhile isspace = c :: (t ++ (line.dropWhile isspace).rtakeWhile isspace) :=
      hdrop.symm.trans (by rw [ht]; rfl)
    have hne : line.dropWhile isspace ≠ [] := fun h => cons_ne_nil _ _ (heq.symm.trans h)
    have hhead := head_dropWhile_not isspace hne
    have hc : (line.dropWhile isspace).head hne = c := by
      have hfirst := congrArg head? heq
      rwa [head?_eq_some_head hne, head?_cons, Option.some_inj] at hfirst
    rw [hc] at hhead
    exact ⟨c, t, ht, by simpa using hhead⟩
  · have hlast := rdropWhile_last_not isspace (line.dropWhile isspace) h
    exact ⟨_, _, (dropLast_append_getLast h).symm, Bool.eq_false_iff.mpr hlast⟩

theorem trim_eq_nil_iff {line : List UInt8} :
    trim line = [] ↔ ∀ c ∈ line, isspace c = true := by
  rw [trim, rdropWhile_eq_nil_iff]
  constructor
  · intro h c hc
    rw [← takeWhile_append_dropWhile (p := isspace) (l := line)] at hc
    exact (mem_append.mp hc).elim mem_takeWhile_imp (h c)
  · exact fun h c hc => h c ((dropWhile_sublist isspace).subset hc)

/-- A line has a word unless it is only spaces. -/
theorem words_eq_nil_iff {line : List UInt8} : words line = [] ↔ trim line = [] := by
  constructor
  · intro h
    by_contra hne
    obtain ⟨lead, text, trail, ht⟩ := exists_trimmed hne
    obtain ⟨c, t, htext, hc⟩ := ht.head
    rw [words, ht.trim_eq, htext, ← wordsFrom_plain_eq hc] at h
    exact wordsFrom_ne_nil Mode.noConfusion _ h
  · intro h
    rw [words, h]
    rfl

/-- A line without the spaces around it does not end in a gap. -/
theorem Trimmed.final_ne_gap {line lead text trail : List UInt8}
    (h : Trimmed line lead text trail) : m.final text ≠ .gap := by
  obtain ⟨t, c, htext, hc⟩ := h.last
  rw [htext, Mode.final_concat]
  exact Mode.next_ne_gap hc

end Licq.Fifo
