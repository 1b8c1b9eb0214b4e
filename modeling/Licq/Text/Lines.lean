import Mathlib.Data.List.Induction
import Mathlib.Tactic.Ring

/-!
# Text/Lines — a text as a list of terminated lines

`unlines nl ls` writes each line of `ls` followed by the terminator `nl`; `lines nl` reads a text
back, a last line without terminator included.  On terminator-free lines the two are inverse
(`lines_unlines`), and a text that is empty or ends in `nl` is the `unlines` of its lines
(`unlines_lines`).
-/

namespace Text

open List

variable {α : Type*}

/-- The text of a list of lines, each one terminated. -/
def unlines (nl : α) (ls : List (List α)) : List α := ls.flatMap (· ++ [nl])

@[simp] theorem unlines_nil (nl : α) : unlines nl [] = [] := rfl

@[simp] theorem unlines_cons (nl : α) (l : List α) (ls : List (List α)) :
    unlines nl (l :: ls) = l ++ nl :: unlines nl ls := by
  simp [unlines]

@[simp] theorem unlines_append (nl : α) (a b : List (List α)) :
    unlines nl (a ++ b) = unlines nl a ++ unlines nl b := by
  simp [unlines]

theorem unlines_eq_nil_iff {nl : α} {ls : List (List α)} : unlines nl ls = [] ↔ ls = [] := by
  cases ls <;> simp

/-- A nonempty text of lines ends in the terminator. -/
theorem getLast?_unlines {nl : α} {ls : List (List α)} (h : ls ≠ []) :
    (unlines nl ls).getLast? = some nl := by
  obtain ⟨a, l, rfl⟩ := (eq_nil_or_concat ls).resolve_left h
  simp

/-- From the terminator that ends the lines `a`, the text is that terminator and the lines `b`. -/
theorem drop_unlines (nl : α) (a b : List (List α)) :
    (nl :: unlines nl (a ++ b)).drop (unlines nl a).length = nl :: unlines nl b := by
  obtain rfl | ha := eq_or_ne a []
  · simp
  obtain ⟨t, ht⟩ : ∃ t, unlines nl a = t ++ [nl] :=
    getLast?_eq_some_iff.mp (getLast?_unlines ha)
  have hlen : (unlines nl a).length = (nl :: t).length := by rw [ht]; simp
  rw [unlines_append, hlen, ht, append_assoc, ← cons_append, drop_left]
  rfl

/-- The line terminator occurs in none of the lines. -/
def Terminated (nl : α) (ls : List (List α)) : Prop := ∀ l ∈ ls, nl ∉ l

theorem Terminated.nil {nl : α} : Terminated nl [] := by simp [Terminated]

@[simp] theorem terminated_cons {nl : α} {l : List α} {ls : List (List α)} :
    Terminated nl (l :: ls) ↔ nl ∉ l ∧ Terminated nl ls := by simp [Terminated]

@[simp] theorem terminated_append {nl : α} {a b : List (List α)} :
    Terminated nl (a ++ b) ↔ Terminated nl a ∧ Terminated nl b := by
  simp [Terminated, or_imp, forall_and]

section Lines

variable [DecidableEq α]

/-- The lines of a text; a last line without terminator is a line too. -/
def lines (nl : α) : List α → List (List α)
  | [] => []
  | c :: s =>
    if c = nl then [] :: lines nl s
    else match lines nl s with
      | [] => [[c]]
      | l :: ls => (c :: l) :: ls

@[simp] theorem lines_nil (nl : α) : lines nl [] = [] := rfl

@[simp] theorem lines_nl_cons (nl : α) (s : List α) : lines nl (nl :: s) = [] :: lines nl s := by
  simp [lines]

/-- **The lines of a text carry no terminator.** -/
theorem terminated_lines (nl : α) (s : List α) : Terminated nl (lines nl s) := by
  induction s with
  | nil => exact Terminated.nil
  | cons c s ih =>
    by_cases hc : c = nl
    · subst hc
      simpa using ih
    · rw [lines, if_neg hc]
      cases hs : lines nl s with
      | nil => simpa [Terminated] using Ne.symm hc
      | cons l ls =>
        rw [hs, terminated_cons] at ih
        exact terminated_cons.mpr ⟨by simpa [Ne.symm hc] using ih.1, ih.2⟩

/-- The lines of a text that are terminated; what follows the last terminator is left out. -/
def terminatedLines (nl : α) : List α → List (List α)
  | [] => []
  | c :: s =>
    if c = nl then [] :: terminatedLines nl s
    else match terminatedLines nl s with
      | [] => []
      | l :: ls => (c :: l) :: ls

theorem terminatedLines_of_notMem {nl : α} {s : List α} (h : nl ∉ s) : terminatedLines nl s = [] := by
  induction s with
  | nil => rfl
  | cons c s ih =>
    rw [mem_cons, not_or] at h
    rw [terminatedLines, if_neg (Ne.symm h.1), ih h.2]

/-- The first terminator of a text ends its first line. -/
theorem terminatedLines_append_nl {nl : α} {l : List α} (hl : nl ∉ l) (s : List α) :
    terminatedLines nl (l ++ nl :: s) = l :: terminatedLines nl s := by
  induction l with
  | nil => rw [nil_append, terminatedLines, if_pos rfl]
  | cons c l ih =>
    rw [mem_cons, not_or] at hl
    rw [cons_append, terminatedLines, if_neg (Ne.symm hl.1), ih hl.2]

/-- A terminated line at the front of a text is its first line. -/
theorem lines_append_nl {nl : α} {l : List α} (hl : nl ∉ l) (s : List α) :
    lines nl (l ++ nl :: s) = l :: lines nl s := by
  induction l with
  | nil => simp
  | cons c l ih =>
    rw [mem_cons, not_or] at hl
    rw [cons_append, lines, if_neg (Ne.symm hl.1), ih hl.2]

/-- **Reading back the text of terminator-free lines gives the lines.** -/
theorem lines_unlines {nl : α} {ls : List (List α)} (h : Terminated nl ls) :
    lines nl (unlines nl ls) = ls := by
  induction ls with
  | nil => rfl
  | cons l ls ih =>
    rw [terminated_cons] at h
    rw [unlines_cons, lines_append_nl h.1, ih h.2]

/-- The letters of the lines of a text are letters of the text. -/
theorem mem_of_mem_lines {nl c : α} {s l : List α} (hl : l ∈ lines nl s) (hc : c ∈ l) : c ∈ s := by
  induction s generalizing l with
  | nil => exact absurd hl not_mem_nil
  | cons d s ih =>
    by_cases hd : d = nl
    · subst hd
      rw [lines_nl_cons] at hl
      rcases mem_cons.mp hl with rfl | hl
      · exact absurd hc not_mem_nil
      · exact mem_cons_of_mem _ (ih hl hc)
    · rw [lines, if_neg hd] at hl
      cases hs : lines nl s with
      | nil =>
        rw [hs] at hl
        obtain rfl := mem_singleton.mp hl
        exact mem_cons.mpr (Or.inl (mem_singleton.mp hc))
      | cons x ls =>
        rw [hs] at hl ih
        rcases mem_cons.mp hl with rfl | hl
        · rcases mem_cons.mp hc with rfl | hc
          · exact mem_cons_self
          · exact mem_cons_of_mem _ (ih mem_cons_self hc)
        · exact mem_cons_of_mem _ (ih (mem_cons_of_mem _ hl) hc)

/-! ## Lines of bounded length -/

/-- What `fgets` gives from call to call, of a text: a line with its terminator, or as much of a line
as there is room for.  The piece that the text begins with has room for `k` letters behind its first
one, every other piece for `n` of them. -/
def chunks (n : ℕ) (nl : α) : ℕ → List α → List (List α)
  | _, [] => []
  | k, c :: s =>
    if c = nl ∨ k = 0 then [c] :: chunks n nl n s
    else match chunks n nl (k - 1) s with
      | [] => [[c]]
      | l :: ls => (c :: l) :: ls

variable {n k : ℕ} {nl : α}

/-- A line that there is room for comes in one piece. -/
theorem chunks_line {l : List α} (hl : nl ∉ l) (hle : l.length ≤ k) (s : List α) :
    chunks n nl k (l ++ nl :: s) = (l ++ [nl]) :: chunks n nl n s := by
  induction l generalizing k with
  | nil => exact if_pos (.inl rfl)
  | cons c l ih =>
    rw [mem_cons, not_or] at hl
    rw [length_cons] at hle
    have hc : ¬ (c = nl ∨ k = 0) := by
      rintro (hc | hk)
      · exact hl.1 hc.symm
      · omega
    rw [cons_append, chunks, if_neg hc, ih hl.2 (by omega)]
    rfl

/-- A line that is longer is cut where the room ends. -/
theorem chunks_full {l : List α} (hl : nl ∉ l) (hlen : l.length = k + 1) (s : List α) :
    chunks n nl k (l ++ s) = l :: chunks n nl n s := by
  induction l generalizing k with
  | nil => cases hlen
  | cons c l ih =>
    rw [mem_cons, not_or] at hl
    rw [length_cons] at hlen
    rw [cons_append, chunks]
    by_cases hk : k = 0
    · have hnil : l = [] := length_eq_zero_iff.mp (by omega)
      rw [if_pos (.inr hk), hnil]
      rfl
    · have hc : ¬ (c = nl ∨ k = 0) := fun h => h.elim (fun hc => hl.1 hc.symm) hk
      rw [if_neg hc, ih hl.2 (by omega)]

/-- **Lines that there is room for** come one by one. -/
theorem chunks_unlines {ls : List (List α)} (h : ∀ l ∈ ls, nl ∉ l ∧ l.length ≤ n) (s : List α) :
    chunks n nl n (unlines nl ls ++ s) = ls.map (· ++ [nl]) ++ chunks n nl n s := by
  induction ls with
  | nil => rfl
  | cons l ls ih =>
    obtain ⟨hl, hle⟩ := h l mem_cons_self
    rw [unlines_cons, append_assoc, cons_append, chunks_line hl hle,
      ih fun l' hl' => h l' (mem_cons_of_mem l hl')]
    rfl

end Lines

end Text
