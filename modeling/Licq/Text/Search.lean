import Licq.Text.Lines

/-!
# Text/Search — the first occurrence of a pattern in a text

`find p s` is the first offset at which `p` occurs in `s`, `findFrom p s k` the first at or after
`k`.  A search for a terminator followed by a terminator-free pattern, in a text of lines, finds
exactly the first line that starts with the pattern (`find_line`, `find_line_none`).
-/

namespace Text

open List

variable {α : Type*}

/-- A terminator-free pattern starts a terminated line exactly when it starts the line. -/
theorem isPrefix_line {nl : α} {p l : List α} (hp : nl ∉ p) (s : List α) :
    p <+: l ++ nl :: s ↔ p <+: l := by
  induction l generalizing p with
  | nil =>
    cases p with
    | nil => simp
    | cons c p => simpa [cons_prefix_cons] using fun h => absurd h (by rintro rfl; simp at hp)
  | cons d l ih =>
    cases p with
    | nil => simp
    | cons c p =>
      rw [mem_cons, not_or] at hp
      rw [cons_append, cons_prefix_cons, cons_prefix_cons, ih hp.2]

variable [DecidableEq α]

/-- The first offset at which `p` occurs. -/
def find (p : List α) : List α → Option ℕ
  | [] => if p = [] then some 0 else none
  | c :: s => if p <+: c :: s then some 0 else (find p s).map (· + 1)

/-- The first offset at or after `k` at which `p` occurs. -/
def findFrom (p s : List α) (k : ℕ) : Option ℕ := (find p (s.drop k)).map (· + k)

/-- The last offset at or before `k` at which `p` occurs. -/
def rfindFrom (p s : List α) : ℕ → Option ℕ
  | 0 => if p <+: s then some 0 else none
  | k + 1 => if p <+: s.drop (k + 1) then some (k + 1) else rfindFrom p s k

theorem find_of_isPrefix {p s : List α} (h : p <+: s) : find p s = some 0 := by
  cases s with
  | nil => simp [find, prefix_nil.mp h]
  | cons c s => rw [find, if_pos h]

/-- **What `find` returns is the first offset at which the pattern occurs.** -/
theorem find_eq_some_iff {p : List α} : ∀ {s : List α} {i : ℕ},
    find p s = some i ↔ p <+: s.drop i ∧ ∀ j < i, ¬ p <+: s.drop j
  | [], i => by
      by_cases hp : p = []
      · subst hp
        cases i with
        | zero => simp [find]
        | succ i =>
          refine ⟨fun h => by simp [find] at h, fun h => ?_⟩
          exact absurd List.nil_prefix (h.2 0 (Nat.succ_pos i))
      · simp [find, hp]
  | c :: s, i => by
      by_cases h : p <+: c :: s
      · rw [find, if_pos h, Option.some.injEq]
        constructor
        · rintro rfl
          exact ⟨h, fun j hj => absurd hj (Nat.not_lt_zero j)⟩
        · rintro ⟨-, hlt⟩
          by_contra hne
          exact hlt 0 (by omega) h
      · rw [find, if_neg h, Option.map_eq_some_iff]
        constructor
        · rintro ⟨k, hk, rfl⟩
          obtain ⟨hp, hlt⟩ := find_eq_some_iff.mp hk
          refine ⟨hp, fun j hj => ?_⟩
          cases j with
          | zero => exact h
          | succ j => exact hlt j (by omega)
        · rintro ⟨hp, hlt⟩
          cases i with
          | zero => exact absurd hp h
          | succ i =>
            exact ⟨i, find_eq_some_iff.mpr ⟨hp, fun j hj => hlt (j + 1) (by omega)⟩, rfl⟩

theorem find_eq_none_iff {p : List α} : ∀ {s : List α},
    find p s = none ↔ ∀ i, ¬ p <+: s.drop i
  | [] => by by_cases hp : p = [] <;> simp [find, hp]
  | c :: s => by
      by_cases h : p <+: c :: s
      · simp only [find, if_pos h, reduceCtorEq, false_iff, not_forall, not_not]
        exact ⟨0, h⟩
      · rw [find, if_neg h, Option.map_eq_none_iff, find_eq_none_iff]
        refine ⟨fun hn i => ?_, fun hn i => hn (i + 1)⟩
        cases i with
        | zero => exact h
        | succ i => exact hn i

/-- A position the search returns lies inside the text. -/
theorem find_lt {p s : List α} {i : ℕ} (hp : p ≠ []) (h : find p s = some i) : i < s.length := by
  by_contra hge
  have := (find_eq_some_iff.mp h).1
  rw [drop_eq_nil_of_le (by omega)] at this
  exact hp (prefix_nil.mp this)

/-- A search skips a stretch free of the pattern's first letter. -/
theorem find_append_of_notMem {nl : α} {p a : List α} (ha : nl ∉ a) (s : List α) :
    find (nl :: p) (a ++ s) = (find (nl :: p) s).map (· + a.length) := by
  induction a with
  | nil => simp
  | cons c a ih =>
    rw [mem_cons, not_or] at ha
    have hc : ¬ nl :: p <+: c :: (a ++ s) := fun h => ha.1 (cons_prefix_cons.mp h).1
    rw [cons_append, find, if_neg hc, ih ha.2, Option.map_map]
    exact congrArg (fun f => Option.map f (find (nl :: p) s))
      (funext fun k => by simp only [Function.comp_apply, length_cons]; omega)

/-- The first terminator of a text that starts with a terminated line. -/
theorem find_nl {nl : α} {l : List α} (hl : nl ∉ l) (s : List α) :
    find [nl] (l ++ nl :: s) = some l.length := by
  rw [find_append_of_notMem hl, find_of_isPrefix (by simp)]
  simp

/-- A text splits at its first terminator in one way. -/
theorem append_nl_inj {nl : α} {a b x y : List α} (ha : nl ∉ a) (hb : nl ∉ b)
    (h : a ++ nl :: x = b ++ nl :: y) : a = b ∧ x = y := by
  have hlen : a.length = b.length := by
    rw [← Option.some.injEq, ← find_nl ha x, h, find_nl hb]
  obtain ⟨hab, hxy⟩ := append_inj h hlen
  exact ⟨hab, (List.cons.inj hxy).2⟩

theorem findFrom_append (p a s : List α) :
    findFrom p (a ++ s) a.length = (find p s).map (· + a.length) := by
  rw [findFrom, drop_left]

/-- **A search for a line that starts with `p` finds the first one.** -/
theorem find_line {nl : α} {p l : List α} {a : List (List α)} (hp : nl ∉ p)
    (ha : Terminated nl a) (hna : ∀ x ∈ a, ¬ p <+: x) (hl : p <+: l) (b : List (List α)) :
    find (nl :: p) (nl :: unlines nl (a ++ l :: b)) = some (unlines nl a).length := by
  induction a with
  | nil =>
    refine find_of_isPrefix (cons_prefix_cons.mpr ⟨rfl, ?_⟩)
    exact hl.trans (by simp)
  | cons x a ih =>
    rw [terminated_cons] at ha
    have hx : ¬ p <+: x := hna x (by simp)
    have hhead : ¬ nl :: p <+: nl :: unlines nl (x :: (a ++ l :: b)) := fun h => by
      rw [cons_prefix_cons, unlines_cons, isPrefix_line hp] at h
      exact hx h.2
    rw [cons_append, find, if_neg hhead, unlines_cons, find_append_of_notMem ha.1,
      ih ha.2 fun y hy => hna y (by simp [hy])]
    simp only [Option.map_some, unlines_cons, length_append, length_cons]
    exact congrArg some (by omega)

/-- **…and finds nothing when no line starts with `p`.** -/
theorem find_line_none {nl : α} {p : List α} {a : List (List α)} (hp : nl ∉ p) (hne : p ≠ [])
    (ha : Terminated nl a) (hna : ∀ x ∈ a, ¬ p <+: x) :
    find (nl :: p) (nl :: unlines nl a) = none := by
  induction a with
  | nil => simp [find, cons_prefix_cons, hne]
  | cons x a ih =>
    rw [terminated_cons] at ha
    have hhead : ¬ nl :: p <+: nl :: unlines nl (x :: a) := fun h => by
      rw [cons_prefix_cons, unlines_cons, isPrefix_line hp] at h
      exact hna x (by simp) h.2
    rw [find, if_neg hhead, unlines_cons, find_append_of_notMem ha.1,
      ih ha.2 fun y hy => hna y (by simp [hy])]
    rfl

/-! ## Searches from the end of a line

The offset of the terminator before a line is the length of the lines before it: the text starts
with a terminator of its own. -/

/-- **The search for a line, started at the end of the lines `a`.** -/
theorem findFrom_line {nl : α} {p l : List α} {a b : List (List α)} (hp : nl ∉ p)
    (hb : Terminated nl b) (hnb : ∀ x ∈ b, ¬ p <+: x) (hl : p <+: l) (c : List (List α)) :
    findFrom (nl :: p) (nl :: unlines nl (a ++ (b ++ l :: c))) (unlines nl a).length
      = some ((unlines nl (a ++ b)).length) := by
  rw [findFrom, drop_unlines, find_line hp hb hnb hl, Option.map_some, unlines_append,
    length_append, Nat.add_comm]

theorem findFrom_line_none {nl : α} {p : List α} {a b : List (List α)} (hp : nl ∉ p)
    (hne : p ≠ []) (hb : Terminated nl b) (hnb : ∀ x ∈ b, ¬ p <+: x) :
    findFrom (nl :: p) (nl :: unlines nl (a ++ b)) (unlines nl a).length = none := by
  rw [findFrom, drop_unlines, find_line_none hp hne hb hnb, Option.map_none]

end Text
