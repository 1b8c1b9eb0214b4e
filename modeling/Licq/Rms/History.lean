import Licq.Rms.Client

/-!
# Rms/History — pages of a history

`HISTORY` prints a part of the history of a user, newest events first: a length and an offset
follow the user in its argument.  The events are counted from one and both ends of the part belong
to it, so that a page that is not the first begins with the last event of the page before it:
`pages_iff`.
-/

namespace Licq.Rms

open Text List

variable {α : Type*}

/-! ## The command -/

/-- The tokens that `strtok` takes from a text with spaces. -/
def tokens (s : List Char) : List (List Char) := (lines ' ' s).filter (· ≠ [])

/-- The loop over the history, from its end; the counter is that of the event before. -/
def historyLoop (length offset : ℤ) : ℤ → List α → List α
  | _, [] => []
  | counter, e :: rest =>
    if counter + 1 < offset ∨ offset + length < counter + 1 then
      historyLoop length offset (counter + 1) rest
    else e :: historyLoop length offset (counter + 1) rest

/-- What is printed of a history. -/
def printHistory (history : List α) (length offset : ℤ) : List α :=
  historyLoop length offset 0 history.reverse

/-- What `HISTORY` responds. -/
inductive HistoryResponse (α : Type*)
  | invalidUser
  | cannotLoad
  | done (events : List α)

/-- `Process_HISTORY`; `getHistory` gives nothing for a user that does not exist, and no history for
one whose file cannot be loaded. -/
def processHistory (env : Env) (getHistory : UserId → Option (Option (List α))) (arg : List Char) :
    HistoryResponse α :=
  match tokens arg with
  | [] => .invalidUser
  | user :: rest =>
    match (env.parseUser user).bind getHistory with
    | none => .invalidUser
    | some none => .cannotLoad
    | some (some history) =>
      .done (printHistory history (rest[0]?.elim 10 atoi) (rest[1]?.elim 0 atoi))

/-! ## Pages -/

/-- A page of this length; the first one is page zero. -/
def page (history : List α) (length k : ℕ) : List α :=
  printHistory history length ((length * k : ℕ) : ℤ)

theorem lines_of_notMem {s : List Char} (hne : s ≠ []) (h : ' ' ∉ s) : lines ' ' s = [s] := by
  induction s with
  | nil => exact absurd rfl hne
  | cons c s ih =>
    rw [mem_cons, not_or] at h
    rw [lines, if_neg (Ne.symm h.1)]
    by_cases hs : s = []
    · rw [hs]
      rfl
    · rw [ih hs h.2]

theorem space_notMem_decimal (n : ℕ) : ' ' ∉ decimal n := fun h =>
  absurd (isDigit_of_mem_decimal h) (by decide)

/-- **The page of a command**, when its numbers are those of an `int`. -/
theorem processHistory_page {env : Env} {getHistory : UserId → Option (Option (List α))}
    {user : List Char} (hne : user ≠ []) (huser : ' ' ∉ user) {history : List α}
    (hhistory : (env.parseUser user).bind getHistory = some (some history)) {length k : ℕ}
    (hlength : length < 2 ^ 31) (hoffset : length * k < 2 ^ 31) :
    processHistory env getHistory
        (user ++ ' ' :: (decimal length ++ ' ' :: decimal (length * k))) =
      .done (page history length k) := by
  have htokens : tokens (user ++ ' ' :: (decimal length ++ ' ' :: decimal (length * k))) =
      [user, decimal length, decimal (length * k)] := by
    rw [tokens, lines_append_nl huser, lines_append_nl (space_notMem_decimal _),
      lines_of_notMem (decimal_ne_nil _) (space_notMem_decimal _)]
    simp [hne, decimal_ne_nil]
  rw [processHistory, htokens]
  simp only [hhistory, getElem?_cons_zero, getElem?_cons_succ, Option.elim_some,
    atoi_decimal hlength, atoi_decimal hoffset]
  rfl

theorem processHistory_page_one :
    processHistory ⟨none, [], [], [], [.user (.owner icqPpid ['2']) ['1']], [], none, false, true⟩
        (fun _ => some (some [3, 4, 5])) (['1'] ++ ' ' :: (decimal 2 ++ ' ' :: decimal (2 * 1))) =
      .done (page [3, 4, 5] 2 1) :=
  processHistory_page (by decide) (by decide) (by decide) (by decide) (by decide)

/-- The length of a part: both of its ends belong to it. -/
theorem length_historyLoop (length offset counter : ℕ) (rest : List α) :
    (historyLoop length offset counter rest).length =
      min (offset + length) (counter + rest.length) - max (offset - 1) counter := by
  induction rest generalizing counter with
  | nil =>
    rw [historyLoop, length_nil]
    omega
  | cons e rest ih =>
    have hnext := ih (counter + 1)
    rw [Nat.cast_add, Nat.cast_one] at hnext
    rw [historyLoop, length_cons]
    split_ifs with hout
    · rw [hnext]
      omega
    · rw [length_cons, hnext]
      omega

theorem length_page (history : List α) (length k : ℕ) :
    (page history length k).length =
      min (length * k + length) history.length - (length * k - 1) := by
  have hlength := length_historyLoop length (length * k) 0 history.reverse
  rw [Nat.zero_add, Nat.max_zero, length_reverse] at hlength
  exact hlength

/-- A part that all events belong to. -/
theorem historyLoop_eq_self {length offset counter : ℤ} {rest : List α}
    (hlow : offset ≤ counter + 1) (hhigh : counter + rest.length ≤ offset + length) :
    historyLoop length offset counter rest = rest := by
  induction rest generalizing counter with
  | nil => rfl
  | cons e rest ih =>
    rw [length_cons, Nat.cast_add, Nat.cast_one] at hhigh
    rw [historyLoop, if_neg (by omega), ih (by omega) (by omega)]

/-- **A history that is shorter than a page** is page zero. -/
theorem page_of_lt {history : List α} {length : ℕ} (h : history.length < length) (k : ℕ) :
    page history length k = if k = 0 then history.reverse else [] := by
  by_cases hk : k = 0
  · rw [if_pos hk, hk]
    refine historyLoop_eq_self (by simp) ?_
    rw [length_reverse]
    simp only [Nat.mul_zero]
    omega
  · rw [if_neg hk]
    refine length_eq_zero_iff.mp ?_
    have hle : length ≤ length * k := Nat.le_mul_of_pos_right _ (Nat.pos_of_ne_zero hk)
    rw [length_page]
    omega

/-- **A history that fills a page**: the pages have more events than the history. -/
theorem lt_length_pages {history : List α} {length : ℕ} (hpos : 0 < length)
    (h : length ≤ history.length) (k : ℕ) :
    min (length * (k + 2)) history.length <
      ((List.range (k + 2)).flatMap (page history length)).length := by
  induction k with
  | zero =>
    simp only [range_succ, range_zero, nil_append, flatMap_append,
      flatMap_singleton, length_append, length_page]
    omega
  | succ k ih =>
    rw [range_succ, flatMap_append, flatMap_singleton, length_append,
      length_page]
    have hmul : length * (k + 1 + 2) = length * (k + 2) + length := by ring
    have hmul' : length * (k + 1 + 1) = length * (k + 2) := rfl
    have hle : length ≤ length * (k + 2) := Nat.le_mul_of_pos_right _ (Nat.succ_pos _)
    omega

/-- **Pages of a history**: together they have every event exactly once, newest first, exactly when
there is a single one that is not full. -/
theorem pages_iff (history : List α) (length : ℕ) (hpos : 0 < length) :
    ((∃ n, ∀ m ≥ n, (List.range m).flatMap (page history length) = history.reverse) ∧
        ∀ k, (page history length k).length ≤ length) ↔
      history.length < length := by
  constructor
  · rintro ⟨⟨n, hn⟩, -⟩
    by_contra hlt
    have hmore := lt_length_pages hpos (not_lt.mp hlt) (n + history.length)
    rw [hn _ (by omega), List.length_reverse] at hmore
    have hle : history.length ≤ length * (n + history.length + 2) :=
      (by omega : history.length ≤ n + history.length + 2).trans (Nat.le_mul_of_pos_left _ hpos)
    omega
  · intro hlt
    refine ⟨⟨1, fun m hm => ?_⟩, fun k => ?_⟩
    · obtain ⟨m, rfl⟩ := Nat.exists_eq_add_of_le hm
      rw [Nat.add_comm, List.range_succ_eq_map, List.flatMap_cons, List.flatMap_map,
        page_of_lt hlt, if_pos rfl, List.flatMap_eq_nil_iff.mpr, List.append_nil]
      exact fun k _ => (page_of_lt hlt _).trans (if_neg (Nat.succ_ne_zero k))
    · rw [page_of_lt hlt]
      split_ifs
      · rw [List.length_reverse]
        exact hlt.le
      · exact Nat.zero_le _

theorem pages_iff_one :
    ((∃ n, ∀ m ≥ n, (List.range m).flatMap (page [7] 2) = [7]) ∧ ∀ k, (page [7] 2 k).length ≤ 2) ↔
      1 < 2 :=
  pages_iff [7] 2 (by decide)

/-- **The last event of a page** is the first one of the next. -/
theorem not_pages_two : ¬ ((∃ n, ∀ m ≥ n, (List.range m).flatMap (page [1, 2] 1) = [2, 1]) ∧
    ∀ k, (page [1, 2] 1 k).length ≤ 1) := by
  rintro ⟨-, h⟩
  exact absurd (h 1) (by decide)

end Licq.Rms
