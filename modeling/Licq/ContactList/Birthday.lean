import Licq.Data.Calendar

/-!
# ContactList/Birthday — the days to a contact's birthday

`User::Birthday` tells how many days there are until the birthday of a contact, if it is within a
range of days.  It takes the length of the month from a table whose first entry is that of January,
at the number of the month that begins at 1, so it counts with the length of the next month; in
December there is no such entry.  The end of the range is kept in a byte.

The **main result** `right_birthday_iff` says when the answer is right nevertheless.
-/

open Calendar

namespace Licq

/-! ## The table -/

def nMonthDays : List ℕ := [31, 28, 31, 30, 31, 30, 31, 31, 30, 31, 30, 31]

/-- What is found between the bounds of this month and of the next one. -/
def birthdayBetween (nMonth nDayMin nDayMax nMonthNext nDayMaxNext birthMonth birthDay : ℕ) :
    Option ℤ :=
  if birthMonth = nMonth ∧ nDayMin ≤ birthDay ∧ birthDay ≤ nDayMax then
    some ((birthDay : ℤ) - nDayMin)
  else if nMonthNext ≠ 0 ∧ birthMonth = nMonthNext ∧ birthDay ≤ nDayMaxNext then
    nMonthDays[nMonth]?.map fun days => (birthDay : ℤ) + (days - nDayMin)
  else some (-1)

/-- `User::Birthday`, with `birthdayFlag() && isUser()`; none where it reads outside of the
table. -/
def Birthday (today : Date) (birthMonth birthDay : ℕ) (flagged : Bool) (nRange : UInt16) :
    Option ℤ :=
  if birthMonth = 0 ∨ birthDay = 0 then some (if flagged then 0 else -1)
  else if nRange = 0 then
    some (if today.month = birthMonth ∧ today.day = birthDay then 0 else -1)
  else
    let nMonth := today.month
    let nDayMin := today.day
    -- an unsigned char
    let nDayMax := (nDayMin + nRange.toNat) % 256
    match nMonthDays[nMonth]? with
    | none => none
    | some days =>
      if days < nDayMax then
        let nMonthNext := nMonth + 1
        let nMonth := if nMonthNext = 13 then 1 else nMonth
        match nMonthDays[nMonth]? with
        | none => none
        | some days => birthdayBetween nMonth nDayMin days nMonthNext (nDayMax - days) birthMonth
            birthDay
      else birthdayBetween nMonth nDayMin nDayMax 0 0 birthMonth birthDay

/-! ## What is asked of the answer -/

/-- The days to the next anniversary, if it is within the range, and else -1. -/
def Right (today : Date) (b : YearDay) (nRange : ℕ) (result : Option ℤ) : Prop :=
  (∃ k ≤ nRange, (Date.next^[k] today).On b ∧ (∀ j < k, ¬ (Date.next^[j] today).On b) ∧
      result = some (k : ℤ)) ∨
    ((∀ k ≤ nRange, ¬ (Date.next^[k] today).On b) ∧ result = some (-1))

/-- The entry that is taken for the length of a month. -/
def tableLength (month : ℕ) : ℕ := nMonthDays.getD month 0

/-- The anniversary is in the rest of this month. -/
def ThisMonth (today : Date) (b : YearDay) : Prop :=
  b.month = today.month ∧ today.day ≤ b.day ∧ b.day ≤ monthLength today.year today.month

/-- The anniversary is in the next month of this year. -/
def NextMonth (today : Date) (b : YearDay) : Prop :=
  b.month = today.month + 1 ∧ b.day ≤ monthLength today.year (today.month + 1)

/-- The end of the range as the byte has it. -/
def reach (today : Date) (nRange : ℕ) : ℕ := (today.day + nRange) % 256

/-- The range ends before a day of this month, which may be past its end. -/
def EndsBefore (today : Date) (nRange day : ℕ) : Prop := today.day + nRange < day

instance (today : Date) (nRange day : ℕ) : Decidable (EndsBefore today nRange day) :=
  inferInstanceAs (Decidable (_ < _))

/-- When the answer is right.  A birthday of this month must be within the table's length, and the
byte must reach it where the range does.  One of the next month must be out of the range, and the
byte must not reach it over the table's length, unless that is the length of this month, or the day
counted is the one before today.  Another one must be out of the range, and no 29th of February that
the year does not have may be taken for a day of this month or the next. -/
def Counts (today : Date) (b : YearDay) (nRange : ℕ) : Prop :=
  nRange = 0 ∨ (today.month ≠ 12 ∧
    (ThisMonth today b → EndsBefore today nRange b.day ∨
      (b.day ≤ reach today nRange ∧ b.day ≤ tableLength today.month)) ∧
    (NextMonth today b →
      (EndsBefore today nRange (monthLength today.year today.month + b.day) ∧
          reach today nRange < tableLength today.month + b.day) ∨
        (tableLength today.month + b.day ≤ reach today nRange ∧
          (tableLength today.month = monthLength today.year today.month ∨
            (today.day = tableLength today.month + b.day + 1 ∧
              EndsBefore today nRange (monthLength today.year today.month + b.day))))) ∧
    (¬ ThisMonth today b → ¬ NextMonth today b →
      (∀ k ≤ nRange, ¬ (Date.next^[k] today).On b) ∧
        ¬ (b.month = today.month ∧ today.day ≤ b.day ∧ b.day ≤ reach today nRange ∧
          b.day ≤ tableLength today.month) ∧
        ¬ (b.month = today.month + 1 ∧ tableLength today.month + b.day ≤ reach today nRange)))

/-! ## The next anniversary -/

variable {today : Date} {b : YearDay} {nRange : ℕ} {result : Option ℤ}

variable {k : ℕ} {r : UInt16}

theorem on_of_le (hk : today.day + k ≤ monthLength today.year today.month) :
    (Date.next^[k] today).On b ↔ b.month = today.month ∧ b.day = today.day + k := by
  obtain ⟨-, hmonth, hday⟩ := Date.iterate_next_of_le hk
  rw [Date.On, hmonth, hday]
  exact and_congr eq_comm eq_comm

theorem on_next (hm : today.month < 12)
    (hlt : monthLength today.year today.month < today.day + k)
    (hk : today.day + k ≤
      monthLength today.year today.month + monthLength today.year (today.month + 1)) :
    (Date.next^[k] today).On b ↔ b.month = today.month + 1 ∧
      monthLength today.year today.month + b.day = today.day + k := by
  have hle := today.day_mem.2
  obtain ⟨i, hi⟩ : ∃ i, k = monthLength today.year today.month - today.day + i :=
    ⟨k - (monthLength today.year today.month - today.day), by omega⟩
  obtain ⟨-, hmonth, hday⟩ := Date.iterate_next_month (d := today) (k := i) hm (by omega) (by omega)
  rw [Date.On, hi, hmonth, hday]
  constructor
  · rintro ⟨h, h'⟩
    exact ⟨h.symm, by omega⟩
  · rintro ⟨h, h'⟩
    exact ⟨h.symm, by omega⟩

/-- With the first anniversary known, one answer is right. -/
theorem right_iff_of_first (hon : (Date.next^[k] today).On b)
    (hfirst : ∀ j < k, ¬ (Date.next^[j] today).On b) :
    Right today b nRange result ↔ result = some (if k ≤ nRange then (k : ℤ) else -1) := by
  constructor
  · rintro (⟨i, hi, hon', hfirst', rfl⟩ | ⟨hnone, rfl⟩)
    · have hik : i = k := by
        rcases Nat.lt_trichotomy i k with hlt | heq | hgt
        · exact absurd hon' (hfirst i hlt)
        · exact heq
        · exact absurd hon (hfirst' k hgt)
      rw [← hik, if_pos hi]
    · rw [if_neg fun hk => hnone k hk hon]
  · rintro rfl
    split_ifs with hk
    · exact .inl ⟨k, hk, hon, hfirst, rfl⟩
    · exact .inr ⟨fun j hj => hfirst j (by omega), rfl⟩

/-- With no anniversary within the range, one answer is right. -/
theorem right_iff_of_none (hnone : ∀ k ≤ nRange, ¬ (Date.next^[k] today).On b) :
    Right today b nRange result ↔ result = some (-1) := by
  constructor
  · rintro (⟨k, hk, hon, -, -⟩ | ⟨-, rfl⟩)
    · exact absurd hon (hnone k hk)
    · rfl
  · exact fun h => .inr ⟨hnone, h⟩

theorem right_iff_of_thisMonth (h : ThisMonth today b) : Right today b nRange result ↔
    result = some (if EndsBefore today nRange b.day then -1 else (b.day : ℤ) - today.day) := by
  obtain ⟨hmonth, hle, hday⟩ := h
  have hon : (Date.next^[b.day - today.day] today).On b := by
    rw [on_of_le (by omega)]
    exact ⟨hmonth, by omega⟩
  have hfirst : ∀ j < b.day - today.day, ¬ (Date.next^[j] today).On b := by
    intro j hj
    rw [on_of_le (by omega)]
    rintro ⟨-, heq⟩
    omega
  have hwithin : b.day - today.day ≤ nRange ↔ ¬ EndsBefore today nRange b.day := by
    rw [EndsBefore]
    omega
  rw [right_iff_of_first hon hfirst, if_congr hwithin rfl rfl, ite_not, Int.ofNat_sub hle]

theorem right_iff_of_nextMonth (hm : today.month < 12) (h : NextMonth today b) :
    Right today b nRange result ↔ result =
      some (if EndsBefore today nRange (monthLength today.year today.month + b.day) then -1
        else (monthLength today.year today.month : ℤ) + b.day - today.day) := by
  obtain ⟨hmonth, hday⟩ := h
  have hle := today.day_mem.2
  obtain ⟨-, hpos, -⟩ := b.day_mem
  have hon : (Date.next^[monthLength today.year today.month + b.day - today.day] today).On b := by
    rw [on_next hm (by omega) (by omega)]
    exact ⟨hmonth, by omega⟩
  have hfirst : ∀ j < monthLength today.year today.month + b.day - today.day,
      ¬ (Date.next^[j] today).On b := by
    intro j hj
    rcases Nat.lt_or_ge (monthLength today.year today.month) (today.day + j) with hlt | hge
    · rw [on_next hm hlt (by omega)]
      rintro ⟨-, heq⟩
      omega
    · rw [on_of_le hge]
      rintro ⟨heq, -⟩
      omega
  have hwithin : monthLength today.year today.month + b.day - today.day ≤ nRange ↔
      ¬ EndsBefore today nRange (monthLength today.year today.month + b.day) := by
    rw [EndsBefore]
    omega
  rw [right_iff_of_first hon hfirst, if_congr hwithin rfl rfl, ite_not, Int.ofNat_sub (by omega),
    Int.natCast_add]

/-! ## The answer -/

/-- **The answer in another month than December**, with the table's length of the month. -/
theorem birthday_eq (hm : today.month < 12) (hr : r ≠ 0) (flagged : Bool) :
    Birthday today b.month b.day flagged r = some (
      if b.month = today.month ∧ today.day ≤ b.day ∧ b.day ≤ reach today r.toNat ∧
          b.day ≤ tableLength today.month then (b.day : ℤ) - today.day
      else if b.month = today.month + 1 ∧
          tableLength today.month + b.day ≤ reach today r.toNat then
        (b.day : ℤ) + (tableLength today.month - today.day)
      else -1) := by
  obtain ⟨-, hpos, -⟩ := b.day_mem
  have hzero : ¬ (b.month = 0 ∨ b.day = 0) := by
    have := b.month_mem.1
    omega
  have hget : nMonthDays[today.month]? = some (tableLength today.month) := by
    have hlen : today.month < nMonthDays.length := hm
    rw [tableLength, List.getD_eq_getElem?_getD, List.getElem?_eq_getElem hlen]
    rfl
  have hnext : ¬ today.month + 1 = 13 := by omega
  have hreach : (today.day + r.toNat) % 256 = reach today r.toNat := rfl
  simp only [Birthday, if_neg hzero, if_neg hr, hget, if_neg hnext, hreach, birthdayBetween]
  split_ifs <;> first | rfl | omega

/-- In December the table has no entry for the month. -/
theorem birthday_december (hm : today.month = 12) (hr : r ≠ 0) (flagged : Bool) :
    Birthday today b.month b.day flagged r = none := by
  obtain ⟨-, hpos, -⟩ := b.day_mem
  have hzero : ¬ (b.month = 0 ∨ b.day = 0) := by
    have := b.month_mem.1
    omega
  rw [Birthday, if_neg hzero, if_neg hr, hm]
  rfl

/-! ## Right answers -/

theorem not_right_none : ¬ Right today b nRange none := by
  rintro (⟨k, -, -, -, h⟩ | ⟨-, h⟩) <;> exact absurd h (by simp)

theorem right_iff_of_zero : Right today b 0 result ↔
    result = some (if today.month = b.month ∧ today.day = b.day then 0 else -1) := by
  by_cases hon : (Date.next^[0] today).On b
  · rw [right_iff_of_first hon fun j hj => absurd hj (Nat.not_lt_zero j), if_pos le_rfl]
    have hday : today.month = b.month ∧ today.day = b.day := hon
    rw [if_pos hday]
    rfl
  · rw [right_iff_of_none fun k hk => Nat.le_zero.mp hk ▸ hon]
    have hday : ¬ (today.month = b.month ∧ today.day = b.day) := hon
    rw [if_neg hday]

/-- A day that neither this month nor the next has is not a number of days away. -/
theorem not_on_of_notMem (hm : today.month < 12) (hthis : ¬ ThisMonth today b)
    (hnext : ¬ NextMonth today b) (hk : today.day + k ≤
      monthLength today.year today.month + monthLength today.year (today.month + 1)) :
    ¬ (Date.next^[k] today).On b := by
  rcases Nat.lt_or_ge (monthLength today.year today.month) (today.day + k) with hlt | hge
  · rw [on_next hm hlt hk]
    rintro ⟨hmonth, hday⟩
    exact hnext ⟨hmonth, by omega⟩
  · rw [on_of_le hge]
    rintro ⟨hmonth, hday⟩
    exact hthis ⟨hmonth, by omega, by omega⟩

theorem right_birthday_thisMonth (hm : today.month < 12) (hr : r ≠ 0)
    (flagged : Bool) (h : ThisMonth today b) :
    Right today b r.toNat (Birthday today b.month b.day flagged r) ↔
      (EndsBefore today r.toNat b.day ∨
        (b.day ≤ reach today r.toNat ∧ b.day ≤ tableLength today.month)) := by
  rw [birthday_eq hm hr, right_iff_of_thisMonth h, Option.some_inj]
  obtain ⟨hmonth, hle, -⟩ := h
  have hreach : reach today r.toNat ≤ today.day + r.toNat := Nat.mod_le _ _
  simp only [EndsBefore]
  split_ifs <;> omega

theorem right_birthday_nextMonth (hm : today.month < 12) (hr : r ≠ 0)
    (flagged : Bool) (h : NextMonth today b) :
    Right today b r.toNat (Birthday today b.month b.day flagged r) ↔
      ((EndsBefore today r.toNat (monthLength today.year today.month + b.day) ∧
          reach today r.toNat < tableLength today.month + b.day) ∨
        (tableLength today.month + b.day ≤ reach today r.toNat ∧
          (tableLength today.month = monthLength today.year today.month ∨
            (today.day = tableLength today.month + b.day + 1 ∧
              EndsBefore today r.toNat (monthLength today.year today.month + b.day))))) := by
  rw [birthday_eq hm hr, right_iff_of_nextMonth hm h, Option.some_inj]
  obtain ⟨hmonth, -⟩ := h
  have hle := today.day_mem.2
  have hreach : reach today r.toNat ≤ today.day + r.toNat := Nat.mod_le _ _
  simp only [EndsBefore]
  split_ifs <;> omega

/-- The only day of birth that a month may not have is the 29th of February. -/
theorem day_le_succ (b : YearDay) (year : ℕ) :
    b.day ≤ monthLength year b.month ∨
      (b.month = 2 ∧ b.day = 29 ∧ monthLength year 2 = 28) := by
  obtain ⟨year', -, hle⟩ := b.day_mem
  by_cases hm : b.month = 2
  · rw [hm] at hle ⊢
    rw [monthLength, if_pos rfl] at hle ⊢
    split_ifs at hle ⊢ <;> omega
  · rw [monthLength, if_neg hm] at hle ⊢
    exact .inl hle

theorem not_right_of_notMem (hm : today.month < 12) (hthis : ¬ ThisMonth today b)
    (hnext : ¬ NextMonth today b) (hk : today.day + k ≤
      monthLength today.year today.month + monthLength today.year (today.month + 1)) :
    ¬ Right today b nRange (some (k : ℤ)) := by
  rintro (⟨i, -, hon, -, heq⟩ | ⟨-, heq⟩)
  · obtain rfl : k = i := Int.ofNat_inj.mp (Option.some_inj.mp heq)
    exact not_on_of_notMem hm hthis hnext hk hon
  · have hneg := Option.some_inj.mp heq
    omega

theorem right_birthday_other (hm : today.month < 12) (hr : r ≠ 0)
    (flagged : Bool) (hthis : ¬ ThisMonth today b) (hnext : ¬ NextMonth today b) :
    Right today b r.toNat (Birthday today b.month b.day flagged r) ↔
      (∀ k ≤ r.toNat, ¬ (Date.next^[k] today).On b) ∧
        ¬ (b.month = today.month ∧ today.day ≤ b.day ∧ b.day ≤ reach today r.toNat ∧
          b.day ≤ tableLength today.month) ∧
        ¬ (b.month = today.month + 1 ∧
          tableLength today.month + b.day ≤ reach today r.toNat) := by
  have hle := today.day_mem.2
  have hlen := monthLength_bounds today.year today.month
  have hlen' := monthLength_bounds today.year (today.month + 1)
  rw [birthday_eq hm hr]
  by_cases hsame : b.month = today.month ∧ today.day ≤ b.day ∧ b.day ≤ reach today r.toNat ∧
      b.day ≤ tableLength today.month
  · rw [if_pos hsame]
    refine iff_of_false ?_ fun h => h.2.1 hsame
    obtain ⟨hmonth, hmin, -⟩ := hsame
    have hday : b.day ≤ 29 := by
      rcases day_le_succ b today.year with hday | ⟨-, hday, -⟩
      · exact absurd ⟨hmonth, hmin, hmonth ▸ hday⟩ hthis
      · exact hday.le
    rw [← Int.ofNat_sub hmin]
    exact not_right_of_notMem hm hthis hnext (by omega)
  by_cases hafter : b.month = today.month + 1 ∧
      tableLength today.month + b.day ≤ reach today r.toNat
  · rw [if_neg hsame, if_pos hafter]
    refine iff_of_false ?_ fun h => h.2.2 hafter
    obtain ⟨hmonth, -⟩ := hafter
    -- the 29th of February, counted in January of a year without
    rcases day_le_succ b today.year with hday | ⟨hfeb, hday, hyear⟩
    · exact absurd ⟨hmonth, hmonth ▸ hday⟩ hnext
    have hjan : today.month = 1 := by omega
    have hvalue : (b.day : ℤ) + (tableLength today.month - today.day) =
        ((57 - today.day : ℕ) : ℤ) := by
      rw [hday, hjan, show tableLength 1 = 28 from rfl]
      omega
    have hlength : monthLength today.year 1 = 31 := rfl
    rw [hvalue]
    refine not_right_of_notMem hm hthis hnext ?_
    rw [hjan, hlength, hyear]
    rw [hjan, hlength] at hle
    omega
  · rw [if_neg hsame, if_neg hafter]
    constructor
    · rintro (⟨k, -, -, -, heq⟩ | ⟨hnone, -⟩)
      · have hneg := Option.some_inj.mp heq
        omega
      · exact ⟨hnone, hsame, hafter⟩
    · rintro ⟨hnone, -⟩
      exact (right_iff_of_none hnone).mpr rfl

/-- **The answer is right** just when the birthday counts. -/
theorem right_birthday_iff (today : Date) (b : YearDay) (flagged : Bool) (r : UInt16) :
    Right today b r.toNat (Birthday today b.month b.day flagged r) ↔
      Counts today b r.toNat := by
  obtain ⟨-, hpos, -⟩ := b.day_mem
  have hmpos := b.month_mem.1
  have hle := today.month_mem.2
  by_cases hr : r = 0
  · subst hr
    have hzero : ¬ (b.month = 0 ∨ b.day = 0) := by omega
    refine iff_of_true ?_ (.inl rfl)
    rw [Birthday, if_neg hzero, if_pos rfl]
    exact right_iff_of_zero.mpr rfl
  have hr' : ¬ r.toNat = 0 := fun h => hr (UInt16.toNat_inj.mp h)
  by_cases hdec : today.month = 12
  · rw [birthday_december hdec hr]
    exact iff_of_false not_right_none fun h => h.elim hr' fun h => h.1 hdec
  have hm : today.month < 12 := by omega
  rw [Counts, or_iff_right hr', and_iff_right hdec]
  by_cases hthis : ThisMonth today b
  · have hnext : ¬ NextMonth today b := fun h => by
      have := hthis.1.symm.trans h.1
      omega
    rw [right_birthday_thisMonth hm hr flagged hthis]
    exact ⟨fun h => ⟨fun _ => h, fun h' => absurd h' hnext, fun h' => absurd hthis h'⟩,
      fun h => h.1 hthis⟩
  by_cases hnext : NextMonth today b
  · rw [right_birthday_nextMonth hm hr flagged hnext]
    exact ⟨fun h => ⟨fun h' => absurd h' hthis, fun _ => h, fun _ h' => absurd hnext h'⟩,
      fun h => h.2.1 hnext⟩
  · rw [right_birthday_other hm hr flagged hthis hnext]
    exact ⟨fun h => ⟨fun h' => absurd h' hthis, fun h' => absurd h' hnext, fun _ _ => h⟩,
      fun h => h.2.2 hthis hnext⟩

/-- On the first of December, the birthday of the day after is looked for past the table. -/
theorem not_right_birthday : ¬ ∀ (today : Date) (b : YearDay) (flagged : Bool) (r : UInt16),
    Right today b r.toNat (Birthday today b.month b.day flagged r) := by
  intro h
  have hright := h ⟨2024, 12, 1, by decide, by decide⟩ ⟨12, 2, by decide, 2024, by decide⟩ false 1
  exact not_right_none hright

end Licq
