import Mathlib.Order.Iterate

/-!
# Data/Calendar — dates, day after day

A date of the Gregorian calendar, and the date of the next day.  `next^[k]` stays in the month for
as many days as it has left (`iterate_next_of_le`), and is in the next month for the length of that
(`iterate_next_month`). -/

namespace Calendar

/-- A year with a 29th of February. -/
def IsLeap (year : ℕ) : Prop := year % 4 = 0 ∧ (year % 100 ≠ 0 ∨ year % 400 = 0)

instance (year : ℕ) : Decidable (IsLeap year) := inferInstanceAs (Decidable (_ ∧ _))

/-- The length of a month; the first month is 1. -/
def monthLength (year month : ℕ) : ℕ :=
  if month = 2 then if IsLeap year then 29 else 28
  else if month = 4 ∨ month = 6 ∨ month = 9 ∨ month = 11 then 30 else 31

theorem monthLength_bounds (year month : ℕ) :
    28 ≤ monthLength year month ∧ monthLength year month ≤ 31 := by
  rw [monthLength]
  split_ifs <;> omega

theorem one_le_monthLength (year month : ℕ) : 1 ≤ monthLength year month :=
  le_trans (by decide) (monthLength_bounds year month).1

/-- A date. -/
structure Date where
  year : ℕ
  month : ℕ
  day : ℕ
  month_mem : 1 ≤ month ∧ month ≤ 12
  day_mem : 1 ≤ day ∧ day ≤ monthLength year month

namespace Date

/-- The next day. -/
def next (d : Date) : Date :=
  if h : d.day < monthLength d.year d.month then
    ⟨d.year, d.month, d.day + 1, d.month_mem, by omega⟩
  else if hm : d.month < 12 then
    ⟨d.year, d.month + 1, 1, by omega, le_rfl, one_le_monthLength _ _⟩
  else ⟨d.year + 1, 1, 1, by omega, le_rfl, one_le_monthLength _ _⟩

/-- A date has a month and a day. -/
def Is (d : Date) (year month day : ℕ) : Prop := d.year = year ∧ d.month = month ∧ d.day = day

variable {d : Date} {k : ℕ}

theorem next_day (h : d.day < monthLength d.year d.month) :
    d.next.Is d.year d.month (d.day + 1) := by
  rw [next, dif_pos h]
  exact ⟨rfl, rfl, rfl⟩

theorem next_month (h : d.day = monthLength d.year d.month) (hm : d.month < 12) :
    d.next.Is d.year (d.month + 1) 1 := by
  rw [next, dif_neg h.not_lt, dif_pos hm]
  exact ⟨rfl, rfl, rfl⟩

/-- **The rest of the month.** -/
theorem iterate_next_of_le (h : d.day + k ≤ monthLength d.year d.month) :
    (next^[k] d).Is d.year d.month (d.day + k) := by
  induction k with
  | zero => exact ⟨rfl, rfl, rfl⟩
  | succ k ih =>
    obtain ⟨hyear, hmonth, hday⟩ := ih (by omega)
    rw [Function.iterate_succ_apply']
    have hlt : (next^[k] d).day < monthLength (next^[k] d).year (next^[k] d).month := by
      rw [hyear, hmonth, hday]
      omega
    obtain ⟨hyear', hmonth', hday'⟩ := next_day hlt
    exact ⟨hyear'.trans hyear, hmonth'.trans hmonth, by rw [hday', hday]; rfl⟩

/-- **The next month.** -/
theorem iterate_next_month (hm : d.month < 12) (hpos : 1 ≤ k)
    (hk : k ≤ monthLength d.year (d.month + 1)) :
    (next^[monthLength d.year d.month - d.day + k] d).Is d.year (d.month + 1) k := by
  have hle := d.day_mem.2
  have hlast : d.day + (monthLength d.year d.month - d.day) = monthLength d.year d.month := by
    omega
  obtain ⟨hyear, hmonth, hday⟩ := iterate_next_of_le hlast.le
  rw [hlast] at hday
  induction k with
  | zero => exact absurd hpos (by decide)
  | succ k ih =>
    rw [← Nat.add_assoc, Function.iterate_succ_apply']
    rcases Nat.eq_zero_or_pos k with rfl | hk'
    · rw [Nat.add_zero]
      have hend : (next^[monthLength d.year d.month - d.day] d).day =
          monthLength (next^[monthLength d.year d.month - d.day] d).year
            (next^[monthLength d.year d.month - d.day] d).month := by
        rw [hyear, hmonth, hday]
      obtain ⟨hyear', hmonth', hday'⟩ := next_month hend (hmonth.trans_lt hm)
      exact ⟨hyear'.trans hyear, by rw [hmonth', hmonth], hday'⟩
    · obtain ⟨hy, hmo, hd⟩ := ih hk' (by omega)
      have hlt : (next^[monthLength d.year d.month - d.day + k] d).day <
          monthLength (next^[monthLength d.year d.month - d.day + k] d).year
            (next^[monthLength d.year d.month - d.day + k] d).month := by
        rw [hy, hmo, hd]
        omega
      obtain ⟨hy', hmo', hd'⟩ := next_day hlt
      exact ⟨hy'.trans hy, hmo'.trans hmo, by rw [hd', hd]⟩

end Date

/-- A day of the year, as a date of birth has it. -/
structure YearDay where
  month : ℕ
  day : ℕ
  month_mem : 1 ≤ month ∧ month ≤ 12
  day_mem : ∃ year, 1 ≤ day ∧ day ≤ monthLength year month

/-- A date is an anniversary. -/
def Date.On (d : Date) (b : YearDay) : Prop := d.month = b.month ∧ d.day = b.day

instance (d : Date) (b : YearDay) : Decidable (d.On b) := inferInstanceAs (Decidable (_ ∧ _))

end Calendar
