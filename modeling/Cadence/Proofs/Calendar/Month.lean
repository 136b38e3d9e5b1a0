/-
Months in a row, and the days that begin them.

Months are counted through from the first month of the year 0, twelve to the year.

* `Date.monthCount` — the count of the month that a date lies in;
* `monthStart` — the days before the month of a count;
* `dayNumber_eq_monthStart` — a date is a number of days into its month;
* `dayNumber_lt_of_monthCount_lt` — dates are ordered as their months are.
-/
import Mathlib.Tactic.Common
import Cadence.Proofs.Calendar.Date

namespace Cadence.Calendar

/-- The number of months before the month of a date. -/
def Date.monthCount (d : Date) : Nat := d.year * 12 + (d.month - 1)

/-- The number of days before the month of a count. -/
def monthStart (k : Nat) : Nat := daysBeforeYear (k / 12) + daysBeforeMonth (k / 12) (k % 12 + 1)

/-- The number of days of the month of a count. -/
def monthLength (k : Nat) : Nat := daysInMonth (k / 12) (k % 12 + 1)

/-- A month begins where the one before it ends, also over the end of a year. -/
theorem monthStart_succ {k : Nat} (h : 12 ≤ k) :
    monthStart (k + 1) = monthStart k + monthLength k := by
  unfold monthStart monthLength
  by_cases hyear : k % 12 = 11
  · have hdiv : (k + 1) / 12 = k / 12 + 1 := by omega
    have hmod : (k + 1) % 12 = 0 := by omega
    have hlast : daysBeforeMonth (k / 12) (11 + 1) + daysInMonth (k / 12) (11 + 1) =
        daysInYear (k / 12) := by
      rw [← daysBeforeMonth_succ (k / 12) (by omega), daysBeforeMonth_year]
    rw [hdiv, hmod, hyear, daysBeforeYear_succ (by omega)]
    show _ + 0 = _
    omega
  · have hdiv : (k + 1) / 12 = k / 12 := by omega
    have hmod : (k + 1) % 12 = k % 12 + 1 := by omega
    rw [hdiv, hmod, daysBeforeMonth_succ (k / 12) (by omega)]
    omega

theorem monthStart_le {j k : Nat} (hj : 12 ≤ j) (h : j ≤ k) : monthStart j ≤ monthStart k := by
  induction h with
  | refl => exact Nat.le_refl _
  | @step k hk ih =>
    rw [monthStart_succ (Nat.le_trans hj hk)]
    omega

namespace Date.InCalendar

variable {d e : Date}

theorem le_monthCount (h : d.InCalendar) : 12 ≤ d.monthCount := by
  have := h.year_pos
  unfold monthCount
  omega

theorem monthCount_div (h : d.InCalendar) :
    d.monthCount / 12 = d.year ∧ d.monthCount % 12 + 1 = d.month := by
  have := h.month_pos
  have := h.month_le
  unfold monthCount
  omega

theorem dayNumber_eq_monthStart (h : d.InCalendar) :
    dayNumber d = monthStart d.monthCount + (d.day - 1) := by
  unfold monthStart dayNumber
  rw [h.monthCount_div.1, h.monthCount_div.2]

theorem dayNumber_lt_monthStart (h : d.InCalendar) :
    dayNumber d < monthStart (d.monthCount + 1) := by
  have hday := h.day_le
  have hpos := h.day_pos
  rw [monthStart_succ h.le_monthCount, h.dayNumber_eq_monthStart, monthLength, h.monthCount_div.1,
    h.monthCount_div.2]
  omega

theorem dayNumber_lt_of_monthCount_lt (hd : d.InCalendar) (he : e.InCalendar)
    (h : d.monthCount < e.monthCount) : dayNumber d < dayNumber e := by
  have hbefore := hd.dayNumber_lt_monthStart
  have hstart : monthStart (d.monthCount + 1) ≤ monthStart e.monthCount :=
    monthStart_le (Nat.le_succ_of_le hd.le_monthCount) h
  rw [he.dayNumber_eq_monthStart]
  omega

/-- The calendar ends with the last month of the last year. -/
theorem dayNumber_lt_dayCount (h : d.InCalendar) : dayNumber d < dayCount := by
  have hlast : d.monthCount + 1 ≤ (maxYear + 1) * 12 := by
    have := h.year_le
    have := h.month_le
    unfold monthCount
    omega
  calc dayNumber d < monthStart (d.monthCount + 1) := h.dayNumber_lt_monthStart
    _ ≤ monthStart ((maxYear + 1) * 12) := monthStart_le (Nat.le_succ_of_le h.le_monthCount) hlast
    _ = dayCount := by
      rw [monthStart, Nat.mul_div_cancel _ (by decide), Nat.mul_mod_left]
      rfl

end Date.InCalendar

end Cadence.Calendar
