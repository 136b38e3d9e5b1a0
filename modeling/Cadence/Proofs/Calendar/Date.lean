/-
Dates and day numbers are two names for the same days.

* `Date.InCalendar` — the dates that exist, from the year 1 to the year 9999;
* `ofDayNumber_inCalendar`, `dayNumber_ofDayNumber` — every day of the calendar has a date that
  exists, and counting up to that date gives the day back.

The year of a day is found by climbing from an estimate that is never too high and at most
forty years too low (`yearOf_spec`); the month is found by climbing from January
(`monthOf_spec`).
-/
import Mathlib.Tactic.Common
import Mathlib.Tactic.SplitIfs
import Cadence.Calendar.Date

namespace Cadence.Calendar

/-- A date that exists. -/
structure Date.InCalendar (d : Date) : Prop where
  year_pos : 1 ≤ d.year
  year_le : d.year ≤ maxYear
  month_pos : 1 ≤ d.month
  month_le : d.month ≤ 12
  day_pos : 1 ≤ d.day
  day_le : d.day ≤ daysInMonth d.year d.month

/-- The number of days of a year. -/
def daysInYear (y : Nat) : Nat := if isLeap y then 366 else 365

/-- A quotient grows at the multiples of the divisor. -/
private theorem succ_div_eq (z k : Nat) :
    (z + 1) / k = z / k + if (z + 1) % k = 0 then 1 else 0 := by
  rw [Nat.succ_div]
  simp only [Nat.dvd_iff_mod_eq_zero]

theorem daysBeforeYear_succ {y : Nat} (h : 1 ≤ y) :
    daysBeforeYear (y + 1) = daysBeforeYear y + daysInYear y := by
  obtain ⟨z, rfl⟩ : ∃ z, y = z + 1 := ⟨y - 1, by omega⟩
  have hl : isLeap (z + 1) = true ↔
      (z + 1) % 4 = 0 ∧ ((z + 1) % 100 ≠ 0 ∨ (z + 1) % 400 = 0) := by
    simp [isLeap]
  -- multiples of 400 are multiples of 100, and those are multiples of 4
  have h100 : (z + 1) % 100 = 0 → (z + 1) % 4 = 0 := by omega
  have h400 : (z + 1) % 400 = 0 → (z + 1) % 100 = 0 := by omega
  have hle : z / 100 ≤ z := Nat.div_le_self z 100
  unfold daysInYear daysBeforeYear
  simp only [hl, Nat.add_sub_cancel, succ_div_eq z 4, succ_div_eq z 100,
    succ_div_eq z 400]
  -- only the three remainders matter now
  generalize (z + 1) % 4 = r at *
  generalize (z + 1) % 100 = r' at *
  generalize (z + 1) % 400 = r'' at *
  generalize z / 4 = q
  generalize z / 100 = q' at *
  generalize z / 400 = q''
  split_ifs <;> omega

/-- The climb ends in the year that the day lies in, if there is fuel to get there. -/
theorem yearOf_climb_spec {n : Nat} : ∀ {fuel y : Nat}, daysBeforeYear y ≤ n →
    n < daysBeforeYear (y + fuel + 1) →
    y ≤ yearOf.climb n fuel y ∧ daysBeforeYear (yearOf.climb n fuel y) ≤ n ∧
      n < daysBeforeYear (yearOf.climb n fuel y + 1) := by
  intro fuel
  induction fuel with
  | zero =>
    intro y h1 h2
    exact ⟨Nat.le_refl y, h1, h2⟩
  | succ fuel ih =>
    intro y h1 h2
    rw [yearOf.climb]
    by_cases hy : daysBeforeYear (y + 1) ≤ n
    · rw [if_pos hy]
      obtain ⟨h3, h4, h5⟩ := ih hy (by rwa [show y + 1 + fuel + 1 = y + (fuel + 1) + 1 by omega])
      exact ⟨by omega, h4, h5⟩
    · rw [if_neg hy]
      exact ⟨Nat.le_refl y, h1, by omega⟩

theorem dayCount_eq : dayCount = 3652059 := by decide

/-- The year of a day: its first day is not later, and the next year has not begun. -/
theorem yearOf_spec {n : Nat} (h : n < dayCount) :
    1 ≤ yearOf n ∧ yearOf n ≤ maxYear ∧ daysBeforeYear (yearOf n) ≤ n ∧
      n < daysBeforeYear (yearOf n + 1) := by
  have hn : n < 3652059 := dayCount_eq ▸ h
  -- no year has more than 366 days, so the estimate is never too high; over the whole calendar it
  -- falls behind by forty years at most
  have hlow : daysBeforeYear (n / 366 + 1) ≤ n := by
    unfold daysBeforeYear
    omega
  have hhigh : n < daysBeforeYear (n / 366 + 1 + 40 + 1) := by
    unfold daysBeforeYear
    omega
  obtain ⟨h1, h2, h3⟩ := @yearOf_climb_spec n 40 (n / 366 + 1) hlow hhigh
  refine ⟨?_, ?_, h2, h3⟩
  · show 1 ≤ yearOf.climb n 40 (n / 366 + 1)
    omega
  · -- a later year would begin after the last day of the calendar
    by_contra hy
    have : 3652059 ≤ daysBeforeYear (yearOf n) := by
      unfold maxYear at hy
      unfold daysBeforeYear
      omega
    have h2' : daysBeforeYear (yearOf n) ≤ n := h2
    omega

theorem daysBeforeMonth_succ (y : Nat) {m : Nat} (h : 1 ≤ m) :
    daysBeforeMonth y (m + 1) = daysBeforeMonth y m + daysInMonth y m := by
  obtain ⟨k, rfl⟩ : ∃ k, m = k + 1 := ⟨m - 1, by omega⟩
  rfl

/-- The twelve months make up the year. -/
theorem daysBeforeMonth_year (y : Nat) : daysBeforeMonth y 13 = daysInYear y := by
  simp only [daysBeforeMonth, daysInMonth, daysInYear]
  split <;> rfl

/-- The climb through the months keeps the day of the year, and ends before the thirteenth month. -/
theorem monthOf_climb_spec {y n : Nat} (hn : n < daysInYear y) : ∀ {fuel m k : Nat},
    m + fuel = 13 → 1 ≤ m → daysBeforeMonth y m + k = n →
    1 ≤ (monthOf.climb y fuel m k).1 ∧ (monthOf.climb y fuel m k).1 ≤ 12 ∧
      (monthOf.climb y fuel m k).2 < daysInMonth y (monthOf.climb y fuel m k).1 ∧
      daysBeforeMonth y (monthOf.climb y fuel m k).1 + (monthOf.climb y fuel m k).2 = n := by
  intro fuel
  induction fuel with
  | zero =>
    intro m k hm _ hk
    obtain rfl : m = 13 := by omega
    rw [daysBeforeMonth_year] at hk
    omega
  | succ fuel ih =>
    intro m k hm h1 hk
    rw [monthOf.climb]
    by_cases hd : daysInMonth y m ≤ k
    · rw [if_pos hd]
      refine ih (by omega) (by omega) ?_
      rw [daysBeforeMonth_succ y h1]
      omega
    · rw [if_neg hd]
      exact ⟨h1, by omega, by show k < daysInMonth y m; omega, hk⟩

theorem monthOf_spec {y n : Nat} (hn : n < daysInYear y) :
    1 ≤ (monthOf y n).1 ∧ (monthOf y n).1 ≤ 12 ∧ (monthOf y n).2 < daysInMonth y (monthOf y n).1 ∧
      daysBeforeMonth y (monthOf y n).1 + (monthOf y n).2 = n :=
  monthOf_climb_spec hn (by omega) (by omega) (by show 0 + n = n; omega)

/-- A day of a year, counted within the year. -/
theorem dayOfYear_lt {n : Nat} (h : n < dayCount) :
    n - daysBeforeYear (yearOf n) < daysInYear (yearOf n) := by
  obtain ⟨h1, _, h3, h4⟩ := yearOf_spec h
  rw [daysBeforeYear_succ h1] at h4
  omega

/-- Every day of the calendar has a date that exists. -/
theorem ofDayNumber_inCalendar {n : Nat} (h : n < dayCount) : (Date.ofDayNumber n).InCalendar := by
  obtain ⟨h1, h2, _, _⟩ := yearOf_spec h
  obtain ⟨h3, h4, h5, _⟩ := monthOf_spec (dayOfYear_lt h)
  refine ⟨h1, h2, h3, h4, ?_, ?_⟩
  · show 1 ≤ (monthOf (yearOf n) (n - daysBeforeYear (yearOf n))).2 + 1
    omega
  · exact h5

/-- **Counting up to the date of a day gives the day back.** -/
theorem dayNumber_ofDayNumber {n : Nat} (h : n < dayCount) :
    dayNumber (Date.ofDayNumber n) = n := by
  obtain ⟨_, _, h3, _⟩ := yearOf_spec h
  obtain ⟨_, _, _, h6⟩ := monthOf_spec (dayOfYear_lt h)
  show daysBeforeYear (yearOf n) + daysBeforeMonth (yearOf n) (monthOf _ _).1 +
    ((monthOf _ _).2 + 1 - 1) = n
  rw [Nat.add_sub_cancel]
  omega

end Cadence.Calendar
