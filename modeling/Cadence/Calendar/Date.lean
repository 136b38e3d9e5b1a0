/-
Days of the Gregorian calendar, counted from the first of January of the year 1.

* `dayNumber` — the count of a date;
* `Date.ofDayNumber` — the date of a count;
* `weekday` — the day of the week of a count, Monday being 0.
-/
namespace Cadence.Calendar

/-- Whether a year has 366 days. -/
def isLeap (y : Nat) : Bool := y % 4 == 0 && (y % 100 != 0 || y % 400 == 0)

/-- The number of days of a month. -/
def daysInMonth (y m : Nat) : Nat :=
  match m with
  | 2 => if isLeap y then 29 else 28
  | 4 | 6 | 9 | 11 => 30
  | _ => 31

theorem daysInMonth_le (y m : Nat) : daysInMonth y m ≤ 31 := by
  unfold daysInMonth
  repeat' split
  all_goals decide

theorem daysInMonth_pos (y m : Nat) : 0 < daysInMonth y m := by
  unfold daysInMonth
  repeat' split
  all_goals decide

/-- The days of the years before a year, from the year 1 on. -/
def daysBeforeYear (y : Nat) : Nat :=
  (y - 1) * 365 + (y - 1) / 4 - (y - 1) / 100 + (y - 1) / 400

/-- The days of the months before a month. -/
def daysBeforeMonth (y : Nat) : Nat → Nat
  | 0 => 0
  | 1 => 0
  | m + 1 => daysBeforeMonth y m + daysInMonth y m

/-- A date. -/
structure Date where
  year : Nat
  month : Nat
  day : Nat
  deriving DecidableEq, Inhabited, Repr

/-- The number of days before a date. -/
def dayNumber (d : Date) : Nat :=
  daysBeforeYear d.year + daysBeforeMonth d.year d.month + (d.day - 1)

/-- The year that a day lies in: an estimate from below, moved up while the next year has begun. -/
def yearOf (n : Nat) : Nat :=
  let y := n / 366 + 1
  climb n 40 y
where
  climb (n : Nat) : Nat → Nat → Nat
    | 0, y => y
    | fuel + 1, y => if daysBeforeYear (y + 1) ≤ n then climb n fuel (y + 1) else y

/-- The month and day of a day counted within its year. -/
def monthOf (y : Nat) (n : Nat) : Nat × Nat :=
  climb 12 1 n
where
  climb : Nat → Nat → Nat → Nat × Nat
    | 0, m, n => (m, n)
    | fuel + 1, m, n =>
      if daysInMonth y m ≤ n then climb fuel (m + 1) (n - daysInMonth y m) else (m, n)

/-- The date before which a number of days have passed. -/
def Date.ofDayNumber (n : Nat) : Date :=
  let y := yearOf n
  let (m, d) := monthOf y (n - daysBeforeYear y)
  ⟨y, m, d + 1⟩

/-- The day of the week, Monday being 0. -/
def weekday (n : Nat) : Nat := n % 7

/-- The last year of the calendar. -/
def maxYear : Nat := 9999

/-- The number of days of the calendar, from the year 1 to the last year. -/
def dayCount : Nat := daysBeforeYear (maxYear + 1)

end Cadence.Calendar
