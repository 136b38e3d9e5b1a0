/-
What is found is the first occurrence.

* `IsNext` — the first instant with a property after another instant;
* `NextIs` — what may be answered when the next occurrence of an expression is asked for:
  the first one, or a fault where there is none;
* `nextRunAfter_nextIs` — that is what is answered before the last second of the calendar.
-/
import Mathlib.Tactic.Common
import Mathlib.Tactic.SplitIfs
import Cadence.Proofs.Cron.Occurrence

namespace Cadence.Cron

open Cadence.Calendar

/-- The first instant with a property after another instant. -/
structure IsNext (P : Instant → Prop) (a t : Instant) : Prop where
  holds : P t
  after : a < t
  first : ∀ u, P u → a < u → t ≤ u

/-- Occurrences lie in the calendar, and not in its last minute but at its beginning. -/
theorem Schedule.Occurs.in_calendar {s : Schedule} {t : Instant} (h : s.Occurs t) :
    0 ≤ t.micros ∧ t.micros + minute ≤ calendarMicros := by
  obtain ⟨d, hd, _, m, hm, _, rfl⟩ := h
  have hday := hd.dayNumber_lt_dayCount
  simp only [calendarMicros, minutesOfDay, Calendar.day, Calendar.hour, Calendar.minute, second]
    at hm ⊢
  omega

/-- What may be answered when the next occurrence after an instant is asked for. A fault
means that there is none, or that the instant lies before the calendar. -/
inductive NextIs (expression : String) (occurs : Instant → Prop) (a : Instant) :
    Except NextFault Instant → Prop where
  | found {t : Instant} (first : IsNext occurs a t) : NextIs expression occurs a (.ok t)
  | never (none : ∀ t, occurs t → t ≤ a) : NextIs expression occurs a (.error (.never expression))
  | lastSecond (late : lastSecond.micros - second ≤ a.micros) (none : ∀ t, occurs t → t ≤ a) :
    NextIs expression occurs a (.error .lastSecond)
  | beforeCalendar (early : a.micros < 0) : NextIs expression occurs a (.error (.range .outOfRange))

/-- **The next occurrence is the first one after the instant.** -/
theorem nextRunAfter_nextIs {expression : String} {s : Schedule}
    (hparse : Schedule.parse expression = .ok s) {a : Instant} (ha : 0 ≤ a.micros)
    (hlast : a < lastSecond) :
    NextIs expression s.Occurs a (nextRunAfter expression a) := by
  by_cases hsecond : lastSecond.micros - second ≤ a.micros
  · rw [nextRunAfter_lastSecond hparse hsecond hlast]
    refine .lastSecond hsecond fun t ht => ?_
    -- the last minute of the calendar begins long before
    have hend := ht.in_calendar.2
    show t.micros ≤ a.micros
    simp only [lastSecond, Calendar.minute, second] at hsecond hend
    omega
  · obtain ⟨o, hleast, hnext⟩ := nextRunAfter_spec hparse (by omega) (Int.not_le.mp hsecond)
    rw [hnext]
    cases o with
    | none => exact .never fun t ht => Int.not_lt.mp (hleast t ht)
    | some t => exact .found ⟨hleast.1, hleast.2.1, hleast.2.2⟩

end Cadence.Cron
