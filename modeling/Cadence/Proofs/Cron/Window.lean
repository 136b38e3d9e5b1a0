/-
When a schedule is due.

A schedule is looked at from the end of the last run on, or from a little before now if
there was no run.

* `Occurs.not_blank`, `Occurs.lookback_le` — what occurs is not blank, and does not occur at
  the beginning of the calendar;
* `nextRunAfter_iff` — an occurrence that is not after now is found just if there is one;
* `isDue_iff` — a schedule is due just if it has an occurrence in the time from there until now;
* `isDue_error` — it cannot be judged just if that time begins outside the calendar.
-/
import Mathlib.Tactic.Common
import Cadence.Proofs.Calendar.Notation
import Cadence.Proofs.Cron.First

namespace Cadence.Cron

open Cadence.Calendar

theorem runsOutside_of_all {p : Char → Bool} {cs : List Char} (h : cs.all p = true) :
    Text.runsOutside p cs = [] := by
  induction cs with
  | nil => rfl
  | cons c cs ih =>
    rw [List.all_cons, Bool.and_eq_true] at h
    unfold Text.runsOutside
    rw [if_pos h.1, ih h.2]

/-- A blank expression cannot be read, so it never occurs. -/
theorem Occurs.not_blank {expression : String} {t : Instant} (h : Occurs expression t) :
    Text.isAllBlank expression = false := by
  obtain ⟨s, hparse, _⟩ := h
  cases hblank : Text.isAllBlank expression with
  | false => rfl
  | true =>
    have hsplit : Fields.split expression = .error (.fieldCount 0) := by
      rw [Fields.split, Text.words, runsOutside_of_all hblank]
      rfl
    rw [Schedule.parse, hsplit] at hparse
    cases hparse

/-- Nothing occurs in the first minutes of the calendar. -/
theorem Occurs.lookback_le {expression : String} {t : Instant} (h : Occurs expression t) :
    lookback ≤ t.micros := by
  obtain ⟨s, _, d, hd, hyear, m, _, _, rfl⟩ := h
  have hmonth : (⟨1, 1, 1⟩ : Date).monthCount < d.monthCount := by
    unfold firstYear at hyear
    unfold Date.monthCount
    simp only
    omega
  have hfirst : (⟨1, 1, 1⟩ : Date).InCalendar := ofDayNumber_inCalendar (n := 0) (by decide)
  have hday := hfirst.dayNumber_lt_of_monthCount_lt hd hmonth
  simp only [lookback, minutesOfDay, Calendar.minute, second]
  omega

/-- **An occurrence that is not after now is found just if there is one.** -/
theorem nextRunAfter_iff {expression : String} {a now : Instant} (ha : 0 ≤ a.micros) :
    (∃ t, nextRunAfter expression a = .ok t ∧ t ≤ now) ↔ ∃ t, Occurs expression t ∧
      a < t ∧ t ≤ now := by
  constructor
  · rintro ⟨t, hnext, hle⟩
    obtain ⟨hoccurs, hlt⟩ := nextRunAfter_occurs hnext
    exact ⟨t, hoccurs, hlt, hle⟩
  · rintro ⟨t, ⟨s, hparse, hoccurs⟩, hlt, hle⟩
    -- before an occurrence the calendar still has a minute to go
    have hend := hoccurs.in_calendar.2
    have hbefore : a.micros < t.micros := hlt
    have hlast : a.micros < lastSecond.micros - second := by
      simp only [lastSecond, Calendar.minute, second] at hend ⊢
      omega
    obtain ⟨o, hleast, hnext⟩ := nextRunAfter_spec hparse (by omega) hlast
    cases o with
    | none => exact absurd hlt (hleast t hoccurs)
    | some next => exact ⟨next, hnext, Int.le_trans (hleast.2.2 t hoccurs hlt) hle⟩

section

variable {expression : String} {last : Option Moment} {now : Instant}

/-- A schedule is looked at from an instant of the calendar on. -/
theorem reference_nonneg (hlast : ∀ m, last = some m → m.WellFormed) {a : Instant}
    (h : reference last now = .ok a) : 0 ≤ a.micros := by
  cases last with
  | none =>
    rw [reference, Instant.shift] at h
    split_ifs at h with hcalendar
    exact Except.ok.inj h ▸ (inCalendar_iff.mp hcalendar).1
  | some m =>
    rw [reference, Moment.toInstant_eq (hlast m rfl).wall] at h
    split_ifs at h with hcalendar
    exact Except.ok.inj h ▸ (inCalendar_iff.mp hcalendar).1

/-- A schedule cannot be judged just if there is no instant to look from. -/
theorem isDue_error {e : RangeFault} :
    isDue expression last now = .error e ↔ reference last now = .error e := by
  unfold isDue
  cases reference last now with
  | error e' =>
    simp only [bind, Except.bind]
  | ok a =>
    refine iff_of_false ?_ (fun h => by cases h)
    simp only [bind, Except.bind]
    cases nextRunAfter expression a with
    | ok t => exact fun h => by cases h
    | error f => exact fun h => by cases h

/-- **A schedule is due just if it has an occurrence after the end of the last run that is
not after now.** -/
theorem isDue_iff {a : Instant} (hreference : reference last now = .ok a) (ha : 0 ≤ a.micros) :
    ∃ v, isDue expression last now = .ok v ∧
      (v.due = true ↔ ∃ t, Occurs expression t ∧ a < t ∧ t ≤ now) := by
  rw [← nextRunAfter_iff ha]
  unfold isDue
  rw [hreference]
  simp only [bind, Except.bind]
  cases hnext : nextRunAfter expression a with
  | ok t =>
    refine ⟨_, rfl, ?_⟩
    simp only [decide_eq_true_eq, Except.ok.injEq, exists_eq_left']
  | error f =>
    refine ⟨_, rfl, ?_⟩
    simp

end

end Cadence.Cron
