/-
Which occurrences make a schedule due.

The last run and the present are moments as people write them.  A flow that never ran is
looked at from a minute ago on; as occurrences begin minutes, just one of them can lie in
that time, the minute of now.

* `Instant.minuteOf` — the beginning of the minute that an instant lies in;
* `isDueAt` — the verdict at a moment;
* `Occurs.minuteOf` — an occurrence begins a minute;
* `in_lookback_iff` — the last minute holds the beginning of one minute only, the present one;
* `isDueAt_some`, `isDueAt_none`, `isDueAt_unreadable` — the verdict after a run, without a
  run, and on an expression that cannot be read;
* `isDueAt_exact` — these three together, with the occurrences read off the fields of the
  expression.
-/
import Mathlib.Tactic.Common
import Cadence.Proofs.Cron.Pattern
import Cadence.Proofs.Cron.Window

namespace Cadence.Calendar

/-- The beginning of the minute that an instant lies in. -/
def Instant.minuteOf (t : Instant) : Instant := ⟨t.micros / minute * minute⟩

/-- A moment whose universal time lies in the calendar has it as its instant. -/
theorem Moment.toInstant_of_utc {m : Moment} (h : inCalendar m.utc.micros = true) :
    m.toInstant = .ok m.utc := by
  obtain ⟨wall, offset⟩ := m
  cases offset with
  | none => exact congrArg Except.ok (congrArg Instant.mk (Int.sub_zero wall).symm)
  | some offset => exact if_pos h

end Cadence.Calendar

namespace Cadence.Cron

open Cadence.Calendar

/-- Whether a schedule is due at a moment. -/
def isDueAt (expression : String) (last : Option Moment) (now : Moment) :
    Except RangeFault Verdict :=
  do
  isDue expression last (← now.toInstant)

/-! ### Minutes -/

/-- An occurrence begins a minute. -/
theorem Occurs.minuteOf {expression : String} {t : Instant}
    (h : Occurs expression t) : t.minuteOf = t := by
  obtain ⟨s, _, d, _, _, m, _, _, rfl⟩ := h
  have hminute : minute ≠ 0 := by decide
  exact congrArg (fun n : Int => (⟨n * minute⟩ : Instant)) (Int.mul_ediv_cancel _ hminute)

/-- Of the instants that begin a minute, only the beginning of the present minute is less
than a minute ago. -/
theorem in_lookback_iff {t now : Instant} (h : t.minuteOf = t) :
    now.micros + -lookback < t.micros ∧ t.micros ≤ now.micros ↔ t = now.minuteOf := by
  obtain ⟨n⟩ := t
  have hn : n / minute * minute = n := congrArg Instant.micros h
  rw [Instant.minuteOf, Instant.mk.injEq]
  simp only [lookback, minute, second] at hn ⊢
  omega

/-! ### Verdicts -/

section

variable {expression : String} {last now : Moment}

/-- At a moment of the calendar, its instant is judged. -/
theorem isDueAt_eq (last : Option Moment) (hnow : inCalendar now.utc.micros = true) :
    isDueAt expression last now = isDue expression last now.utc := by
  rw [isDueAt, Moment.toInstant_of_utc hnow]
  rfl

/-- **After a run, a schedule is due just if it has an occurrence later than the run and not
later than now.** -/
theorem isDueAt_some (expression : String) (hnow : inCalendar now.utc.micros = true)
    (hlast : inCalendar last.utc.micros = true) :
    ∃ v, isDueAt expression (some last) now = .ok v ∧
      (v.due = true ↔ ∃ t, Occurs expression t ∧ last.utc < t ∧ t ≤ now.utc) := by
  rw [isDueAt_eq _ hnow]
  exact isDue_iff (Moment.toInstant_of_utc hlast) (inCalendar_iff.mp hlast).1

/-- The minute before now begins in the calendar, if now is late enough. -/
theorem reference_none (hnow : inCalendar now.utc.micros = true)
    (hearly : lookback ≤ now.utc.micros) :
    reference none now.utc = .ok ⟨now.utc.micros + -lookback⟩ := by
  have hend := (inCalendar_iff.mp hnow).2
  have hpos : 0 < lookback := by decide
  exact Instant.shift_eq (by omega) (by omega)

/-- **Without a run, a schedule is due just if the present minute is an occurrence.** -/
theorem isDueAt_none (expression : String) (hnow : inCalendar now.utc.micros = true)
    (hearly : lookback ≤ now.utc.micros) :
    ∃ v, isDueAt expression none now = .ok v ∧
      (v.due = true ↔ Occurs expression now.utc.minuteOf) := by
  rw [isDueAt_eq _ hnow]
  obtain ⟨v, hv, hdue⟩ : ∃ v, isDue expression none now.utc = .ok v ∧
    _ := isDue_iff (reference_none hnow hearly)
    (show 0 ≤ now.utc.micros + -lookback by omega)
  refine ⟨v, hv, hdue.trans ?_⟩
  constructor
  · rintro ⟨t, hoccurs, hlt, hle⟩
    exact (in_lookback_iff hoccurs.minuteOf).mp ⟨hlt, hle⟩ ▸ hoccurs
  · intro hoccurs
    exact ⟨_, hoccurs, (in_lookback_iff hoccurs.minuteOf).mpr rfl⟩

/-- An expression that cannot be read has no next occurrence. -/
theorem nextRunAfter_unreadable {fault : Fault} {a : Instant}
    (h : Schedule.parse expression = .error fault) :
    ∃ f, nextRunAfter expression a = .error f := by
  cases hnext : nextRunAfter expression a with
  | error f => exact ⟨f, rfl⟩
  | ok t =>
    obtain ⟨s, hparse, _⟩ := nextRunAfter_ok hnext
    rw [h] at hparse
    cases hparse

/-- A schedule that is judged, though its expression cannot be read, is not due. -/
theorem isDue_unreadable {fault : Fault} {last : Option Moment} {t a : Instant}
    (h : Schedule.parse expression = .error fault) (hreference : reference last t = .ok a) :
    ∃ f, isDue expression last t = .ok ⟨false, some f⟩ := by
  obtain ⟨f, hf⟩ := nextRunAfter_unreadable (a := a) h
  refine ⟨f, ?_⟩
  unfold isDue
  rw [hreference]
  simp only [bind, Except.bind, hf]
  rfl

/-- **An expression that cannot be read is never due, and the verdict carries its fault.** -/
theorem isDueAt_unreadable {fault : Fault} (h : Schedule.parse expression = .error fault)
    (hnow : inCalendar now.utc.micros = true) :
    (∀ last : Moment, inCalendar last.utc.micros = true →
      ∃ f, isDueAt expression (some last) now = .ok ⟨false, some f⟩) ∧
    (lookback ≤ now.utc.micros → ∃ f, isDueAt expression none now = .ok ⟨false, some f⟩) := by
  constructor
  · intro last hlast
    rw [isDueAt_eq _ hnow]
    exact isDue_unreadable h (Moment.toInstant_of_utc hlast)
  · intro hearly
    rw [isDueAt_eq _ hnow]
    exact isDue_unreadable h (reference_none hnow hearly)

end

/-- An expression with a pattern occurs where the pattern does. -/
theorem occurs_iff_of_parse {expression : String} {s : Schedule} {p : Pattern}
    (hparse : Schedule.parse expression = .ok s) (hp : ∀ t, s.Occurs t ↔ p.Occurs t) (t : Instant) :
    Occurs expression t ↔ p.Occurs t := by
  rw [← hp t]
  constructor
  · rintro ⟨s', hparse', hoccurs⟩
    exact Except.ok.inj (hparse.symm.trans hparse') ▸ hoccurs
  · exact fun hoccurs => ⟨s, hparse, hoccurs⟩

/-- **A schedule is due just if an occurrence lies between the last run and now.**  An
expression that can be read has a pattern.  After a run it is due just if the pattern has an
occurrence later than the run and not later than now, so it stays due for every later now
and for every earlier run; without a run it is due just if the minute of now is an
occurrence.  An expression that cannot be read is not due.  Clocks of unknown distance show
universal time, all others are converted; only the instants have to lie in the calendar, and
for a flow that never ran also the instant a minute ago. -/
theorem isDueAt_exact (expression : String) (now : Moment)
    (hnow : inCalendar now.utc.micros = true) :
    (∀ s, Schedule.parse expression = .ok s → ∃ p : Pattern, p.Reads expression ∧
      (∀ last : Moment, inCalendar last.utc.micros = true →
        ∃ v, isDueAt expression (some last) now = .ok v ∧
          (v.due = true ↔ ∃ t, p.Occurs t ∧ last.utc < t ∧ t ≤ now.utc) ∧
          (v.due = true → ∀ last' now' : Moment, inCalendar last'.utc.micros = true →
            inCalendar now'.utc.micros = true → last'.utc ≤ last.utc → now.utc ≤ now'.utc →
            ∃ v', isDueAt expression (some last') now' = .ok v' ∧ v'.due = true)) ∧
      (lookback ≤ now.utc.micros →
        ∃ v, isDueAt expression none now = .ok v ∧ (v.due = true ↔ p.Occurs now.utc.minuteOf))) ∧
    (∀ fault, Schedule.parse expression = .error fault →
      (∀ last : Moment, inCalendar last.utc.micros = true →
        ∃ f, isDueAt expression (some last) now = .ok ⟨false, some f⟩) ∧
      (lookback ≤ now.utc.micros → ∃ f, isDueAt expression none now = .ok ⟨false, some f⟩)) := by
  refine ⟨fun s hparse => ?_, fun fault h => isDueAt_unreadable h hnow⟩
  obtain ⟨p, hreads, hp⟩ := Schedule.parse_pattern hparse
  have hoccurs := occurs_iff_of_parse hparse hp
  refine ⟨p, hreads, fun last hlast => ?_, fun hearly => ?_⟩
  · obtain ⟨v, hv, hdue⟩ := isDueAt_some expression hnow hlast
    refine ⟨v, hv, by simpa only [hoccurs] using hdue,
      fun h last' now' hlast' hnow' hearlier hlater => ?_⟩
    obtain ⟨t, ht, hlt, hle⟩ := hdue.mp h
    obtain ⟨v', hv', hdue'⟩ := isDueAt_some expression hnow' hlast'
    -- the occurrence between the two moments also lies between moments further apart
    exact ⟨v', hv', hdue'.mpr ⟨t, ht, Int.lt_of_le_of_lt hearlier hlt, Int.le_trans hle hlater⟩⟩
  · obtain ⟨v, hv, hdue⟩ := isDueAt_none expression hnow hearly
    exact ⟨v, hv, hdue.trans (hoccurs _)⟩

/-- Noon is an occurrence for a flow that ran a microsecond before noon by a clock of
unknown distance, and for a flow that never ran as long as the minute of noon lasts; a clock
two hours ahead shows 14:00 then. -/
theorem isDueAt_exact_noon :
    let noon : Int := dayNumber ⟨2025, 1, 1⟩ * day + 12 * hour
    let now : Moment := ⟨noon + 2 * hour + 59999999, some (2 * hour)⟩
    (∃ p : Pattern, p.Reads "0 12 * * *" ∧ p.Occurs ⟨noon⟩) ∧
      (∃ v, isDueAt "0 12 * * *" (some ⟨noon - 1, none⟩) now = .ok v ∧ v.due = true) ∧
      (∃ v, isDueAt "0 12 * * *" (some ⟨noon, none⟩) now = .ok v ∧ v.due = false) ∧
      (∃ v, isDueAt "0 12 * * *" none now = .ok v ∧ v.due = true) ∧
      ∃ f, isDueAt "every day" none now = .ok ⟨false, some f⟩ := by
  intro noon now
  have hnow : inCalendar now.utc.micros = true := by decide +kernel
  have hearly : lookback ≤ now.utc.micros := by decide +kernel
  obtain ⟨hreadable, _⟩ := isDueAt_exact "0 12 * * *" now hnow
  obtain ⟨_, hunreadable⟩ := isDueAt_exact "every day" now hnow
  have hparse : Schedule.parse "0 12 * * *" = .ok ⟨[⟨[.every none], [.every none], [.every none],
      [.range 12 (some 12) none], [.range 0 (some 0) none]⟩]⟩ := by decide +kernel
  obtain ⟨p, hreads, hafter, hnever⟩ := hreadable _ hparse
  obtain ⟨v, hv, hdue, _⟩ := hafter ⟨noon - 1, none⟩ (by decide +kernel)
  obtain ⟨w, hw, hlate, _⟩ := hafter ⟨noon, none⟩ (by decide +kernel)
  obtain ⟨u, hu, hminute⟩ := hnever hearly
  have hvdue : isDueAt "0 12 * * *" (some ⟨noon - 1, none⟩) now =
      .ok ⟨true, none⟩ := by decide +kernel
  have hwdue : isDueAt "0 12 * * *" (some ⟨noon, none⟩) now = .ok ⟨false, none⟩ := by decide +kernel
  have hudue : isDueAt "0 12 * * *" none now = .ok ⟨true, none⟩ := by decide +kernel
  obtain rfl := Except.ok.inj (hv.symm.trans hvdue)
  obtain rfl := Except.ok.inj (hw.symm.trans hwdue)
  obtain rfl := Except.ok.inj (hu.symm.trans hudue)
  have hnoon : now.utc.minuteOf = ⟨noon⟩ := by decide +kernel
  refine ⟨⟨p, hreads, hnoon ▸ hminute.mp rfl⟩, ⟨_, hv, rfl⟩, ⟨_, hw, rfl⟩, ⟨_, hu, rfl⟩, ?_⟩
  exact (hunreadable (.fieldCount 2) (by decide +kernel)).2 hearly

end Cadence.Cron
