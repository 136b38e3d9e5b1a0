/-
Decisions on timestamps that are printed and read again.

A timestamp may be kept as a moment or as its text.  Its text gives the instant of the
moment, in each notation of the distance from universal time, and so it makes no difference
for a schedule in which form the last run and the present are told.

* `Moment.toUtc` — a moment as universal time shows it, and `Moment.toUtc_toUtc`, after
  which it stays the same;
* `isDueByText` — the verdict on moments that are told by texts;
* `isDueByText_isoText` — printing and reading again does not change a verdict;
* **`timestamps_read_back`** — these results together, with those on the single notations.
-/
import Cadence.Proofs.Calendar.Timestamp
import Cadence.Proofs.Cron.Verdict

namespace Cadence.Calendar

/-- A moment as universal time shows it. -/
def Moment.toUtc (m : Moment) : Except RangeFault Moment := m.toInstant.map Instant.toMoment

/-- An instant of a moment lies in the calendar, if the clock shows a time of the calendar. -/
theorem Moment.toInstant_inCalendar {m : Moment} {t : Instant} (hwall : inCalendar m.wall = true)
    (h : m.toInstant = .ok t) : t = m.utc ∧ inCalendar t.micros = true := by
  rw [Moment.toInstant_eq hwall] at h
  split at h
  · next hutc =>
    obtain rfl := Except.ok.inj h
    exact ⟨rfl, hutc⟩
  · cases h

/-- A moment that universal time shows stays as it is, and it has the universal time of the
moment before. -/
theorem Moment.toUtc_toUtc {m u : Moment} (hwall : inCalendar m.wall = true) (h : m.toUtc = .ok u) :
    u.toUtc = .ok u ∧ u.utc = m.utc ∧ u.offset = some 0 := by
  unfold Moment.toUtc at h
  cases hinstant : m.toInstant with
  | error fault =>
    rw [hinstant] at h
    cases h
  | ok t =>
    rw [hinstant] at h
    obtain rfl : t.toMoment = u := Except.ok.inj h
    obtain ⟨rfl, hutc⟩ := Moment.toInstant_inCalendar hwall hinstant
    refine ⟨?_, Instant.utc_toMoment _, rfl⟩
    rw [Moment.toUtc, Instant.toMoment_toInstant hutc]
    rfl

end Cadence.Calendar

namespace Cadence.Cron

open Cadence.Calendar Cadence.Text

/-- Whether a schedule is due, where the last run and the present are told by texts. -/
def isDueByText (expression : String) (last : Option String) (now : String) :
    Except InstantFault Verdict :=
  do
  let now ← Instant.parse now
  match last with
  | none => (isDue expression none now).mapError .range
  | some text => do
    let last ← Instant.parse text
    (isDue expression (some last.toMoment) now).mapError .range

variable {expression : String} {last : Option Moment} {now : Moment}

/-- A last run is looked at by its instant only. -/
theorem isDue_toMoment {l : Moment} {t u : Instant} (hwall : inCalendar l.wall = true)
    (h : l.toInstant = .ok t) :
    isDue expression (some t.toMoment) u = isDue expression (some l) u := by
  obtain ⟨_, ht⟩ := Moment.toInstant_inCalendar hwall h
  have hreference : reference (some t.toMoment) u = reference (some l) u := by
    show t.toMoment.toInstant = l.toInstant
    rw [Instant.toMoment_toInstant ht, h]
  rw [isDue, isDue, hreference]

theorem parse_printed {m : Moment} (h : m.WellFormed) :
    Instant.parse m.isoText = m.toInstant.mapError .range := by
  have hparse := Instant.parse_isoText h (a := "") (b := "") rfl rfl
  rwa [String.empty_append, String.append_empty] at hparse

/-- **Printing and reading again does not change a verdict.** -/
theorem isDueByText_isoText (hlast : ∀ l ∈ last, l.WellFormed) (hnow : now.WellFormed) :
    isDueByText expression (last.map Moment.isoText) now.isoText =
      (isDueAt expression last now).mapError .range := by
  unfold isDueByText isDueAt
  rw [parse_printed hnow]
  cases hn : now.toInstant with
  | error fault => rfl
  | ok u =>
    rw [mapError_ok, ok_bind, ok_bind]
    cases last with
    | none => rfl
    | some l =>
      have hl := hlast l rfl
      simp only [Option.map_some, parse_printed hl]
      cases ht : l.toInstant with
      | error fault =>
        have hreference : reference (some l) u = .error fault := ht
        rw [isDue, hreference]
        rfl
      | ok t => rw [mapError_ok, ok_bind, isDue_toMoment hl.wall ht]

/-- **Timestamps read back as the same instant.**  The notation of a moment, whatever blanks
stand around it, gives the universal time of the moment, unless this lies outside the
calendar, and so does its universal time with a `Z` in place of the distance of zero.  A
text that tells no distance shows universal time.  Universal time stays universal time, and
the instant stays the same.  No verdict on a schedule depends on whether the moments were
printed and read again. -/
theorem timestamps_read_back :
    (∀ (m : Moment) (before after : String), m.WellFormed → isAllBlank before = true →
      isAllBlank after = true → Instant.parse (before ++ m.isoText ++ after) =
          (if inCalendar m.utc.micros then .ok m.utc else .error (.range .outOfRange)) ∧
        (inCalendar m.utc.micros = true → ∃ text, m.utc.isoText = text ++ "+00:00" ∧
          Instant.parse (before ++ (text ++ "Z") ++ after) = .ok m.utc)) ∧
    (∀ (s : String) (wall : Int), Moment.parse (trim s) = .ok ⟨wall, none⟩ →
      Instant.parse s = .ok ⟨wall⟩) ∧
    (∀ m : Moment, inCalendar m.wall = true →
      (inCalendar m.utc.micros = true → m.toUtc = .ok m.utc.toMoment) ∧
        ∀ u, m.toUtc = .ok u → u.toUtc = .ok u ∧ u.utc = m.utc ∧ u.offset = some 0) ∧
    ∀ (expression : String) (last : Option Moment) (now : Moment), (∀ l ∈ last, l.WellFormed) →
      now.WellFormed →
      isDueByText expression (last.map Moment.isoText) now.isoText =
        (isDueAt expression last now).mapError .range := by
  refine ⟨?_, ?_, ?_, ?_⟩
  · intro m before after hm hbefore hafter
    constructor
    · rw [Instant.parse_isoText hm hbefore hafter, Moment.toInstant_eq hm.wall]
      split <;> rfl
    · intro hutc
      exact ⟨_, m.utc.isoText_eq, Instant.parse_zulu hutc hbefore hafter⟩
  · intro s wall hparse
    exact Instant.parse_naive hparse
  · intro m hwall
    constructor
    · intro hutc
      rw [Moment.toUtc, Moment.toInstant_of_utc hutc]
      rfl
    · intro u hu
      exact Moment.toUtc_toUtc hwall hu
  · intro expression last now hlast hnow
    exact isDueByText_isoText hlast hnow

/-- The first half hour of a year, five and a half hours ahead of universal time, where the
year before goes on. -/
theorem timestamps_read_back_newYear :
    let m : Moment := ⟨dayNumber ⟨2025, 1, 1⟩ * day + 10 * minute + 250000, some (330 * minute)⟩
    m.isoText = "2025-01-01T00:10:00.250000+05:30" ∧
      m.utc.isoText = "2024-12-31T18:40:00.250000+00:00" ∧
      Instant.parse ("\t" ++ m.isoText ++ " \n") = .ok m.utc ∧
      Instant.parse ("" ++ ("2024-12-31T18:40:00.250000" ++ "Z") ++ "\n") = .ok m.utc ∧
      Instant.parse "2024-12-31 18:40" = .ok ⟨m.utc.micros - 250000⟩ ∧
      m.utc.toMoment.toUtc = .ok m.utc.toMoment ∧
      isDueByText "*/5 * * * *" (some m.isoText) m.isoText =
          (isDueAt "*/5 * * * *" (some m) m).mapError .range := by
  intro m
  have hwall : inCalendar m.wall = true := by decide
  have hutc : inCalendar m.utc.micros = true := by decide
  have hm : m.WellFormed := by
    refine ⟨hwall, fun o ho => ?_⟩
    obtain rfl : 330 * minute = o := Option.some_inj.mp ho
    decide
  obtain ⟨hread, hnaive, huniversal, hverdict⟩ := timestamps_read_back
  have htext : m.utc.isoText = "2024-12-31T18:40:00.250000+00:00" := by decide +kernel
  refine ⟨by decide +kernel, htext, ?_, ?_, ?_, ?_, ?_⟩
  · rw [(hread m "\t" " \n" hm (by decide) (by decide)).1, if_pos hutc]
  · obtain ⟨text, htext', hparse⟩ := (hread m "" "\n" hm (by decide) (by decide)).2 hutc
    have hsame : text ++ "+00:00" = "2024-12-31T18:40:00.250000" ++ "+00:00" :=
      htext'.symm.trans htext
    rw [← (String.append_left_inj _).mp hsame]
    exact hparse
  · exact hnaive _ _ (by decide +kernel)
  · obtain ⟨hshown, hkept⟩ := huniversal m hwall
    exact (hkept _ (hshown hutc)).1
  · exact hverdict _ (some m) m (fun l hl => Option.some_inj.mp hl ▸ hm) hm

end Cadence.Cron
