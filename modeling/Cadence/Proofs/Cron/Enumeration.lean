/-
The occurrences of an expression, one after the other.

* `nextRun_nextIs` — the answer for a moment is the first occurrence, or a fault where there
  is none;
* `nextRuns` — the occurrences found by asking again from each answer;
* `Enumerates` — lists that go through all instants with a property, in order and without a gap;
* `nextRun_first` — the answer is right for every expression that can be read and every
  moment before the last second of the calendar, and asking again goes through all
  occurrences after that moment.
-/
import Mathlib.Tactic.Common
import Cadence.Proofs.Cron.Pattern
import Cadence.Proofs.Cron.First

namespace Cadence.Cron

open Cadence.Calendar

/-! ### One answer -/

section

variable {expression : String} {s : Schedule} (hparse : Schedule.parse expression = .ok s)

include hparse

/-- **The next occurrence is the first one after the moment.** -/
theorem nextRun_nextIs {reference : Moment} (hwall : inCalendar reference.wall = true)
    (hlast : reference.utc < lastSecond) :
    NextIs expression s.Occurs reference.utc (nextRun expression reference) := by
  have hlast' : reference.utc.micros < calendarMicros - second := hlast
  unfold nextRun
  rw [Moment.toInstant_eq hwall]
  by_cases hutc : inCalendar reference.utc.micros = true
  · rw [if_pos hutc]
    exact nextRunAfter_nextIs hparse (inCalendar_iff.mp hutc).1 hlast
  · rw [if_neg hutc]
    rw [inCalendar_iff] at hutc
    refine .beforeCalendar ?_
    simp only [second] at hlast'
    omega

end

/-! ### Asking again -/

/-- The occurrences found by asking up to `n` times, each time from the last answer. -/
def nextRuns (expression : String) : Nat → Moment → List Instant
  | 0, _ => []
  | n + 1, reference =>
    match nextRun expression reference with
    | .ok t => t :: nextRuns expression n t.toMoment
    | .error _ => []

/-- Lists that go through all instants with a property after a given one, in order and
without a gap. -/
structure Enumerates (P : Instant → Prop) (a : Instant) (runs : Nat → List Instant) : Prop where
  sorted : ∀ n, (runs n).Pairwise (· < ·)
  sound : ∀ n, ∀ t ∈ runs n, P t ∧ a < t
  unbroken : ∀ n, ∀ t ∈ runs n, ∀ u, P u → a < u → u ≤ t → u ∈ runs n
  complete : ∀ t, P t → a < t → ∃ n, t ∈ runs n

/-- A moment whose universal time lies in the calendar, before its last second. -/
structure IsReference (m : Moment) : Prop where
  wall : inCalendar m.wall = true
  calendar : 0 ≤ m.utc.micros
  before : m.utc < lastSecond

/-- An occurrence is a moment to ask from. -/
theorem Schedule.Occurs.isReference {s : Schedule} {t : Instant} (h : s.Occurs t) :
    IsReference t.toMoment := by
  obtain ⟨hpos, hend⟩ := h.in_calendar
  have hlast : t < lastSecond := by
    show t.micros < calendarMicros - second
    simp only [Calendar.minute, second] at hend ⊢
    omega
  refine ⟨inCalendar_iff.mpr ⟨hpos, ?_⟩, ?_, ?_⟩
  · show t.micros < calendarMicros
    simp only [Calendar.minute, second] at hend
    omega
  · rwa [Instant.utc_toMoment]
  · rwa [Instant.utc_toMoment]

section

variable {expression : String} {s : Schedule} (hparse : Schedule.parse expression = .ok s)
  {reference : Moment} (hreference : IsReference reference)

include hparse hreference

/-- Asking once more puts the first occurrence before those that follow it, or finds none
where there is none. -/
theorem nextRuns_succ :
    (∃ t, IsNext s.Occurs reference.utc t ∧
      ∀ n, nextRuns expression (n + 1) reference = t :: nextRuns expression n t.toMoment) ∨
    (∀ t, s.Occurs t → t ≤ reference.utc) ∧ ∀ n, nextRuns expression (n + 1) reference = [] := by
  have hnext := nextRun_nextIs hparse hreference.wall hreference.before
  simp only [nextRuns]
  generalize nextRun expression reference = answer at hnext
  cases hnext with
  | found hfirst => exact Or.inl ⟨_, hfirst, fun _ => rfl⟩
  | never hnone => exact Or.inr ⟨hnone, fun _ => rfl⟩
  | lastSecond _ hnone => exact Or.inr ⟨hnone, fun _ => rfl⟩
  | beforeCalendar hearly => exact absurd hreference.calendar (Int.not_le.mpr hearly)

theorem nextRuns_sound (n : Nat) :
    ∀ t ∈ nextRuns expression n reference, s.Occurs t ∧ reference.utc < t := by
  induction n generalizing reference with
  | zero => exact fun _ ht => absurd ht List.not_mem_nil
  | succ n ih =>
    rcases nextRuns_succ hparse hreference with ⟨t, hnext, hruns⟩ | ⟨_, hruns⟩
    · intro u hu
      rw [hruns] at hu
      rcases List.mem_cons.mp hu with rfl | hu
      · exact ⟨hnext.holds, hnext.after⟩
      · obtain ⟨hoccurs, hlt⟩ := ih hnext.holds.isReference u hu
        rw [Instant.utc_toMoment] at hlt
        exact ⟨hoccurs, Int.lt_trans hnext.after hlt⟩
    · rw [hruns]
      exact fun _ ht => absurd ht List.not_mem_nil

theorem nextRuns_sorted (n : Nat) : (nextRuns expression n reference).Pairwise (· < ·) := by
  induction n generalizing reference with
  | zero => exact List.Pairwise.nil
  | succ n ih =>
    rcases nextRuns_succ hparse hreference with ⟨t, hnext, hruns⟩ | ⟨_, hruns⟩
    · rw [hruns]
      refine List.pairwise_cons.mpr ⟨fun u hu => ?_, ih hnext.holds.isReference⟩
      have hlt := (nextRuns_sound hparse hnext.holds.isReference n u hu).2
      rwa [Instant.utc_toMoment] at hlt
    · rw [hruns]
      exact List.Pairwise.nil

theorem nextRuns_unbroken (n : Nat) : ∀ t ∈ nextRuns expression n reference, ∀ u, s.Occurs u →
    reference.utc < u → u ≤ t → u ∈ nextRuns expression n reference := by
  induction n generalizing reference with
  | zero => exact fun _ ht => absurd ht List.not_mem_nil
  | succ n ih =>
    rcases nextRuns_succ hparse hreference with ⟨first, hnext, hruns⟩ | ⟨_, hruns⟩
    · rw [hruns]
      intro t ht u hu hafter hle
      -- the first answer is the first occurrence, so any other is found by asking from there
      by_cases hfirst : u = first
      · exact List.mem_cons.mpr (Or.inl hfirst)
      · have hlt : first < u := Instant.lt_of_le_of_ne (hnext.first u hu hafter) (Ne.symm hfirst)
        rcases List.mem_cons.mp ht with rfl | ht
        · exact absurd hle (Int.not_le.mpr hlt)
        · refine List.mem_cons.mpr (Or.inr (ih hnext.holds.isReference t ht u hu ?_ hle))
          rwa [Instant.utc_toMoment]
    · rw [hruns]
      exact fun _ ht => absurd ht List.not_mem_nil

/-- By induction on the time from the moment to the occurrence: each answer is later than
the last one. -/
theorem nextRuns_complete {t : Instant} (ht : s.Occurs t) (hafter : reference.utc < t) :
    ∃ n, t ∈ nextRuns expression n reference := by
  induction hdistance : (t.micros - reference.utc.micros).toNat using Nat.strongRecOn
    generalizing reference with
  | ind k ih =>
    rcases nextRuns_succ hparse hreference with ⟨first, hnext, hruns⟩ | ⟨hnone, _⟩
    · by_cases hfirst : t = first
      · exact ⟨1, by rw [hruns 0, hfirst]; exact List.mem_cons_self⟩
      · have hlt : first < t := Instant.lt_of_le_of_ne (hnext.first t ht hafter) (Ne.symm hfirst)
        have hcloser : (t.micros - first.toMoment.utc.micros).toNat < k := by
          have hbefore : reference.utc.micros < first.micros := hnext.after
          have hbehind : first.micros < t.micros := hlt
          rw [Instant.utc_toMoment]
          omega
        obtain ⟨n, hn⟩ := ih _ hcloser hnext.holds.isReference (by rwa [Instant.utc_toMoment]) rfl
        exact ⟨n + 1, by rw [hruns n]; exact List.mem_cons_of_mem first hn⟩
    · exact absurd (hnone t ht) (Int.not_le.mpr hafter)

theorem nextRuns_enumerates :
    Enumerates s.Occurs reference.utc fun n => nextRuns expression n reference where
  sorted := nextRuns_sorted hparse hreference
  sound := nextRuns_sound hparse hreference
  unbroken := nextRuns_unbroken hparse hreference
  complete := fun _ => nextRuns_complete hparse hreference

end

/-- **The next occurrence of an expression is the first instant after a moment that the
fields of the expression allow, and asking again from each answer goes through all of
them.** A fault is answered only where there is none, or where the moment lies before the
calendar in universal time. -/
theorem nextRun_first {expression : String} {s : Schedule}
    (hparse : Schedule.parse expression = .ok s) :
    ∃ p : Pattern, p.Reads expression ∧ ∀ reference : Moment, inCalendar reference.wall = true →
      reference.utc < lastSecond →
        NextIs expression p.Occurs reference.utc (nextRun expression reference) ∧
        (0 ≤ reference.utc.micros →
          Enumerates p.Occurs reference.utc fun n => nextRuns expression n reference) := by
  obtain ⟨p, hreads, hoccurs⟩ := Schedule.parse_pattern hparse
  have hsame : s.Occurs = p.Occurs := funext fun t => propext (hoccurs t)
  refine ⟨p, hreads, ?_⟩
  rw [← hsame]
  exact fun reference hwall hlast => ⟨nextRun_nextIs hparse hwall hlast,
    fun hcalendar => nextRuns_enumerates hparse ⟨hwall, hcalendar, hlast⟩⟩

/-- Leap days, asked for by a clock two hours ahead of universal time: from one that has
just begun the next is eight years away, for 2100 is no leap year. -/
theorem nextRun_first_leapDay : ∃ s, Schedule.parse "0 0 29 2 *" = .ok s ∧
    ∃ p : Pattern, p.Reads "0 0 29 2 *" ∧
      IsNext p.Occurs ⟨dayNumber ⟨2096, 2, 29⟩ * day⟩ ⟨dayNumber ⟨2104, 2, 29⟩ * day⟩ ∧
      Enumerates p.Occurs ⟨dayNumber ⟨2096, 2, 29⟩ * day⟩ fun n =>
        nextRuns "0 0 29 2 *" n ⟨dayNumber ⟨2096, 2, 29⟩ * day + 2 * hour, some (2 * hour)⟩ := by
  have hparse : Schedule.parse "0 0 29 2 *" =
      .ok ⟨[⟨[.range 2 (some 2) none], [.range 29 (some 29) none],
      [.every none], [.range 0 (some 0) none], [.range 0 (some 0) none]⟩]⟩ := by decide +kernel
  have hnext : nextRun "0 0 29 2 *" ⟨dayNumber ⟨2096, 2, 29⟩ * day + 2 * hour, some (2 * hour)⟩ =
      .ok ⟨dayNumber ⟨2104, 2, 29⟩ * day⟩ := by decide +kernel
  have hutc : (⟨dayNumber ⟨2096, 2, 29⟩ * day + 2 * hour, some (2 * hour)⟩ : Moment).utc =
      ⟨dayNumber ⟨2096, 2, 29⟩ * day⟩ := by decide +kernel
  obtain ⟨p, hreads, hfirst⟩ := nextRun_first hparse
  obtain ⟨hanswer, hruns⟩ := hfirst ⟨dayNumber ⟨2096, 2, 29⟩ * day + 2 * hour, some (2 * hour)⟩
    (by decide +kernel) (by decide +kernel)
  rw [hnext, hutc] at hanswer
  rw [hutc] at hruns
  cases hanswer with
  | found hisNext => exact ⟨_, hparse, p, hreads, hisNext, hruns (by decide +kernel)⟩

end Cadence.Cron
