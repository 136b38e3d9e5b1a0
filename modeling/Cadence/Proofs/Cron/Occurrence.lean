/-
Occurrences of schedules.

* `Occurs` — an expression occurs at an instant: the beginning of a minute whose date and
  time of day the fields of the expression allow;
* `Variant.nextFrom_spec`, `nextRunAfter_spec` — what is found is the first occurrence, and
  nothing is found only where there is none;
* `nextRunAfter_occurs` — in particular it is an occurrence after the instant that the
  search starts from;
* `isDue_occurs` — a due schedule has an occurrence after the last run that is not after now.

The search counts places and the calendar counts days; both put seconds in the same order
(`Stamp.count_le_iff`).
-/
import Cadence.Proofs.Calendar.Instant
import Cadence.Proofs.Cron.Search
import Cadence.Cron.Due

namespace Cadence.Cron

open Cadence.Calendar

/-- The minutes of a day. -/
def minutesOfDay : Nat := 1440

/-- The last full second of the calendar. -/
def lastSecond : Instant := ⟨calendarMicros - second⟩

/-- A schedule occurs at the beginning of each minute that it allows, from 1970 to the end of the
calendar. -/
def Schedule.Occurs (s : Schedule) (t : Instant) : Prop :=
  ∃ d : Date, d.InCalendar ∧ firstYear ≤ d.year ∧ ∃ m < minutesOfDay,
    s.occursAt d m = true ∧ t = ⟨(Calendar.dayNumber d * minutesOfDay + m : Nat) * minute⟩

/-- An expression that can be read occurs where its schedule does. -/
def Occurs (expression : String) (t : Instant) : Prop :=
  ∃ s, Schedule.parse expression = .ok s ∧ s.Occurs t

/-! ### Seconds and instants -/

namespace Stamp

section

variable {t u : Stamp} (ht : t.InCalendar) (hu : u.InCalendar)

include ht hu

theorem toInstant_lt (h : t.count .second < u.count .second) : t.toInstant < u.toInstant := by
  have := bounds ht
  have := bounds hu
  show t.toInstant.micros < u.toInstant.micros
  rcases Nat.lt_trichotomy t.date.monthCount u.date.monthCount with hlt | heq | hgt
  · have := ht.date.dayNumber_lt_of_monthCount_lt hu.date hlt
    simp only [toInstant, Calendar.day, Calendar.hour, Calendar.minute, Calendar.second]
    omega
  · have hday := ht.date.dayNumber_eq_monthStart
    have hday' := hu.date.dayNumber_eq_monthStart
    rw [← heq] at hday'
    simp only [count, toInstant, Calendar.day, Calendar.hour, Calendar.minute, Calendar.second]
      at h ⊢
    omega
  · simp only [count] at h
    omega

theorem eq_of_count (h : t.count .second = u.count .second) : t = u := by
  have := bounds ht
  have := bounds hu
  have hday : t.count .day = u.count .day := by
    simp only [count] at h ⊢
    omega
  have hdate := date_eq_of_count ht hu hday
  simp only [count, hdate] at h
  have hhour : t.hour = u.hour := by omega
  have hminute : t.minute = u.minute := by omega
  have hsecond : t.second = u.second := by omega
  show (⟨t.date, t.hour, t.minute, t.second⟩ : Stamp) = ⟨u.date, u.hour, u.minute, u.second⟩
  rw [hdate, hhour, hminute, hsecond]

/-- Seconds are ordered as the instants at which they begin. -/
theorem count_le_iff : t.count .second ≤ u.count .second ↔ t.toInstant ≤ u.toInstant := by
  constructor
  · intro h
    rcases Nat.lt_or_eq_of_le h with hlt | heq
    · exact Int.le_of_lt (toInstant_lt ht hu hlt)
    · rw [eq_of_count ht hu heq]
      exact Int.le_refl _
  · intro h
    by_contra hlt
    exact Int.not_le.mpr (toInstant_lt hu ht (Nat.lt_of_not_le hlt)) h

end

section

variable {a : Instant} (hpos : 0 ≤ a.micros) (hend : a.micros < calendarMicros)

include hpos hend

theorem ofInstant_inCalendar : (ofInstant a).InCalendar := by
  have hday : (a.micros / Calendar.second).toNat / 86400 < dayCount := by
    simp only [calendarMicros, Calendar.day, Calendar.hour, Calendar.minute, Calendar.second]
      at hend ⊢
    omega
  refine ⟨ofDayNumber_inCalendar hday, ?_, ?_, ?_⟩ <;> simp only [ofInstant] <;> omega

theorem toInstant_ofInstant (hsecond : a.micros % Calendar.second = 0) :
    (ofInstant a).toInstant = a := by
  have hday : (a.micros / Calendar.second).toNat / 86400 < dayCount := by
    simp only [calendarMicros, Calendar.day, Calendar.hour, Calendar.minute, Calendar.second]
      at hend ⊢
    omega
  obtain ⟨micros⟩ := a
  simp only [toInstant, ofInstant, dayNumber_ofDayNumber hday, Instant.mk.injEq]
  simp only [Calendar.day, Calendar.hour, Calendar.minute, Calendar.second] at hpos hsecond ⊢
  omega

end

end Stamp

/-- The last second of the calendar. -/
theorem Stamp.eq_last_iff {a : Instant} (hpos : 0 ≤ a.micros) (hend : a.micros < calendarMicros)
    (hsecond : a.micros % Calendar.second = 0) : Stamp.ofInstant a = .last ↔ a = lastSecond := by
  have hlast : Stamp.last.toInstant = lastSecond ∧
      Stamp.ofInstant lastSecond = .last := by decide +kernel
  constructor
  · intro h
    rw [← Stamp.toInstant_ofInstant hpos hend hsecond, h, hlast.1]
  · rintro rfl
    exact hlast.2

/-! ### Variants -/

/-- A variant occurs at the beginning of each second that it allows. -/
def Variant.Occurs (v : Variant) (t : Instant) : Prop := ∃ u, v.Allows u ∧ u.toInstant = t

/-- The seconds that a variant allows are the first ones of the minutes that it allows. -/
theorem Variant.allows_iff_minute {v : Variant} {u : Stamp} :
    v.Allows u ↔ u.InCalendar ∧ firstYear ≤ u.date.year ∧ u.second = 0 ∧
      (v.allowsDate u.date && v.allowsTime u.hour u.minute) = true := by
  simp only [allowsDate, allowsTime, Bool.and_eq_true]
  constructor
  · intro h
    have hyear := h.allows .year
    have hsecond := h.allows .second
    simp [AllowsAt, anyAllows, items, Item.allows, Place.low, Stamp.value, onStep] at hyear hsecond
    exact ⟨h.calendar, hyear.1, hsecond, ⟨⟨h.allows .month, h.allows .day⟩, h.allows .weekday⟩,
      h.allows .hour, h.allows .minute⟩
  · rintro ⟨hcalendar, hyear, hsecond, ⟨⟨hmonth, hday⟩, hweekday⟩, hhour, hminute⟩
    refine ⟨hcalendar, fun p => ?_⟩
    cases p with
    | year =>
      simp [AllowsAt, anyAllows, items, Item.allows, Place.low, Stamp.value, Stamp.high,
        onStep, hyear, hcalendar.date.year_le]
    | month => exact hmonth
    | day => exact hday
    | weekday => exact hweekday
    | hour => exact hhour
    | minute => exact hminute
    | second =>
      simp [AllowsAt, anyAllows, items, Item.allows, Place.low, Stamp.value,
        onStep, hsecond]

/-- A schedule occurs where one of its variants does. -/
theorem Schedule.occurs_iff_variant {s : Schedule} {t : Instant} :
    s.Occurs t ↔ ∃ v ∈ s.variants, v.Occurs t := by
  unfold Schedule.Occurs Schedule.occursAt minutesOfDay
  simp only [List.any_eq_true]
  constructor
  · rintro ⟨d, hd, hyear, m, hm, ⟨v, hv, hallows⟩, rfl⟩
    refine ⟨v, hv, ⟨d, m / 60, m % 60, 0⟩, Variant.allows_iff_minute.mpr
      ⟨⟨hd, by show m / 60 ≤ 23; omega, by show m % 60 ≤ 59; omega, Nat.zero_le _⟩, hyear,
        rfl, hallows⟩, ?_⟩
    simp only [Stamp.toInstant, Instant.mk.injEq, Calendar.day, Calendar.hour,
      Calendar.minute, Calendar.second]
    omega
  · rintro ⟨v, hv, u, hu, rfl⟩
    obtain ⟨hcalendar, hyear, hsecond, hallows⟩ := Variant.allows_iff_minute.mp hu
    have hhour := hcalendar.hour_le
    have hminute := hcalendar.minute_le
    refine ⟨u.date, hcalendar.date, hyear, u.hour * 60 + u.minute, by omega, ⟨v, hv, ?_⟩, ?_⟩
    · rwa [show (u.hour * 60 + u.minute) / 60 = u.hour by omega,
        show (u.hour * 60 + u.minute) % 60 = u.minute by omega]
    · simp only [Stamp.toInstant, Instant.mk.injEq, Calendar.day, Calendar.hour,
        Calendar.minute, Calendar.second]
      omega

theorem Variant.Occurs.second {v : Variant} {t : Instant} (h : v.Occurs t) :
    t.micros % Calendar.second = 0 ∧ t ≤ lastSecond := by
  obtain ⟨u, hu, rfl⟩ := h
  have := Stamp.bounds hu.calendar
  have := hu.calendar.date.dayNumber_lt_dayCount
  show _ ∧ u.toInstant.micros ≤ lastSecond.micros
  simp only [Stamp.toInstant, lastSecond, calendarMicros, Calendar.day, Calendar.hour,
    Calendar.minute, Calendar.second]
  omega

/-- The first full second that is not before an instant. -/
theorem fullSecond_spec {a : Instant} (hpos : 0 ≤ a.micros) (hlast : a ≤ lastSecond) :
    ∃ b : Instant, fullSecond a = .ok b ∧ a ≤ b ∧ b ≤ lastSecond ∧ b.micros % second = 0 ∧
      b.micros < a.micros + second := by
  have hlast : a.micros ≤ calendarMicros - second := hlast
  unfold fullSecond
  split_ifs with hfull
  · exact ⟨a, rfl, Int.le_refl _, hlast, hfull, by simp only [second]; omega⟩
  · refine ⟨_, Instant.shift_eq ?_ ?_, ?_, ?_, ?_, ?_⟩
    · simp only [second]
      omega
    · simp only [calendarMicros, Calendar.day, Calendar.hour, Calendar.minute, second]
        at hlast hfull ⊢
      omega
    · show a.micros ≤ a.micros + (second - a.micros % second)
      simp only [second]
      omega
    · show a.micros + (second - a.micros % second) ≤ calendarMicros - second
      simp only [calendarMicros, Calendar.day, Calendar.hour, Calendar.minute, second]
        at hlast hfull ⊢
      omega
    · simp only [second]
      omega
    · simp only [second] at hfull ⊢
      omega

section

variable {v : Variant} (hv : v.IsStepped) {a : Instant}

theorem reached_year (v : Variant) {t : Stamp} (ht : t.InCalendar) : v.Reached t Place.year.left :=
  ⟨ht, fun p hp => absurd p.left_le (Nat.not_le.mpr hp)⟩

include hv

/-- **The first occurrence of a variant that is not before an instant is found, if there is
one.** -/
theorem Variant.nextFrom_spec (hpos : 0 ≤ a.micros)
    (hlast : a.micros ≤ lastSecond.micros - second) :
    ∃ o, v.nextFrom a = .ok o ∧ IsLeast? v.Occurs a o := by
  have hle : a ≤ lastSecond := by
    show a.micros ≤ lastSecond.micros
    simp only [second] at hlast
    omega
  obtain ⟨b, hb, hab, hblast, hfull, hnear⟩ := fullSecond_spec hpos hle
  have hbpos : 0 ≤ b.micros := Int.le_trans hpos hab
  have hbend : b.micros < calendarMicros := by
    have : b.micros ≤ calendarMicros - second := hblast
    simp only [second] at this
    omega
  have hstart := Stamp.ofInstant_inCalendar hbpos hbend
  have hback := Stamp.toInstant_ofInstant hbpos hbend hfull
  -- an occurrence that is not before the instant is not before the full second
  have hafter : ∀ w, v.Allows w →
      (a ≤ w.toInstant ↔ (Stamp.ofInstant b).count .second ≤ w.count .second) := by
    intro w hw
    have hsecond := (show v.Occurs _ from ⟨w, hw, rfl⟩).second.1
    rw [Stamp.count_le_iff hstart hw.calendar, hback]
    refine ⟨fun h => ?_, Int.le_trans hab⟩
    have h : a.micros ≤ w.toInstant.micros := h
    show b.micros ≤ w.toInstant.micros
    simp only [second] at hsecond hfull hnear
    omega
  have hsearch := Variant.search_spec hv (reached_year v hstart)
  have hend := Variant.search_lastSecond hv (reached_year v hstart)
  unfold Variant.nextFrom
  rw [hb]
  simp only [Except.mapError, ok_bind]
  cases hfound : v.search (Stamp.ofInstant b) .year with
  | ok u =>
    rw [hfound] at hsearch
    obtain ⟨hallows, hlater, hskips⟩ := hsearch
    refine ⟨_, rfl, ⟨u, hallows, rfl⟩, (hafter u hallows).mpr hlater, ?_⟩
    rintro t ⟨w, hw, rfl⟩ h
    exact (Stamp.count_le_iff hallows.calendar hw.calendar).mp (hskips w hw ((hafter w hw).mp h))
  | error e =>
    rw [hfound] at hsearch hend
    cases e with
    | exhausted =>
      refine ⟨_, rfl, ?_⟩
      rintro t ⟨w, hw, rfl⟩ h
      exact hsearch w hw ((hafter w hw).mp h)
    | lastSecond =>
      rw [Stamp.eq_last_iff hbpos hbend hfull] at hend
      have hb : b.micros = lastSecond.micros := congrArg Instant.micros (hend.mp rfl)
      omega

/-- In the last second of the calendar the search for an occurrence fails. -/
theorem Variant.nextFrom_lastSecond (hlate : lastSecond.micros - second < a.micros)
    (hlast : a ≤ lastSecond) :
    v.nextFrom a = .error .lastSecond := by
  have hpos : 0 ≤ a.micros := Int.le_trans (by decide) (Int.le_of_lt hlate)
  obtain ⟨b, hb, hab, hblast, hfull, _⟩ := fullSecond_spec hpos hlast
  have hb' : b = lastSecond := by
    have hab : a.micros ≤ b.micros := hab
    have hblast : b.micros ≤ lastSecond.micros := hblast
    obtain ⟨micros⟩ := b
    simp only [lastSecond, Instant.mk.injEq, calendarMicros, Calendar.day, Calendar.hour,
      Calendar.minute, second] at hlate hab hblast hfull ⊢
    omega
  subst hb'
  have hstart := Stamp.ofInstant_inCalendar (a := lastSecond) (by decide) (by decide)
  have hend := (Variant.search_lastSecond hv (reached_year v hstart)).mpr
    ((Stamp.eq_last_iff (by decide) (by decide) hfull).mpr rfl)
  unfold Variant.nextFrom
  rw [hb]
  simp only [Except.mapError, ok_bind, hend]
  rfl

end

theorem Variant.nextFrom_late (v : Variant) {a : Instant} (hlate : lastSecond < a)
    (hend : a.micros < calendarMicros) :
    v.nextFrom a = .error (.range .outOfRange) := by
  have hlate : calendarMicros - second < a.micros := hlate
  have hfull : fullSecond a = .error .outOfRange := by
    unfold fullSecond
    rw [if_neg, Instant.shift, if_neg]
    · rw [inCalendar_iff]
      simp only [calendarMicros, Calendar.day, Calendar.hour, Calendar.minute, second]
        at hlate hend ⊢
      omega
    · simp only [calendarMicros, Calendar.day, Calendar.hour, Calendar.minute, second]
        at hlate hend ⊢
      omega
  unfold Variant.nextFrom
  rw [hfull]
  rfl

/-! ### Schedules -/

/-- A schedule that can be read has a variant. -/
theorem Schedule.exists_variant {expression : String} {s : Schedule}
    (h : Schedule.parse expression = .ok s) :
    ∃ v, v ∈ s.variants := by
  obtain ⟨f, names, _, _, hvariants⟩ := Schedule.parse_ok h
  have hfields : ∃ g, g ∈ Fields.variants ⟨f.minute, f.hour, f.day, f.month, names⟩
      (isRestricted f.day && isRestricted f.weekday) := by
    unfold Fields.variants
    split_ifs
    · exact ⟨_, List.mem_cons_self⟩
    · exact ⟨_, List.mem_singleton_self _⟩
  obtain ⟨g, hg⟩ := hfields
  obtain ⟨v, hv, _⟩ := exists_of_mapM_eq_ok hvariants hg
  exact ⟨v, hv⟩

section

variable {expression : String} {s : Schedule} (hparse : Schedule.parse expression = .ok s)
  {a : Instant}

include hparse

/-- Within the calendar the search asks each variant from the next microsecond on. -/
theorem nextRunAfter_eq (hpos : 0 ≤ a.micros + 1) (hend : a.micros + 1 < calendarMicros) :
    nextRunAfter expression a = (s.variants.mapM (Variant.nextFrom · ⟨a.micros + 1⟩)) >>=
      fun times =>
      (times.filterMap id).min?.elim (.error (.never expression)) .ok := by
  unfold nextRunAfter
  rw [Instant.shift_eq hpos hend, hparse]
  simp only [mapError_ok, ok_bind]
  congr 1
  funext times
  cases (times.filterMap id).min? <;> rfl

/-- If no variant can be searched, for the same reason, neither can the schedule. -/
theorem nextRunAfter_error {fault : NextFault} (hpos : 0 ≤ a.micros + 1)
    (hend : a.micros + 1 < calendarMicros)
    (h : ∀ v ∈ s.variants, v.nextFrom ⟨a.micros + 1⟩ = .error fault) :
    nextRunAfter expression a = .error fault := by
  rw [nextRunAfter_eq hparse hpos hend]
  obtain ⟨v, hv⟩ := Schedule.exists_variant hparse
  cases htimes : s.variants.mapM (Variant.nextFrom · ⟨a.micros + 1⟩) with
  | error e =>
    obtain ⟨w, hw, hfault⟩ := exists_of_mapM_eq_error htimes
    exact congrArg Except.error (Except.error.inj (hfault.symm.trans (h w hw)))
  | ok times =>
    obtain ⟨o, _, ho⟩ := exists_of_mapM_eq_ok htimes hv
    rw [h v hv] at ho
    cases ho

/-- **The first occurrence after an instant is found, if there is one.** -/
theorem nextRunAfter_spec (hpos : 0 ≤ a.micros + 1)
    (hlast : a.micros < lastSecond.micros - second) :
    ∃ o, IsLeast? s.Occurs ⟨a.micros + 1⟩ o ∧
      nextRunAfter expression a = o.elim (.error (.never expression)) .ok := by
  -- what each variant finds
  let first := fun v : Variant => (v.nextFrom ⟨a.micros + 1⟩).toOption.join
  have hfirst : ∀ v ∈ s.variants, v.nextFrom ⟨a.micros + 1⟩ = .ok (first v) ∧
      IsLeast? v.Occurs ⟨a.micros + 1⟩ (first v) := by
    intro v hv
    obtain ⟨o, ho, hleast⟩ := Variant.nextFrom_spec (Schedule.parse_isStepped hparse v hv)
      (a := ⟨a.micros + 1⟩) hpos (by simp only; omega)
    rw [show first v = o by simp only [first, ho]; rfl]
    exact ⟨ho, hleast⟩
  have htimes : s.variants.mapM (Variant.nextFrom · ⟨a.micros + 1⟩) =
      .ok (s.variants.map first) := by
    rw [mapM_congr fun v hv => (hfirst v hv).1]
    exact List.mapM_pure
  refine ⟨(s.variants.filterMap first).min?, ?_, ?_⟩
  · have hleast := isLeast_min? fun v hv => (hfirst v hv).2
    simpa only [← Schedule.occurs_iff_variant] using hleast
  · rw [nextRunAfter_eq hparse hpos (by simp only [lastSecond, second] at hlast; omega),
      htimes, ok_bind, List.filterMap_map]
    rfl

/-- In the last second of the calendar the search for an occurrence fails. -/
theorem nextRunAfter_lastSecond (hlate : lastSecond.micros - second ≤ a.micros)
    (hlast : a < lastSecond) :
    nextRunAfter expression a = .error .lastSecond := by
  have hlast : a.micros < lastSecond.micros := hlast
  have hbound : second < lastSecond.micros ∧ lastSecond.micros < calendarMicros := by decide
  refine nextRunAfter_error hparse (by omega) (by omega) fun v hv => ?_
  refine Variant.nextFrom_lastSecond (Schedule.parse_isStepped hparse v hv) (by simp only; omega) ?_
  show a.micros + 1 ≤ lastSecond.micros
  omega

/-- Later than that there is no full second. -/
theorem nextRunAfter_late (hlate : lastSecond ≤ a) :
    nextRunAfter expression a = .error (.range .outOfRange) := by
  have hlate : lastSecond.micros ≤ a.micros := hlate
  have hbound : 0 ≤ lastSecond.micros := by decide
  by_cases hend : a.micros + 1 < calendarMicros
  · refine nextRunAfter_error hparse (by omega) hend fun v _ => Variant.nextFrom_late v ?_ hend
    show lastSecond.micros < a.micros + 1
    omega
  · unfold nextRunAfter
    rw [Instant.shift, if_neg fun h => hend (inCalendar_iff.mp h).2]
    rfl

end

/-- What is found is the first occurrence of the schedule. -/
theorem nextRunAfter_ok {expression : String} {a t : Instant}
    (h : nextRunAfter expression a = .ok t) :
    ∃ s, Schedule.parse expression = .ok s ∧ s.Occurs t ∧ a < t := by
  have hstart : 0 ≤ a.micros + 1 := by
    by_contra hneg
    unfold nextRunAfter at h
    rw [Instant.shift, if_neg fun h => hneg (inCalendar_iff.mp h).1] at h
    cases h
  cases hparse : Schedule.parse expression with
  | error e =>
    unfold nextRunAfter at h
    rw [hparse] at h
    obtain ⟨_, _, h⟩ := bind_eq_ok.mp h
    cases h
  | ok s =>
    by_cases hlast : a.micros < lastSecond.micros - second
    · obtain ⟨o, hleast, hnext⟩ := nextRunAfter_spec hparse hstart hlast
      cases o with
      | none => rw [hnext] at h; cases h
      | some u =>
        rw [hnext] at h
        obtain rfl := Except.ok.inj h
        exact ⟨s, rfl, hleast.1, hleast.2.1⟩
    · by_cases hlate : a < lastSecond
      · rw [nextRunAfter_lastSecond hparse (by omega) hlate] at h
        cases h
      · rw [nextRunAfter_late hparse (Int.not_lt.mp hlate)] at h
        cases h

/-- **The search finds an occurrence after the instant that it starts from.** -/
theorem nextRunAfter_occurs {expression : String} {a t : Instant}
    (h : nextRunAfter expression a = .ok t) : Occurs expression t ∧ a < t := by
  obtain ⟨s, hparse, hoccurs, hlt⟩ := nextRunAfter_ok h
  exact ⟨⟨s, hparse, hoccurs⟩, hlt⟩

/-! ### Verdicts -/

/-- **A due schedule has an occurrence after the end of the last run that is not after now.** -/
theorem isDue_occurs {expression : String} {last : Option Moment} {now : Instant} {v : Verdict}
    (h : isDue expression last now = .ok v) (hdue : v.due = true) :
    ∃ a t, reference last now = .ok a ∧ Occurs expression t ∧ a < t ∧ t ≤ now := by
  unfold isDue at h
  cases hreference : reference last now with
  | error e => rw [hreference] at h; cases h
  | ok a =>
    rw [hreference] at h
    simp only [bind, Except.bind] at h
    cases hnext : nextRunAfter expression a with
    | error f =>
      rw [hnext] at h
      obtain rfl := Except.ok.inj h
      cases hdue
    | ok t =>
      rw [hnext] at h
      obtain rfl := Except.ok.inj h
      obtain ⟨hoccurs, hlt⟩ := nextRunAfter_occurs hnext
      exact ⟨a, t, rfl, hoccurs, hlt, of_decide_eq_true hdue⟩

end Cadence.Cron
