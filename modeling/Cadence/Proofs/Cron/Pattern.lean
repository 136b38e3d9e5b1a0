/-
What a cron expression says.

A pattern gives the values that each field of an expression allows, as arithmetic
progressions between the bounds of the field, and says how its two day fields go together.

* `Item.Has` — the values of an item, the field running from a least to a greatest value;
* `Pattern.Reads` — the pattern of an expression, field by field;
* `Pattern.Occurs` — a pattern occurs at the beginning of each minute whose date and time it allows;
* `Schedule.parse_pattern` — every expression that can be read has a pattern, and its
  schedule occurs just where the pattern does.

A schedule keeps an expression with two restricted day fields as two variants, each with one of the
fields open; the pattern joins the two fields by "or" instead.
-/
import Mathlib.Tactic.Common
import Mathlib.Tactic.SplitIfs
import Cadence.Proofs.Cron.Occurrence

namespace Cadence.Cron

open Cadence.Calendar

/-! ### Values of items -/

/-- The values of an item: steps counted from the least value of the field, or from the
first value of the item if that is greater. -/
def Item.Has (low high value : Nat) : Item → Prop
  | .every step => ∃ k, value = low + k * step.getD 1 ∧ value ≤ high
  | .range first last step =>
    ∃ k, value = max low first + k * step.getD 1 ∧ value ≤ high ∧ value ≤ last.getD high
  | .lastDay => value = high

theorem onStep_iff {start value : Nat} (h : start ≤ value) (step : Option Nat) :
    onStep start value step = true ↔ ∃ k, value = start + k * step.getD 1 := by
  cases step with
  | none =>
    refine iff_of_true rfl ⟨value - start, ?_⟩
    show value = start + (value - start) * 1
    omega
  | some n =>
    rw [onStep, beq_iff_eq, ← Nat.dvd_iff_mod_eq_zero]
    show n ∣ value - start ↔ ∃ k, value = start + k * n
    constructor
    · rintro ⟨k, hk⟩
      exact ⟨k, by rw [Nat.mul_comm k n]; omega⟩
    · rintro ⟨k, hk⟩
      exact ⟨k, by rw [Nat.mul_comm n k]; omega⟩

theorem Item.allows_iff {low high value : Nat} {item : Item} :
    item.allows low high value = true ↔ item.Has low high value := by
  cases item with
  | every step =>
    simp only [Item.allows, Item.Has, Bool.and_eq_true, decide_eq_true_eq]
    constructor
    · rintro ⟨⟨hlow, hhigh⟩, hstep⟩
      obtain ⟨k, hk⟩ := (onStep_iff hlow step).mp hstep
      exact ⟨k, hk, hhigh⟩
    · rintro ⟨k, hk, hhigh⟩
      have hlow : low ≤ value := by omega
      exact ⟨⟨hlow, hhigh⟩, (onStep_iff hlow step).mpr ⟨k, hk⟩⟩
  | range first last step =>
    simp only [Item.allows, Item.Has, Bool.and_eq_true, decide_eq_true_eq, Nat.le_min]
    constructor
    · rintro ⟨⟨hfirst, hhigh⟩, hstep⟩
      obtain ⟨k, hk⟩ := (onStep_iff hfirst step).mp hstep
      exact ⟨k, hk, hhigh⟩
    · rintro ⟨k, hk, hhigh⟩
      have hfirst : max low first ≤ value := by omega
      exact ⟨⟨hfirst, hhigh⟩, (onStep_iff hfirst step).mpr ⟨k, hk⟩⟩
  | lastDay => exact beq_iff_eq

theorem anyAllows_iff {low high value : Nat} {items : List Item} :
    anyAllows low high value items = true ↔ ∃ item ∈ items, item.Has low high value := by
  simp only [anyAllows, List.any_eq_true, Item.allows_iff]

/-- An open field has all its values. -/
theorem open_has {low high value : Nat} (hlow : low ≤ value) (hhigh : value ≤ high) :
    ∃ item ∈ [Item.every none], item.Has low high value := by
  refine ⟨.every none, List.mem_singleton_self _, value - low, ?_, hhigh⟩
  show value = low + (value - low) * 1
  omega

/-! ### Patterns -/

/-- The items of the five fields, and whether a day may match either of its two fields. -/
structure Pattern where
  minute : List Item
  hour : List Item
  day : List Item
  month : List Item
  weekday : List Item
  eitherDay : Bool

/-- A field that begins with `*` or `?`. -/
def StartsOpen (field : String) : Prop :=
  ∃ rest, field.toList = '*' :: rest ∨ field.toList = '?' :: rest

namespace Pattern

/-- The day of a date matches the day of the month, which runs to the end of that month. -/
def DayOfMonth (p : Pattern) (d : Date) : Prop :=
  ∃ item ∈ p.day, item.Has 1 (daysInMonth d.year d.month) d.day

/-- The day of a date matches the day of the week, Monday being 0. -/
def DayOfWeek (p : Pattern) (d : Date) : Prop :=
  ∃ item ∈ p.weekday, item.Has 0 6 (Calendar.weekday (Calendar.dayNumber d))

/-- A date and a time of day that match the pattern. -/
structure Allows (p : Pattern) (d : Date) (hour minute : Nat) : Prop where
  minute : ∃ item ∈ p.minute, item.Has 0 59 minute
  hour : ∃ item ∈ p.hour, item.Has 0 23 hour
  month : ∃ item ∈ p.month, item.Has 1 12 d.month
  either : p.eitherDay = true → p.DayOfMonth d ∨ p.DayOfWeek d
  both : p.eitherDay = false → p.DayOfMonth d ∧ p.DayOfWeek d

/-- An instant that begins a minute that matches the pattern, from 1970 to the end of the
calendar. -/
def Occurs (p : Pattern) (t : Instant) : Prop :=
  ∃ d : Date, d.InCalendar ∧ firstYear ≤ d.year ∧
    ∃ hour < 24, ∃ minute < 60, p.Allows d hour minute ∧
    t.micros = Calendar.dayNumber d * Calendar.day + hour * Calendar.hour + minute * Calendar.minute

/-- The pattern of five fields. Weekdays are counted as in crontab, and a day may match
either field if both leave some days out. -/
structure Of (p : Pattern) (f : Fields) : Prop where
  minute : Field.minute.parse f.minute = .ok p.minute
  hour : Field.hour.parse f.hour = .ok p.hour
  day : Field.day.parse f.day = .ok p.day
  month : Field.month.parse f.month = .ok p.month
  weekday : (translateWeekdays f.weekday >>= Field.weekday.parse) = .ok p.weekday
  eitherDay : p.eitherDay = true ↔ ¬ StartsOpen f.day ∧ ¬ StartsOpen f.weekday

/-- The pattern of an expression. -/
def Reads (p : Pattern) (expression : String) : Prop :=
  ∃ f, Fields.split expression = .ok f ∧ p.Of f

end Pattern

theorem isRestricted_iff {field : String} : isRestricted field = true ↔ ¬ StartsOpen field := by
  unfold isRestricted StartsOpen
  cases field.toList with
  | nil => simp
  | cons c rest => simp [exists_or, not_or]

/-- A day may match either field if it matches one of them with the other left open. -/
theorem Pattern.allows_either {minutes hours days months weekdays : List Item} {d : Date}
    {hour minute : Nat} (h : d.InCalendar) :
    (⟨minutes, hours, days, months, weekdays, true⟩ : Pattern).Allows d hour minute ↔
      (⟨minutes, hours, days, months, [.every none], false⟩ : Pattern).Allows d hour minute ∨
      (⟨minutes, hours, [.every none], months, weekdays, false⟩ : Pattern).Allows d
        hour minute := by
  have hday := open_has h.day_pos h.day_le
  have hweekday := open_has (Nat.zero_le (Calendar.weekday (Calendar.dayNumber d)))
    (show Calendar.weekday (Calendar.dayNumber d) ≤ 6 by unfold Calendar.weekday; omega)
  constructor
  · intro hallows
    rcases hallows.either rfl with hmatch | hmatch
    · exact Or.inl ⟨hallows.minute, hallows.hour, hallows.month,
        fun h => (Bool.false_ne_true h).elim, fun _ => ⟨hmatch, hweekday⟩⟩
    · exact Or.inr ⟨hallows.minute, hallows.hour, hallows.month,
        fun h => (Bool.false_ne_true h).elim, fun _ => ⟨hday, hmatch⟩⟩
  · rintro (hallows | hallows)
    · exact ⟨hallows.minute, hallows.hour, hallows.month, fun _ => Or.inl (hallows.both rfl).1,
        fun h => (Bool.false_ne_true h.symm).elim⟩
    · exact ⟨hallows.minute, hallows.hour, hallows.month, fun _ => Or.inr (hallows.both rfl).2,
        fun h => (Bool.false_ne_true h.symm).elim⟩

/-! ### Schedules -/

/-- A variant joins its two day fields by "and". -/
theorem Variant.allows_iff {v : Variant} {d : Date} {hour minute : Nat} :
    (v.allowsDate d && v.allowsTime hour minute) = true ↔
      (⟨v.minute, v.hour, v.day, v.month, v.weekday, false⟩ : Pattern).Allows d hour minute := by
  simp only [Variant.allowsDate, Variant.allowsTime, Bool.and_eq_true, anyAllows_iff]
  constructor
  · rintro ⟨⟨⟨hmonth, hday⟩, hweekday⟩, hhour, hminute⟩
    exact ⟨hminute, hhour, hmonth, fun h => (Bool.false_ne_true h).elim, fun _ => ⟨hday, hweekday⟩⟩
  · intro h
    exact ⟨⟨⟨h.month, (h.both rfl).1⟩, (h.both rfl).2⟩, h.hour, h.minute⟩

theorem Field.parse_day_open : Field.day.parse "*" = .ok [.every none] := by decide +kernel
theorem Field.parse_weekday_open : Field.weekday.parse "*" = .ok [.every none] := by decide +kernel

section

variable {α β ε : Type} {f : α → Except ε β} {a b : α} {ys : List β}

theorem mapM_one (h : [a].mapM f = .ok ys) : ∃ y, f a = .ok y ∧ ys = [y] := by
  cases hy : f a with
  | error e => simp [hy, bind, Except.bind] at h
  | ok y => exact ⟨y, rfl, by simpa [hy, bind, Except.bind, pure, Except.pure] using h.symm⟩

theorem mapM_two (h : [a, b].mapM f = .ok ys) : ∃ y z, f a = .ok y ∧ f b = .ok z ∧ ys = [y, z] := by
  cases hy : f a with
  | error e => simp [hy, bind, Except.bind] at h
  | ok y =>
    cases hz : f b with
    | error e => simp [hy, hz, bind, Except.bind] at h
    | ok z =>
      exact ⟨y, z, rfl, rfl, by simpa [hy, hz, bind, Except.bind, pure, Except.pure]
        using h.symm⟩

end

/-- A schedule that allows the minutes that a pattern allows occurs where the pattern does. -/
theorem Schedule.occurs_iff {s : Schedule} {p : Pattern}
    (h : ∀ d : Date, d.InCalendar →
      ∀ hour minute, (∃ v ∈ s.variants, (v.allowsDate d && v.allowsTime hour minute) = true) ↔
      p.Allows d hour minute)
    (t : Instant) : s.Occurs t ↔ p.Occurs t := by
  unfold Schedule.Occurs Schedule.occursAt Pattern.Occurs
  simp only [List.any_eq_true]
  constructor
  · rintro ⟨d, hd, hyear, m, hm, hallows, rfl⟩
    unfold minutesOfDay at hm
    refine ⟨d, hd, hyear, m / 60, by omega, m % 60, by omega, (h d hd _ _).mp hallows, ?_⟩
    simp only [minutesOfDay, Calendar.day, Calendar.hour, Calendar.minute, second]
    omega
  · rintro ⟨d, hd, hyear, hour, hhour, minute, hminute, hallows, ht⟩
    have hdiv : (hour * 60 + minute) / 60 = hour := by omega
    have hmod : (hour * 60 + minute) % 60 = minute := by omega
    refine ⟨d, hd, hyear, hour * 60 + minute, by unfold minutesOfDay; omega, ?_, ?_⟩
    · rw [hdiv, hmod]
      exact (h d hd _ _).mpr hallows
    · obtain ⟨micros⟩ := t
      rw [Instant.mk.injEq]
      simp only [minutesOfDay, Calendar.day, Calendar.hour, Calendar.minute, second] at ht ⊢
      omega

/-- **Every expression that can be read has a pattern, and its schedule occurs just where
the pattern does.** -/
theorem Schedule.parse_pattern {expression : String} {s : Schedule}
    (h : Schedule.parse expression = .ok s) :
    ∃ p : Pattern, p.Reads expression ∧ ∀ t, s.Occurs t ↔ p.Occurs t := by
  obtain ⟨f, names, hsplit, hnames, hvariants⟩ := Schedule.parse_ok h
  have hopen : (isRestricted f.day && isRestricted f.weekday) = true ↔
      ¬ StartsOpen f.day ∧ ¬ StartsOpen f.weekday := by
    rw [Bool.and_eq_true, isRestricted_iff, isRestricted_iff]
  cases heither : isRestricted f.day && isRestricted f.weekday with
  | false =>
    obtain ⟨v, hv, hs⟩ := mapM_one (heither ▸ hvariants)
    obtain ⟨hmonth, hday, hweekday, hhour, hminute⟩ := Fields.variant_ok hv
    refine ⟨⟨v.minute, v.hour, v.day, v.month, v.weekday, false⟩,
      ⟨f, hsplit, hminute, hhour, hday, hmonth,
      by rw [hnames]; exact hweekday, by rw [← hopen, heither]⟩,
      Schedule.occurs_iff fun d _ hour minute => ?_⟩
    rw [hs, ← Variant.allows_iff]
    simp
  | true =>
    -- one variant has the weekdays open, the other the days of the month
    obtain ⟨v, w, hv, hw, hs⟩ := mapM_two (heither ▸ hvariants)
    obtain ⟨hmonth, hday, hopenWeekday, hhour, hminute⟩ := Fields.variant_ok hv
    obtain ⟨hmonth', hopenDay, hweekday, hhour', hminute'⟩ := Fields.variant_ok hw
    have hv' : v.weekday = [.every none] :=
      Except.ok.inj (hopenWeekday.symm.trans Field.parse_weekday_open)
    have hw' : w.day = [.every none] := Except.ok.inj (hopenDay.symm.trans Field.parse_day_open)
    have hsame : w.minute = v.minute ∧ w.hour = v.hour ∧ w.month = v.month :=
      ⟨Except.ok.inj (hminute'.symm.trans hminute), Except.ok.inj (hhour'.symm.trans hhour),
        Except.ok.inj (hmonth'.symm.trans hmonth)⟩
    refine ⟨⟨v.minute, v.hour, v.day, v.month, w.weekday, true⟩,
      ⟨f, hsplit, hminute, hhour, hday, hmonth,
      by rw [hnames]; exact hweekday, by rw [← hopen, heither]⟩,
      Schedule.occurs_iff fun d hd hour minute => ?_⟩
    rw [hs, Pattern.allows_either hd]
    simp only [List.mem_cons, List.not_mem_nil, or_false, exists_eq_or_imp, exists_eq_left,
      Variant.allows_iff, hv', hw', hsame]

end Cadence.Cron
