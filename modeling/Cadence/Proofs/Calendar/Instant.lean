/-
Universal time.

* `Moment.utc` — the universal time at which a clock shows a moment, in the calendar or not;
* `Moment.toInstant_eq` — a moment has this instant, unless it lies outside the calendar;
* `Instant.shift_eq` — so has an instant that is moved.
-/
import Mathlib.Tactic.Common
import Cadence.Calendar.Moment

namespace Cadence.Calendar

instance : Std.IsLinearOrder Instant :=
  .of_le ⟨fun _ _ h h' => congrArg Instant.mk (Int.le_antisymm h h')⟩
    ⟨fun h h' => Int.le_trans h h'⟩
    ⟨fun a b => Int.le_total a.micros b.micros⟩

theorem inCalendar_iff {micros : Int} :
    inCalendar micros = true ↔ 0 ≤ micros ∧ micros < calendarMicros := by
  rw [inCalendar, Bool.and_eq_true, decide_eq_true_eq, decide_eq_true_eq]

/-- The universal time of a moment. A clock of unknown distance shows universal time. -/
def Moment.utc (m : Moment) : Instant := ⟨m.wall - m.offset.getD 0⟩

/-- A moment of the calendar has its universal time as its instant, if that is in the
calendar too. -/
theorem Moment.toInstant_eq {m : Moment} (h : inCalendar m.wall = true) :
    m.toInstant = if inCalendar m.utc.micros then .ok m.utc else .error .outOfRange := by
  obtain ⟨wall, offset⟩ := m
  cases offset with
  | none =>
    have hutc : (⟨wall, none⟩ : Moment).utc = ⟨wall⟩ := congrArg Instant.mk (Int.sub_zero wall)
    rw [hutc, if_pos h]
    rfl
  | some offset => rfl

theorem Instant.utc_toMoment (t : Instant) : t.toMoment.utc = t :=
  congrArg Instant.mk (Int.sub_zero t.micros)

theorem Instant.toMoment_toInstant {t : Instant} (h : inCalendar t.micros = true) :
    t.toMoment.toInstant = .ok t := by
  rw [Moment.toInstant_eq (m := t.toMoment) h, t.utc_toMoment, if_pos h]

theorem Instant.lt_of_le_of_ne {t u : Instant} (h : t ≤ u) (hne : t ≠ u) : t < u :=
  Int.lt_iff_le_and_ne.mpr ⟨h, fun heq => hne (congrArg Instant.mk heq)⟩

theorem Instant.shift_eq {t : Instant} {micros : Int} (h0 : 0 ≤ t.micros + micros)
    (h : t.micros + micros < calendarMicros) : t.shift micros = .ok ⟨t.micros + micros⟩ :=
  if_pos (inCalendar_iff.mpr ⟨h0, h⟩)

theorem Instant.after_zero (t : Instant) : t.after 0 = t :=
  congrArg Instant.mk (Int.add_zero t.micros)

theorem Instant.after_after (t : Instant) (m n : Int) : (t.after m).after n = t.after (m + n) :=
  congrArg Instant.mk (Int.add_assoc _ _ _)

theorem Instant.le_after (t : Instant) (n : Nat) : t ≤ t.after n :=
  Int.le_add_of_nonneg_right (Int.natCast_nonneg n)

theorem Instant.after_lt_after_iff {t : Instant} {m n : Nat} : t.after m < t.after n ↔ m < n :=
  Int.add_lt_add_iff_left _ |>.trans Int.ofNat_lt

end Cadence.Calendar
