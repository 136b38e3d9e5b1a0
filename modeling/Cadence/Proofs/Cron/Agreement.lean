/-
Expressions that come to the same.

Two expressions agree if they have the same next occurrences, or the same faults, and make a
flow due at the same times.  The text that a fault quotes is left out of account, as it is
that of the expression itself.

* `Agree` — two expressions agree;
* `Schedule.Alike` — two schedules allow the same minutes; their searches then have the same result
  (`Schedule.Alike.nextRunAfter_eq`);
* `ReadAlike.agree` — expressions that are read as schedules that are alike agree, and so do
  expressions that are refused for the same fault;
* `NeverDue` — an expression that makes no flow due at any time, as it cannot be read;
* `Schedule.parse_of_weekdays` — how the schedule of an expression depends on its weekdays;
* `ReadAlike.of_allows`, `ReadAlike.of_translateWeekdays` — expressions of which only the
  weekdays differ are read alike if these allow the same days, or are translated alike.
-/
import Mathlib.Tactic.Common
import Cadence.Proofs.Cron.Verdict
import Cadence.Proofs.Validation.Checked

namespace Cadence.Cron

open Cadence.Text Cadence.Calendar

/-! ### Agreement -/

/-- A fault of a weekday field without the part of the field that it quotes. -/
def Fault.unquoted : Fault → Fault
  | .weekdayStep _ => .weekdayStep ""
  | fault => fault

/-- Why there is no next occurrence, without the text that is quoted. -/
def NextFault.unquoted : NextFault → NextFault
  | .cron fault => .cron fault.unquoted
  | .never _ => .never ""
  | fault => fault

/-- Two expressions that have the same next occurrences and make a flow due at the same times. -/
structure Agree (a b : String) : Prop where
  next : ∀ reference, (nextRun a reference).mapError NextFault.unquoted =
    (nextRun b reference).mapError NextFault.unquoted
  due : ∀ last now, (isDueAt a last now).map Verdict.due = (isDueAt b last now).map Verdict.due

/-- An expression that makes no flow due at any time, with a fault for a warning. -/
def NeverDue (expression : String) : Prop :=
  ∀ now : Moment, inCalendar now.utc.micros = true →
    (∀ last : Moment, inCalendar last.utc.micros = true →
      ∃ fault, isDueAt expression (some last) now = .ok ⟨false, some fault⟩) ∧
    (lookback ≤ now.utc.micros → ∃ fault, isDueAt expression none now = .ok ⟨false, some fault⟩)

theorem neverDue_of_parse {expression : String} {fault : Fault}
    (h : Schedule.parse expression = .error fault) :
    NeverDue expression := fun _ hnow => isDueAt_unreadable h hnow

section

variable {a b : String}

/-- What the verdict comes to without its fault. -/
theorem isDue_due (expression : String) (last : Option Moment) (now : Instant) :
    (isDue expression last now).map Verdict.due = (reference last now).map fun t =>
      ((nextRunAfter expression t).toOption.map fun next => decide (next ≤ now)).getD false := by
  unfold isDue
  cases reference last now with
  | error e => rfl
  | ok t =>
    show _ = Except.ok
      (((nextRunAfter expression t).toOption.map fun next => decide (next ≤ now)).getD
      false)
    rw [ok_bind]
    cases nextRunAfter expression t <;> rfl

/-- Expressions whose searches have the same results agree. -/
theorem Agree.of_nextRunAfter
    (h : ∀ t, (nextRunAfter a t).mapError NextFault.unquoted =
      (nextRunAfter b t).mapError NextFault.unquoted) :
    Agree a b where
  next reference := by
    simp only [nextRun, mapError_bind, h]
  due last now := by
    have hfound : ∀ t, (nextRunAfter a t).toOption = (nextRunAfter b t).toOption := fun t => by
      rw [← toOption_mapError NextFault.unquoted, h t, toOption_mapError]
    unfold isDueAt
    cases now.toInstant with
    | error e => rfl
    | ok t =>
      simp only [ok_bind, isDue_due, hfound]

/-! ### Schedules that are alike -/

/-- Two schedules that allow the same minutes. -/
def Schedule.Alike (s t : Schedule) : Prop := ∀ d m, s.occursAt d m = t.occursAt d m

theorem Schedule.Alike.refl (s : Schedule) : s.Alike s := fun _ _ => rfl

theorem Schedule.Alike.occurs_eq {s t : Schedule} (h : s.Alike t) : s.Occurs = t.Occurs := by
  unfold Occurs
  simp only [h _ _]

/-- There is one first value at most. -/
theorem IsLeast?.unique {P : Instant → Prop} {start : Instant} {o o' : Option Instant}
    (h : IsLeast? P start o) (h' : IsLeast? P start o') : o = o' := by
  cases o with
  | none =>
    cases o' with
    | none => rfl
    | some t => exact absurd h'.2.1 (h t h'.1)
  | some t =>
    cases o' with
    | none => exact absurd h.2.1 (h' t h.1)
    | some u =>
      have heq : t.micros = u.micros := Int.le_antisymm (h.2.2 u h'.1 h'.2.1) (h'.2.2 t h.1 h.2.1)
      exact congrArg (some ∘ Instant.mk) heq

/-- The searches through schedules that are alike find the same. -/
theorem Schedule.Alike.nextRunAfter_eq {s t : Schedule} (h : s.Alike t)
    (ha : Schedule.parse a = .ok s) (hb : Schedule.parse b = .ok t) (start : Instant) :
    (nextRunAfter a start).mapError NextFault.unquoted =
      (nextRunAfter b start).mapError NextFault.unquoted := by
  by_cases hpos : 0 ≤ start.micros + 1
  · rcases Int.lt_or_le start.micros (lastSecond.micros - second) with hearly | hlate
    · obtain ⟨o, hleast, hnext⟩ := nextRunAfter_spec ha hpos hearly
      obtain ⟨o', hleast', hnext'⟩ := nextRunAfter_spec hb hpos hearly
      rw [← h.occurs_eq] at hleast'
      obtain rfl := hleast.unique hleast'
      rw [hnext, hnext']
      cases o <;> rfl
    · by_cases hlast : start < lastSecond
      · rw [nextRunAfter_lastSecond ha hlate hlast, nextRunAfter_lastSecond hb hlate hlast]
      · rw [nextRunAfter_late ha (Int.not_lt.mp hlast), nextRunAfter_late hb (Int.not_lt.mp hlast)]
  · have hshift : start.shift 1 = .error .outOfRange := if_neg fun h => hpos (inCalendar_iff.mp h).1
    unfold nextRunAfter
    rw [hshift]
    rfl

/-- Both expressions are refused for the same fault, or are read as schedules that are alike. -/
inductive ReadAlike (a b : String) : Prop where
  | refused {f g : Fault} (left : Schedule.parse a = .error f) (right : Schedule.parse b = .error g)
    (same : f.unquoted = g.unquoted)
  | read {s t : Schedule} (left : Schedule.parse a = .ok s)
    (right : Schedule.parse b = .ok t) (same : s.Alike t)

/-- **Expressions that are read alike agree.** -/
theorem ReadAlike.agree (h : ReadAlike a b) : Agree a b := by
  refine .of_nextRunAfter fun t => ?_
  cases h with
  | read hleft hright hsame => exact hsame.nextRunAfter_eq hleft hright t
  | refused hleft hright hsame =>
    unfold nextRunAfter
    cases t.shift 1 with
    | error e => rfl
    | ok _ => simp [hleft, hright, NextFault.unquoted, hsame]

/-- An expression that can be read does not agree with one that cannot. -/
theorem not_agree {s : Schedule} {fault : Fault} (ha : Schedule.parse a = .ok s)
    (hb : Schedule.parse b = .error fault) :
    ¬ Agree a b := by
  intro h
  have hstart := h.next ⟨0, none⟩
  have hrefused : nextRun b ⟨0, none⟩ = .error (.cron fault) := by
    show nextRunAfter b ⟨0⟩ = _
    rw [nextRunAfter, hb]
    rfl
  have hread : ∃ o, nextRun a ⟨0, none⟩ = Option.elim o (.error (.never a)) .ok := by
    obtain ⟨o, _, hnext⟩ := nextRunAfter_spec ha (a := ⟨0⟩) (by decide) (by decide)
    exact ⟨o, hnext⟩
  obtain ⟨o, hread⟩ := hread
  rw [hrefused, hread] at hstart
  cases o <;> simp [NextFault.unquoted] at hstart

end

/-! ### Schedules by their weekdays -/

/-- An expression of five fields, of which the weekdays leave some days out on purpose. -/
structure Fields.WithWeekdays (f : Fields) (field expression : String) : Prop where
  split : Fields.split expression = .ok { f with weekday := field }
  restricted : isRestricted field = true

/-- The schedule of five fields with these items for its weekdays, which are restricted. -/
def Fields.scheduleWith (f : Fields) (weekdays : List Item) : Except Fault Schedule := do
  let v ← Fields.variant { f with weekday := "*" }
  if isRestricted f.day then
    let w ← Fields.variant { f with day := "*", weekday := "*" }
    pure ⟨[v, { w with weekday := weekdays }]⟩
  else
    pure ⟨[{ v with weekday := weekdays }]⟩

section

variable {f : Fields} {expression field names : String} {weekdays : List Item}

/-- The weekdays of a variant are read apart from its other fields. -/
theorem Fields.variant_of_weekdays (h : Field.weekday.parse names = .ok weekdays) :
    Fields.variant { f with weekday := names } = (do
      let v ← Fields.variant { f with weekday := "*" }
      pure { v with weekday := weekdays }) := by
  simp only [Fields.variant, h, Field.parse_weekday_open, ok_bind, bind_assoc, pure_bind]

/-- The schedule of an expression, by the items of its weekdays. -/
theorem Schedule.parse_of_weekdays (hexpression : f.WithWeekdays field expression)
    (h : (translateWeekdays field >>= Field.weekday.parse) = .ok weekdays) :
    Schedule.parse expression = f.scheduleWith weekdays := by
  obtain ⟨names, hnames, hweekdays⟩ := bind_eq_ok.mp h
  rw [Schedule.parse, hexpression.split, ok_bind, hnames, ok_bind, hexpression.restricted,
    Bool.and_true, Fields.scheduleWith]
  cases isRestricted f.day with
  | false => simp [Fields.variants, Fields.variant_of_weekdays hweekdays]
  | true =>
    have hopen : Fields.variant { f with day := "*", weekday := names } = _ :=
      Fields.variant_of_weekdays (f := { f with day := "*" }) hweekdays
    simp [Fields.variants, hopen]

/-- An expression whose weekday field cannot be translated cannot be read itself. -/
theorem Schedule.parse_of_translateWeekdays {fault : Fault}
    (hsplit : Fields.split expression = .ok f)
    (h : translateWeekdays f.weekday = .error fault) :
    Schedule.parse expression = .error fault := by
  rw [Schedule.parse, hsplit, ok_bind, h]
  rfl

/-- A variant of fields that can be read is refused for its weekdays alone. -/
theorem Fields.variant_of_weekday_error {v : Variant} {fault : Fault}
    (hv : Fields.variant { f with weekday := field } = .ok v)
    (h : Field.weekday.parse names = .error fault) :
    Fields.variant { f with weekday := names } = .error fault := by
  obtain ⟨hmonth, hday, _⟩ := Fields.variant_ok hv
  simp [Fields.variant, hmonth, hday, h]

/-- An expression of which all but the weekdays can be read is refused for these. -/
theorem Schedule.parse_of_weekday_error {s : Schedule} {fault : Fault}
    (hs : f.scheduleWith weekdays = .ok s) (hexpression : f.WithWeekdays field expression)
    (h : (translateWeekdays field >>= Field.weekday.parse) = .error fault) :
    Schedule.parse expression = .error fault := by
  obtain ⟨v, hv, hs⟩ := bind_eq_ok.mp hs
  cases hnames : translateWeekdays field with
  | error e =>
    rw [hnames] at h
    cases h
    exact Schedule.parse_of_translateWeekdays hexpression.split hnames
  | ok names =>
    rw [hnames, ok_bind] at h
    rw [Schedule.parse, hexpression.split, ok_bind, hnames, ok_bind, hexpression.restricted,
      Bool.and_true]
    cases hday : isRestricted f.day with
    | false => simp [Fields.variants, Fields.variant_of_weekday_error hv h]
    | true =>
      rw [hday, if_pos rfl] at hs
      obtain ⟨w, hw, _⟩ := bind_eq_ok.mp hs
      have hopen : Fields.variant { f with day := "*", weekday := names } = .error fault :=
        Fields.variant_of_weekday_error (f := { f with day := "*" }) hw h
      simp [Fields.variants, hv, hopen]

/-- A variant allows the same dates with weekdays that allow the same days. -/
theorem Variant.allowsDate_congr (v : Variant) {others : List Item}
    (h : ∀ i < 7, anyAllows 0 6 i weekdays = anyAllows 0 6 i others) (d : Date) :
    { v with weekday := weekdays }.allowsDate d = { v with weekday := others }.allowsDate d := by
  simp only [Variant.allowsDate,
    h _ (show Calendar.weekday (dayNumber d) < 7 from Nat.mod_lt _ (by decide))]

/-- Schedules are alike if only the weekdays of their last variant differ, and allow the
same days. -/
theorem Schedule.alike_of_allows (before : List Variant) (v : Variant) {others : List Item}
    (h : ∀ i < 7, anyAllows 0 6 i weekdays = anyAllows 0 6 i others) :
    (⟨before ++ [{ v with weekday := weekdays }]⟩ : Schedule).Alike
      ⟨before ++ [{ v with weekday := others }]⟩ := by
  intro d m
  simp only [Schedule.occursAt, List.any_append, List.any_cons, Variant.allowsDate_congr v h]
  rfl

/-- **Fields with weekdays that allow the same days are read alike.** -/
theorem Fields.scheduleWith_alike (f : Fields) {others : List Item}
    (h : ∀ i < 7, anyAllows 0 6 i weekdays = anyAllows 0 6 i others) :
    (∃ fault, f.scheduleWith weekdays = .error fault ∧ f.scheduleWith others = .error fault) ∨
      ∃ s t, f.scheduleWith weekdays = .ok s ∧ f.scheduleWith others = .ok t ∧ s.Alike t := by
  unfold Fields.scheduleWith
  cases Fields.variant { f with weekday := "*" } with
  | error fault => exact Or.inl ⟨fault, rfl, rfl⟩
  | ok v =>
    simp only [ok_bind]
    split
    · cases Fields.variant { f with day := "*", weekday := "*" } with
      | error fault => exact Or.inl ⟨fault, rfl, rfl⟩
      | ok w => exact Or.inr ⟨_, _, rfl, rfl, Schedule.alike_of_allows [v] w h⟩
    · exact Or.inr ⟨_, _, rfl, rfl, Schedule.alike_of_allows [] v h⟩

/-- Expressions of which only the weekdays differ are read alike if these allow the same days. -/
theorem ReadAlike.of_allows {a b other : String} {others : List Item}
    (ha : f.WithWeekdays field a) (hb : f.WithWeekdays other b)
    (hweekdays : (translateWeekdays field >>= Field.weekday.parse) = .ok weekdays)
    (hothers : (translateWeekdays other >>= Field.weekday.parse) = .ok others)
    (h : ∀ i < 7, anyAllows 0 6 i weekdays = anyAllows 0 6 i others) : ReadAlike a b := by
  have hleft := Schedule.parse_of_weekdays ha hweekdays
  have hright := Schedule.parse_of_weekdays hb hothers
  rcases f.scheduleWith_alike h with ⟨fault, hs, ht⟩ | ⟨s, t, hs, ht, hsame⟩
  · exact .refused (hleft.trans hs) (hright.trans ht) rfl
  · exact .read (hleft.trans hs) (hright.trans ht) hsame

/-- Expressions of which only the weekdays differ are read alike if these are translated alike. -/
theorem ReadAlike.of_translateWeekdays {a b other : String} (ha : f.WithWeekdays field a)
    (hb : f.WithWeekdays other b)
    (h : (translateWeekdays field).mapError Fault.unquoted =
      (translateWeekdays other).mapError Fault.unquoted) :
    ReadAlike a b := by
  cases hleft : translateWeekdays field with
  | error e =>
    rw [hleft] at h
    obtain ⟨g, hright, hsame⟩ := mapError_eq_error.mp h.symm
    exact .refused (Schedule.parse_of_translateWeekdays ha.split hleft)
      (Schedule.parse_of_translateWeekdays hb.split hright) hsame.symm
  | ok names =>
    rw [hleft] at h
    have hright : translateWeekdays other = .ok names := mapError_eq_ok.mp h.symm
    have hsame : Schedule.parse a = Schedule.parse b := by
      rw [Schedule.parse, Schedule.parse, ha.split, hb.split]
      simp only [ok_bind, hleft, hright, ha.restricted, hb.restricted]
    cases hparse : Schedule.parse a with
    | error fault => exact .refused hparse (hsame.symm.trans hparse) rfl
    | ok s => exact .read hparse (hsame.symm.trans hparse) (.refl s)

end

end Cadence.Cron
