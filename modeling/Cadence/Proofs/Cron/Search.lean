/-
The search of a variant finds the first second that the variant allows.

* `Stamp.count` — the number that the places of a second make up, down to one of them;
* `Stamp.increment_spec` — raising a place by one gives the first second that is greater in
  that place or in one above;
* `Variant.moves_advance`, `Variant.search_spec` — what a step of the search keeps, and what
  the search finds.

The search keeps two things: the places above the one it looks at are allowed, and no second
is allowed between the start and where it is.  Where no value of a place is allowed from the
present one on, every allowed second is greater in a place above; where the next allowed
value is greater than the present one, every allowed second is greater in the place itself.
Seconds that agree in the places down to the day have the same weekday and the same last day
of the month.
-/
import Cadence.Proofs.Calendar.Month
import Cadence.Proofs.Cron.Allowed

namespace Cadence.Cron

open Cadence.Calendar

namespace Stamp

/-- A second of the calendar. -/
structure InCalendar (t : Stamp) : Prop where
  date : t.date.InCalendar
  hour_le : t.hour ≤ 23
  minute_le : t.minute ≤ 59
  second_le : t.second ≤ 59

/-- The number that the places of a second make up, from the year down to a place. -/
def count (t : Stamp) : Place → Nat
  | .year => t.date.year
  | .month => t.date.monthCount
  | .day | .weekday => t.date.monthCount * 31 + (t.date.day - 1)
  | .hour => (t.date.monthCount * 31 + (t.date.day - 1)) * 24 + t.hour
  | .minute => ((t.date.monthCount * 31 + (t.date.day - 1)) * 24 + t.hour) * 60 + t.minute
  | .second =>
    (((t.date.monthCount * 31 + (t.date.day - 1)) * 24 + t.hour) * 60 + t.minute) * 60 +
      t.second

/-- Two seconds agree in the places above a place. -/
def AgreeAbove (t w : Stamp) (p : Place) : Prop := ∀ q, p.above = some q → t.count q = w.count q

section

variable {t w : Stamp} {p q : Place} (ht : t.InCalendar) (hw : w.InCalendar)

include ht

theorem value_le_high : t.value p ≤ t.high p := by
  cases p with
  | year => exact ht.date.year_le
  | month => exact ht.date.month_le
  | day => exact ht.date.day_le
  | weekday => exact Nat.le_of_lt_succ (Nat.mod_lt _ (by decide))
  | hour => exact ht.hour_le
  | minute => exact ht.minute_le
  | second => exact ht.second_le

/-- The bounds of the places, whatever the month. -/
theorem bounds : (1 ≤ t.date.month ∧ t.date.month ≤ 12) ∧ (1 ≤ t.date.day ∧ t.date.day ≤ 31) ∧
    t.hour ≤ 23 ∧ t.minute ≤ 59 ∧ t.second ≤ 59 :=
  ⟨⟨ht.date.month_pos, ht.date.month_le⟩,
    ⟨ht.date.day_pos, Nat.le_trans ht.date.day_le (daysInMonth_le _ _)⟩, ht.hour_le,
    ht.minute_le, ht.second_le⟩

include hw

/-- A second that is greater in the places down to one of them is greater in those down to a
lower one. -/
theorem count_lt_of_left (hpq : p.left ≤ q.left) (h : t.count q < w.count q) :
    t.count p < w.count p := by
  have := bounds ht
  have := bounds hw
  cases p <;> cases q <;> simp only [Place.left] at hpq <;>
    simp only [count, Date.monthCount] at h ⊢ <;> omega

/-- Seconds that are ordered are ordered in the places down to any of them. -/
theorem count_le_of_le (h : t.count .second ≤ w.count .second) (p : Place) :
    t.count p ≤ w.count p := by
  by_contra hlt
  have := count_lt_of_left hw ht (p := .second) p.left_pos (Nat.lt_of_not_le hlt)
  omega

/-- A second that is greater in the places down to one is greater in those above it, or agrees in
those and is greater in the place itself. -/
theorem count_lt_cases (h : t.count p < w.count p) :
    (∃ q, p.above = some q ∧ t.count q < w.count q) ∨
    t.AgreeAbove w p ∧ p ≠ .weekday ∧ t.value p < w.value p := by
  have := bounds ht
  have := bounds hw
  cases habove : p.above with
  | none =>
    cases p <;> cases habove
    exact Or.inr ⟨fun _ hq => (nomatch hq), fun hp => (nomatch hp), h⟩
  | some q =>
    by_cases hq : t.count q < w.count q
    · exact Or.inl ⟨q, rfl, hq⟩
    · refine Or.inr ⟨fun r hr => ?_, ?_⟩
      · obtain rfl := Option.some_inj.mp (habove.symm.trans hr)
        cases p <;> cases habove <;> simp only [count, Date.monthCount] at h hq ⊢ <;> omega
      · cases p <;> cases habove <;> simp only [count, Date.monthCount, value, ne_eq, reduceCtorEq,
          not_false_eq_true, true_and] at h hq ⊢ <;> omega

/-- Seconds that agree in the places down to the day have the same date. -/
theorem date_eq_of_count (h : t.count .day = w.count .day) : t.date = w.date := by
  have := bounds ht
  have := bounds hw
  simp only [count, Date.monthCount] at h
  show (⟨t.date.year, t.date.month, t.date.day⟩ : Date) = ⟨w.date.year, w.date.month, w.date.day⟩
  rw [show t.date.year = w.date.year by omega, show t.date.month = w.date.month by omega,
    show t.date.day = w.date.day by omega]

/-- Seconds that agree above a place have the same greatest value there. -/
theorem high_eq_of_agree (h : t.AgreeAbove w p) : t.high p = w.high p := by
  have := bounds ht
  have := bounds hw
  cases p with
  | day =>
    have hmonth := h .month rfl
    simp only [count, Date.monthCount] at hmonth
    rw [high, high, show t.date.year = w.date.year by omega,
      show t.date.month = w.date.month by omega]
  | _ => rfl

theorem value_weekday_eq (h : t.AgreeAbove w .weekday) : t.value .weekday = w.value .weekday := by
  rw [value, value, date_eq_of_count ht hw (h .day rfl)]

/-- Seconds that agree above a place are ordered as their values there. -/
theorem value_le_of_agree (h : t.AgreeAbove w p) (hle : t.count p ≤ w.count p) :
    t.value p ≤ w.value p := by
  have := bounds ht
  have := bounds hw
  cases p with
  | year => exact hle
  | weekday => exact Nat.le_of_eq (value_weekday_eq ht hw h)
  | _ =>
    have habove := h _ rfl
    simp only [count, Date.monthCount, value] at habove hle ⊢
    omega

end

/-- `u` is the first second that is greater than `t` in the places down to `p`, and `q` is the place
that was raised for it. -/
structure Raised (t : Stamp) (p : Place) (u : Stamp) (q : Place) : Prop where
  calendar : u.InCalendar
  left_le : p.left ≤ q.left
  later : t.count .second ≤ u.count .second
  same : ∀ r, q.left < r.left → u.value r = t.value r ∧ u.high r = t.high r
  first : ∀ w : Stamp, w.InCalendar → t.count p < w.count p → u.count .second ≤ w.count .second

section

variable {t w : Stamp} {p q : Place} {n : Nat}

theorem put_same (r : Place) (hr : p.left < r.left) :
    (t.put n p).value r = t.value r ∧ (t.put n p).high r = t.high r := by
  cases p <;> cases r <;> simp only [Place.left] at hr <;> first | omega | exact ⟨rfl, rfl⟩

theorem high_put : (t.put n p).high p = t.high p := by
  cases p <;> rfl

theorem value_put (hp : p ≠ .weekday) : (t.put n p).value p = n := by
  cases p <;> first | rfl | exact absurd rfl hp

variable (ht : t.InCalendar) (hp : p ≠ .weekday)

include ht hp

theorem put_inCalendar (hlt : t.value p < n) (hle : n ≤ t.high p) : (t.put n p).InCalendar := by
  have hyear := ht.date.year_pos
  have hpos : 1 ≤ n := Nat.zero_lt_of_lt hlt
  have hmidnight {d : Date} (hd : d.InCalendar) : (⟨d, 0, 0, 0⟩ : Stamp).InCalendar :=
    ⟨hd, Nat.zero_le _, Nat.zero_le _, Nat.zero_le _⟩
  cases p with
  | year =>
    exact hmidnight ⟨hpos, hle, Nat.le_refl _, Nat.le_of_ble_eq_true rfl, Nat.le_refl _,
      daysInMonth_pos _ _⟩
  | month => exact hmidnight ⟨hyear, ht.date.year_le, hpos, hle, Nat.le_refl _, daysInMonth_pos _ _⟩
  | day => exact hmidnight ⟨hyear, ht.date.year_le, ht.date.month_pos, ht.date.month_le, hpos, hle⟩
  | weekday => exact absurd rfl hp
  | hour => exact ⟨ht.date, hle, Nat.zero_le _, Nat.zero_le _⟩
  | minute => exact ⟨ht.date, ht.hour_le, hle, Nat.zero_le _⟩
  | second => exact ⟨ht.date, ht.hour_le, ht.minute_le, hle⟩

theorem le_put (hlt : t.value p < n) : t.count .second ≤ (t.put n p).count .second := by
  have := bounds ht
  cases p <;> simp only [value, put, count, Date.monthCount, ne_eq, not_true_eq_false]
    at * <;> omega

/-- A second that is greater above a place, or has a value there that is not less than what
is put in, is not before the second with that value. -/
theorem put_le (hw : w.InCalendar)
    (h : (∃ q, p.above = some q ∧ t.count q < w.count q) ∨ t.AgreeAbove w p ∧ n ≤ w.value p)
    (hlt : t.value p < n) (hle : n ≤ t.high p) :
    (t.put n p).count .second ≤ w.count .second := by
  have := bounds (put_inCalendar ht hp hlt hle)
  have := bounds ht
  have := bounds hw
  rcases h with ⟨q, habove, hq⟩ | ⟨hagree, hn⟩
  · cases p <;> cases habove <;> simp only [value, put, count, Date.monthCount, ne_eq,
      not_true_eq_false] at * <;> omega
  · cases p with
    | year =>
      simp only [value, put, count, Date.monthCount] at *
      omega
    | weekday => exact absurd rfl hp
    | _ =>
      have habove := hagree _ rfl
      simp only [value, put, count, Date.monthCount] at *
      omega

end

/-- **Raising a place gives the first second that is greater down to that place.** -/
theorem increment_spec {t : Stamp} (ht : t.InCalendar) (p : Place) : match t.increment p with
    | .ok (u, q) => Raised t p u q
    | .error e =>
      (∀ w : Stamp, w.InCalendar → w.count p ≤ t.count p) ∧
        (e = .lastSecond ↔ t = last) := by
  fun_induction increment t p with
  | case1 p hraise =>
    obtain ⟨hp, hlt⟩ := hraise
    refine ⟨put_inCalendar ht hp (Nat.lt_succ_self _) hlt, Nat.le_refl _,
      le_put ht hp (Nat.lt_succ_self _), put_same, fun w hw hgreater => ?_⟩
    refine put_le ht hp hw ?_ (Nat.lt_succ_self _) hlt
    exact (count_lt_cases ht hw hgreater).imp_right fun h => ⟨h.1, h.2.2⟩
  | case2 p hkeep habove =>
    -- only the year has no place above
    have hp : p = .year := by
      cases p <;> first | rfl | cases habove
    subst hp
    refine ⟨fun w hw => ?_, ?_⟩
    · have hyear : ¬ t.date.year < maxYear := fun hlt => hkeep ⟨by decide, hlt⟩
      exact Nat.le_trans hw.date.year_le (Nat.le_of_not_lt hyear)
    · split_ifs <;> simp_all
  | case3 p hkeep q habove ih =>
    have hcarry : ∀ w : Stamp, w.InCalendar → t.count p < w.count p → t.count q < w.count q := by
      intro w hw h
      rcases count_lt_cases ht hw h with ⟨r, hr, hlt⟩ | ⟨hagree, hp, hlt⟩
      · obtain rfl := Option.some_inj.mp (habove.symm.trans hr)
        exact hlt
      · -- the place has its greatest value already
        have := value_le_high (p := p) hw
        rw [← high_eq_of_agree ht hw hagree] at this
        exact absurd ⟨hp, Nat.lt_of_lt_of_le hlt this⟩ hkeep
    have hleft := Place.left_above habove
    split at ih
    · exact ⟨ih.calendar, by have := ih.left_le; omega, ih.later, ih.same,
        fun w hw h => ih.first w hw (hcarry w hw h)⟩
    · refine ⟨fun w hw => ?_, ih.2⟩
      by_contra h
      have := ih.1 w hw
      have := hcarry w hw (Nat.lt_of_not_le h)
      omega

end Stamp

/-! ### The search -/

/-- A variant allows the value of a place. -/
def Variant.AllowsAt (v : Variant) (t : Stamp) (p : Place) : Prop :=
  anyAllows p.low (t.high p) (t.value p) (v.items p) = true

/-- A second of the calendar that a variant allows. -/
structure Variant.Allows (v : Variant) (t : Stamp) : Prop where
  calendar : t.InCalendar
  allows : ∀ p, v.AllowsAt t p

theorem Variant.AllowsAt.congr {v : Variant} {t u : Stamp} {p : Place} (h : v.AllowsAt t p)
    (hsame : u.value p = t.value p ∧ u.high p = t.high p) : v.AllowsAt u p := by
  rwa [AllowsAt, hsame.1, hsame.2]

/-- How many places are searched from a place on, if there is one. -/
def leftFrom : Option Place → Nat
  | some p => p.left
  | none => 0

/-- The search has come to a second: it is one of the calendar, and the places above are allowed. -/
structure Variant.Reached (v : Variant) (t : Stamp) (left : Nat) : Prop where
  calendar : t.InCalendar
  allows : ∀ p, left < p.left → v.AllowsAt t p

/-- No second is allowed from `t` on that is before `u`. -/
def Variant.Skips (v : Variant) (t u : Stamp) : Prop :=
  ∀ w, v.Allows w → t.count .second ≤ w.count .second → u.count .second ≤ w.count .second

/-- What a step of the search comes to: it moves on without skipping an allowed second, or there is
none left. -/
def Variant.Moves (v : Variant) (t : Stamp) : Except Stop (Stamp × Option Place) → Prop
  | .ok (u, q) => v.Reached u (leftFrom q) ∧ t.count .second ≤ u.count .second ∧ v.Skips t u
  | .error e =>
    (∀ w, v.Allows w → ¬ t.count .second ≤ w.count .second) ∧ (e = .lastSecond → t = .last)

section

variable {v : Variant} {t : Stamp} {p q : Place}

/-- Raising a place skips nothing if all allowed seconds are greater in that place or above. -/
theorem Variant.moves_increment (ht : v.Reached t p.left) (hpq : p.left ≤ q.left)
    (hgreater : ∀ w, v.Allows w → t.count .second ≤ w.count .second → t.count q < w.count q) :
    v.Moves t ((t.increment q).map fun (u, r) => (u, some r)) := by
  have hspec := Stamp.increment_spec ht.calendar q
  cases hincrement : t.increment q with
  | error e =>
    rw [hincrement] at hspec
    exact ⟨fun w hw hle => Nat.not_lt.mpr (hspec.1 w hw.calendar) (hgreater w hw hle), hspec.2.mp⟩
  | ok x =>
    rw [hincrement] at hspec
    refine ⟨⟨hspec.calendar, fun s hs => ?_⟩, hspec.later,
      fun w hw hle => hspec.first w hw.calendar (hgreater w hw hle)⟩
    have hleft : p.left < s.left := Nat.lt_of_le_of_lt (Nat.le_trans hpq hspec.left_le) hs
    exact (ht.allows s hleft).congr (hspec.same s hs)

/-- Where the places above one are allowed and it is too, the search has come to the next place. -/
theorem Variant.Reached.below (ht : v.Reached t p.left) {u : Stamp} (hu : u.InCalendar)
    (hsame : ∀ r, p.left < r.left → u.value r = t.value r ∧ u.high r = t.high r)
    (hp : v.AllowsAt u p) :
    v.Reached u (leftFrom p.below) := by
  refine ⟨hu, fun r hr => ?_⟩
  by_cases hrp : r = p
  · exact hrp ▸ hp
  · have hleft : p.left < r.left := by
      cases p <;> cases r <;> simp_all [leftFrom, Place.below, Place.left]
    exact (ht.allows r hleft).congr (hsame r hleft)

/-- An allowed second is greater above a place, or its value there is allowed and not less. -/
theorem Variant.Allows.cases {w : Stamp} (hw : v.Allows w) (ht : t.InCalendar)
    (hle : t.count .second ≤ w.count .second) (p : Place) :
    (∃ q, p.above = some q ∧ t.count q < w.count q) ∨ t.AgreeAbove w p ∧ t.value p ≤ w.value p ∧
      anyAllows p.low (t.high p) (w.value p) (v.items p) = true := by
  have hcount := Stamp.count_le_of_le ht hw.calendar hle
  by_cases hagree : t.AgreeAbove w p
  · refine Or.inr ⟨hagree, Stamp.value_le_of_agree ht hw.calendar hagree (hcount p), ?_⟩
    rw [Stamp.high_eq_of_agree ht hw.calendar hagree]
    exact hw.allows p
  · obtain ⟨q, hq⟩ := not_forall.mp hagree
    obtain ⟨habove, hne⟩ := Classical.not_imp.mp hq
    exact Or.inl ⟨q, habove, Nat.lt_of_le_of_ne (hcount q) hne⟩

variable (hv : v.IsStepped)

include hv

/-- **A step of the search skips no allowed second.** -/
theorem Variant.moves_advance (ht : v.Reached t p.left) : v.Moves t (v.advance t p) := by
  have hnext := isLeast_nextValue p.low (hv p) (Stamp.value_le_high (p := p) ht.calendar)
  have hcases := fun w (hw : v.Allows w) hle => hw.cases ht.calendar hle p
  unfold Variant.advance
  cases hfound : nextValue p.low (t.high p) (t.value p) (v.items p) with
  | none =>
    rw [hfound] at hnext
    have hgreater : ∀ w, v.Allows w → t.count .second ≤ w.count .second →
        ∃ q, p.above = some q ∧ t.count q < w.count q := fun w hw hle =>
      (hcases w hw hle).resolve_right fun h => hnext _ h.2.2 h.2.1
    cases habove : p.above with
    | none =>
      refine ⟨fun w hw hle => ?_, fun h => (nomatch h)⟩
      obtain ⟨q, hq, _⟩ := hgreater w hw hle
      rw [habove] at hq
      cases hq
    | some q =>
      refine moves_increment ht (by have := Place.left_above habove; omega) fun w hw hle => ?_
      obtain ⟨r, hr, hlt⟩ := hgreater w hw hle
      obtain rfl := Option.some_inj.mp (habove.symm.trans hr)
      exact hlt
  | some n =>
    rw [hfound] at hnext
    obtain ⟨hallowed, hle, hleast⟩ := hnext
    have hhigh := nextValue_le hfound
    simp only
    split_ifs with hlt hp
    · -- the day of the week cannot be moved on to the next value, so that the day is raised
      subst hp
      refine moves_increment ht (Nat.le_refl _) fun w hw hle => ?_
      rcases hcases w hw hle with ⟨q, hq, h⟩ | ⟨hagree, hvalue, hallows⟩
      · cases hq
        exact h
      · have := hleast _ hallows hvalue
        rw [← Stamp.value_weekday_eq ht.calendar hw.calendar hagree] at this
        omega
    · have hput := Stamp.put_inCalendar ht.calendar hp hlt hhigh
      refine ⟨ht.below hput Stamp.put_same ?_, Stamp.le_put ht.calendar hp hlt, fun w hw hle => ?_⟩
      · rwa [AllowsAt, Stamp.value_put hp, Stamp.high_put]
      · exact Stamp.put_le ht.calendar hp hw.calendar
          ((hcases w hw hle).imp_right fun h => ⟨h.1, hleast _ h.2.2 h.2.1⟩) hlt hhigh
    · obtain rfl : t.value p = n := by omega
      exact ⟨ht.below ht.calendar (fun _ _ => ⟨rfl, rfl⟩) hallowed, Nat.le_refl _,
        fun w _ hle => hle⟩

/-- **The search finds the first second that the variant allows, if there is one.** -/
theorem Variant.search_spec (ht : v.Reached t p.left) : match v.search t p with
    | .ok u => v.Allows u ∧ t.count .second ≤ u.count .second ∧ v.Skips t u
    | .error _ => ∀ w, v.Allows w → ¬ t.count .second ≤ w.count .second := by
  fun_induction Variant.search v t p with
  | case1 t p e hstep =>
    have hmoves := moves_advance hv ht
    rw [hstep] at hmoves
    exact hmoves.1
  | case2 t p u hstep =>
    have hmoves := moves_advance hv ht
    rw [hstep] at hmoves
    obtain ⟨hreached, hle, hskips⟩ := hmoves
    exact ⟨⟨hreached.calendar, fun q => hreached.allows q q.left_pos⟩, hle, hskips⟩
  | case3 t p u q hstep ih =>
    have hmoves := moves_advance hv ht
    rw [hstep] at hmoves
    obtain ⟨hreached, hle, hskips⟩ := hmoves
    have ih := ih hreached
    split at ih
    · obtain ⟨hallows, hlater, hfirst⟩ := ih
      exact ⟨hallows, Nat.le_trans hle hlater, fun w hw h => hfirst w hw (hskips w hw h)⟩
    · exact fun w hw h => ih w hw (hskips w hw h)

end

/-! ### The last second of the calendar -/

section

variable {v : Variant} {t u : Stamp} {p q : Place}

theorem Stamp.second_increment (hp : p ≠ .second)
    (h : t.increment p = .ok (u, q)) : u.second = 0 := by
  fun_induction Stamp.increment t p with
  | case1 p hraise =>
    obtain ⟨rfl, _⟩ := Prod.mk.inj (Except.ok.inj h)
    cases p <;> first | rfl | exact absurd rfl hp | exact absurd rfl hraise.1
  | case2 => cases h
  | case3 p _ q habove ih => exact ih (fun hq => by cases p <;> cases habove <;> cases hq) h

/-- The first second of a minute is the only one that is allowed. -/
theorem Variant.nextValue_second (v : Variant) (n : Nat) :
    nextValue 0 59 n (v.items .second) = if n = 0 then some 0 else none := by
  cases n <;> simp [nextValue, items, Item.next?, stepUp, upTo]

theorem Variant.nextValue_year (v : Variant) :
    nextValue firstYear maxYear maxYear (v.items .year) = some maxYear :=
  rfl

/-- A step of the search stays where it is or moves on to a full minute. -/
theorem Variant.advance_second {q : Option Place} (h : v.advance t p = .ok (u, q)) :
    u = t ∨ u.second = 0 := by
  have hincrement : ∀ {r : Place}, r ≠ .second →
      (t.increment r).map (fun (u, r) => (u, some r)) = .ok (u, q) →
      u.second = 0 := fun {r} hr h => by
    cases hfound : t.increment r with
    | error e => rw [hfound] at h; cases h
    | ok x =>
      rw [hfound] at h
      obtain ⟨rfl, _⟩ := Prod.mk.inj (Except.ok.inj h)
      exact Stamp.second_increment hr hfound
  unfold Variant.advance at h
  split at h
  · split at h
    · cases h
    · next r habove => exact Or.inr (hincrement (fun hr => by subst hr; cases p <;> cases habove) h)
  · next n hn =>
    split_ifs at h with hlt hp
    · subst hp
      exact Or.inr (hincrement (by decide) h)
    · obtain ⟨rfl, _⟩ := Prod.mk.inj (Except.ok.inj h)
      cases p with
      | second =>
        have hn := (v.nextValue_second t.second).symm.trans hn
        split_ifs at hn
        exact Or.inr (Option.some_inj.mp hn).symm
      | weekday => exact absurd rfl hp
      | _ => exact Or.inr rfl
    · obtain ⟨rfl, _⟩ := Prod.mk.inj (Except.ok.inj h)
      exact Or.inl rfl

theorem Stamp.increment_last (p : Place) : last.increment p = .error .lastSecond := by
  cases p <;> decide +kernel

/-- In the last second no place can be moved on. -/
theorem Variant.advance_last (v : Variant) (p : Place) : v.advance .last p = .error .lastSecond ∨
    ∃ q, v.advance .last p = .ok (.last, some q) := by
  unfold Variant.advance
  cases hfound : nextValue p.low (Stamp.last.high p) (Stamp.last.value p) (v.items p) with
  | none =>
    cases p with
    | year => exact absurd (hfound.symm.trans v.nextValue_year) (fun h => nomatch h)
    | _ => exact Or.inl (by simp only [Place.above, Stamp.increment_last]; rfl)
  | some n =>
    have hle := nextValue_le hfound
    cases p with
    | weekday =>
      simp only [Stamp.increment_last]
      split_ifs
      · exact Or.inl rfl
      · exact Or.inr ⟨_, rfl⟩
    | second => exact absurd (hfound.symm.trans (v.nextValue_second 59)) (fun h => nomatch h)
    | _ =>
      -- the place has its greatest value
      exact Or.inr ⟨_, if_neg (Nat.not_lt.mpr hle)⟩

/-- **The search runs out of places just if it begins in the last second of the calendar.** -/
theorem Variant.search_lastSecond (hv : v.IsStepped) (ht : v.Reached t p.left) :
    v.search t p = .error .lastSecond ↔ t = .last := by
  constructor
  · intro h
    fun_induction Variant.search v t p with
    | case1 t p e hstep =>
      have hmoves := moves_advance hv ht
      rw [hstep] at hmoves
      exact hmoves.2 (Except.error.inj h)
    | case2 => cases h
    | case3 t p u q hstep ih =>
      have hmoves := moves_advance hv ht
      rw [hstep] at hmoves
      have hu := ih hmoves.1 h
      rcases advance_second hstep with rfl | hsecond
      · exact hu
      · rw [hu] at hsecond
        cases hsecond
  · intro h
    fun_induction Variant.search v t p with
    | case1 t p e hstep =>
      subst h
      rcases v.advance_last p with hlast | ⟨q, hlast⟩
      · rw [hlast] at hstep
        exact congrArg Except.error (Except.error.inj hstep).symm
      · rw [hlast] at hstep
        cases hstep
    | case2 t p u hstep =>
      subst h
      rcases v.advance_last p with hlast | ⟨q, hlast⟩ <;> rw [hlast] at hstep <;> cases hstep
    | case3 t p u q hstep ih =>
      have hmoves := moves_advance hv ht
      rw [hstep] at hmoves
      subst h
      rcases v.advance_last p with hlast | ⟨q', hlast⟩ <;> rw [hlast] at hstep <;> cases hstep
      exact ih hmoves.1 rfl

end

end Cadence.Cron
