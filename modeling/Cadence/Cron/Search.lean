/-
The search for the next full second that a variant of a schedule allows.

The search looks at one place of the calendar and the clock after the other, from the year down to
the second.  Where the value of a place is not allowed, the place is moved on to the next value that
is, and the places below begin anew; where no greater value is allowed, the place above is raised by
one, with a carry, and the search goes on from there.  The day of the week has no value that could
be changed: in its stead the day is raised.

* `Stamp.increment` — raises a place by one;
* `Variant.advance` — one step of the search;
* `Variant.search` — the search.

A step moves on to a later second or to the next place, and the calendar ends: `Stamp.room` measures
what is left of it.
-/
import Cadence.Cron.Schedule
import Cadence.Calendar.Moment

namespace Cadence.Cron

open Cadence.Calendar

/-- The first year in which schedules occur. -/
def firstYear : Nat := 1970

/-- The places of the calendar and the clock, in the order in which they are searched. -/
inductive Place where
  | year | month | day | weekday | hour | minute | second
  deriving DecidableEq, Repr

namespace Place

/-- The place that is searched before a place. -/
def above : Place → Option Place
  | .year => none
  | .month => some .year
  | .day => some .month
  | .weekday => some .day
  | .hour => some .weekday
  | .minute => some .hour
  | .second => some .minute

/-- The place that is searched after a place. -/
def below : Place → Option Place
  | .year => some .month
  | .month => some .day
  | .day => some .weekday
  | .weekday => some .hour
  | .hour => some .minute
  | .minute => some .second
  | .second => none

/-- How many places are searched from a place on. -/
def left : Place → Nat
  | .year => 7
  | .month => 6
  | .day => 5
  | .weekday => 4
  | .hour => 3
  | .minute => 2
  | .second => 1

/-- The least value of a place. -/
def low : Place → Nat
  | .year => firstYear
  | .month | .day => 1
  | _ => 0

theorem left_pos (p : Place) : 0 < p.left := by cases p <;> decide

theorem left_le (p : Place) : p.left ≤ 7 := by cases p <;> decide

theorem left_above {p q : Place} (h : p.above = some q) : q.left = p.left + 1 := by
  cases p <;> cases h <;> rfl

theorem left_below {p q : Place} (h : p.below = some q) : q.left + 1 = p.left := by
  cases p <;> cases h <;> rfl

end Place

/-- A full second, as the calendar and the clock show it. -/
structure Stamp where
  date : Date
  hour : Nat
  minute : Nat
  second : Nat
  deriving DecidableEq, Repr

/-- Why a search ends without a result. -/
inductive Stop where
  /-- The years have run out. -/
  | exhausted
  /-- Every place has its greatest value, so that none is found that could be raised. -/
  | lastSecond
  deriving DecidableEq, Repr

namespace Stamp

/-- The last second of the calendar. -/
def last : Stamp := ⟨⟨maxYear, 12, 31⟩, 23, 59, 59⟩

/-- The value of a place. -/
def value (t : Stamp) : Place → Nat
  | .year => t.date.year
  | .month => t.date.month
  | .day => t.date.day
  | .weekday => Calendar.weekday (dayNumber t.date)
  | .hour => t.hour
  | .minute => t.minute
  | .second => t.second

/-- The greatest value of a place. -/
def high (t : Stamp) : Place → Nat
  | .year => maxYear
  | .month => 12
  | .day => daysInMonth t.date.year t.date.month
  | .weekday => 6
  | .hour => 23
  | .minute | .second => 59

/-- Puts a value in a place, and the least values in the places below. The day of the week follows
from the date and cannot be chosen. -/
def put (t : Stamp) (n : Nat) : Place → Stamp
  | .year => ⟨⟨n, 1, 1⟩, 0, 0, 0⟩
  | .month => ⟨⟨t.date.year, n, 1⟩, 0, 0, 0⟩
  | .day => ⟨⟨t.date.year, t.date.month, n⟩, 0, 0, 0⟩
  | .weekday => t
  | .hour => ⟨t.date, n, 0, 0⟩
  | .minute => ⟨t.date, t.hour, n, 0⟩
  | .second => ⟨t.date, t.hour, t.minute, n⟩

/-- Raises a place by one, or the next one above that has not got its greatest value yet. Also gives
the place that was raised. -/
def increment (t : Stamp) (p : Place) : Except Stop (Stamp × Place) :=
  if p ≠ .weekday ∧ t.value p < t.high p then .ok (t.put (t.value p + 1) p, p)
  else
    match _h : p.above with
    | none => .error (if t = last then .lastSecond else .exhausted)
    | some q => t.increment q
termination_by 7 - p.left
decreasing_by
  have := Place.left_above ‹_›
  have := q.left_le
  omega

/-- How much of the calendar lies after a second. -/
def room (t : Stamp) : Nat :=
  (((((maxYear - t.date.year) * 13 + (12 - t.date.month)) * 32 + (31 - t.date.day)) * 24 +
    (23 - t.hour)) * 60 + (59 - t.minute)) * 60 + (59 - t.second)

/-- A greater value in a place makes for a later second. -/
theorem room_put {t : Stamp} {p : Place} {n : Nat} (hp : p ≠ .weekday) (hlt : t.value p < n)
    (hle : n ≤ t.high p) : (t.put n p).room < t.room := by
  have hday := daysInMonth_le t.date.year t.date.month
  cases p <;> simp only [value, high, put, room, maxYear, ne_eq, not_true_eq_false] at * <;> omega

theorem room_increment {t u : Stamp} {p q : Place} (h : t.increment p = .ok (u, q)) :
    u.room < t.room := by
  fun_induction increment t p with
  | case1 p hraise =>
    obtain ⟨rfl, rfl⟩ := Prod.mk.inj (Except.ok.inj h)
    exact room_put hraise.1 (Nat.lt_succ_self _) hraise.2
  | case2 => cases h
  | case3 p _ q' habove ih => exact ih h

end Stamp

/-- The next value of a field is not too great. -/
theorem nextValue_le {low high value n : Nat} {items : List Item}
    (h : nextValue low high value items = some n) : n ≤ high := by
  obtain ⟨item, _, hitem⟩ := List.mem_filterMap.mp (List.min?_mem h)
  have hupTo : ∀ {high x : Nat}, upTo high x = some n → n ≤ high := fun {high x} h => by
    unfold upTo at h
    split at h
    · cases h; assumption
    · cases h
  cases item with
  | every step => exact hupTo hitem
  | range first last step => exact Nat.le_trans (hupTo hitem) (Nat.min_le_left _ _)
  | lastDay => exact Nat.le_of_eq (Option.some_inj.mp hitem).symm

/-- The items that a variant has for a place. A schedule leaves the year open and occurs at full
minutes. -/
def Variant.items (v : Variant) : Place → List Item
  | .year => [.every none]
  | .month => v.month
  | .day => v.day
  | .weekday => v.weekday
  | .hour => v.hour
  | .minute => v.minute
  | .second => [.range 0 (some 0) none]

/-- One step of the search, at a place: the second that it goes on from, and the place, if any are
left. -/
def Variant.advance (v : Variant) (t : Stamp) (p : Place) : Except Stop (Stamp × Option Place) :=
  match nextValue p.low (t.high p) (t.value p) (v.items p) with
  | none =>
    match p.above with
    | none => .error .exhausted
    | some q => (t.increment q).map fun (u, r) => (u, some r)
  | some n =>
    if t.value p < n then
      if p = .weekday then (t.increment p).map fun (u, r) => (u, some r)
      else .ok (t.put n p, p.below)
    else .ok (t, p.below)

/-- A step of the search moves on to a later second or to a place below. -/
theorem Variant.advance_lt {v : Variant} {t u : Stamp} {p q : Place}
    (h : v.advance t p = .ok (u, some q)) : u.room * 8 + q.left < t.room * 8 + p.left := by
  have hincrement : ∀ {r : Place}, (t.increment r).map (fun (u, r) => (u, some r)) =
      .ok (u, some q) → u.room < t.room := fun {r} h => by
    cases hr : t.increment r with
    | error e => rw [hr] at h; cases h
    | ok x =>
      rw [hr] at h
      obtain ⟨rfl, hq⟩ := Prod.mk.inj (Except.ok.inj h)
      exact Stamp.room_increment hr
  have hq := q.left_le
  have hp := p.left_pos
  unfold Variant.advance at h
  split at h
  · split at h
    · cases h
    · have := hincrement h
      omega
  · next n hn =>
    split at h
    · next hlt =>
      split at h
      · have := hincrement h
        omega
      · next hne =>
        obtain ⟨rfl, _⟩ := Prod.mk.inj (Except.ok.inj h)
        have := Stamp.room_put hne hlt (nextValue_le hn)
        omega
    · obtain ⟨rfl, hbelow⟩ := Prod.mk.inj (Except.ok.inj h)
      have := Place.left_below hbelow
      omega

/-- The first second from `t` on that a variant allows, where the places above `p` are allowed
already. -/
def Variant.search (v : Variant) (t : Stamp) (p : Place) : Except Stop Stamp :=
  match _h : v.advance t p with
  | .error e => .error e
  | .ok (u, none) => .ok u
  | .ok (u, some q) => v.search u q
termination_by t.room * 8 + p.left
decreasing_by exact Variant.advance_lt ‹_›

/-- The full second that an instant lies in. -/
def Stamp.ofInstant (t : Instant) : Stamp :=
  let seconds := (t.micros / Calendar.second).toNat
  ⟨Date.ofDayNumber (seconds / 86400), seconds / 3600 % 24, seconds / 60 % 60, seconds % 60⟩

/-- The instant at which a full second begins. -/
def Stamp.toInstant (t : Stamp) : Instant :=
  ⟨dayNumber t.date * Calendar.day + t.hour * Calendar.hour + t.minute * Calendar.minute +
    t.second * Calendar.second⟩

end Cadence.Cron
