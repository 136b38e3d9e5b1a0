/-
Timestamps read back as the instant that they write.

* `digits?_padded`, `date?_dateChars` — padded numbers and dates are read, whatever follows;
* `clock?_timeChars`, `clock?_offset` — times of day and distances from universal time are read;
* `timeAndOffset?_zoneChars` — the distance begins at the first sign or `Z`;
* `Moment.parse_isoText` — a well-formed moment is read back from its notation;
* `Instant.parse_isoText`, `Instant.parse_zulu` — between blanks its notation gives its
  instant, and so does universal time with a `Z`;
* `Instant.parse_naive` — a text without a distance shows universal time.
-/
import Cadence.Proofs.Calendar.Instant
import Cadence.Proofs.Calendar.Iso
import Cadence.Proofs.Calendar.Notation
import Cadence.Proofs.Text.Parts

namespace Cadence.Calendar

open Cadence.Text Cadence.Validation

/-! ### Dates -/

/-- A padded number is read as that number, whatever follows. -/
theorem digits?_padded {k n : Nat} (hk : 0 < k) (h : n < 10 ^ k) (rest : List Char) :
    digits? k (padded k n ++ rest) = some (n, rest) := by
  have hall : (padded k n).all isAsciiDigit = true :=
    List.all_eq_true.mpr fun c hc => isAsciiDigit_of_mem_padded hc
  simp only [digits?, take_padded hk h, drop_padded hk h, padded_length hk h, hall,
    beq_self_eq_true, Bool.and_self, if_true]
  rw [← Nat.ofDigitChars_eq_foldl, padded_value]

theorem padded_ne_nil (k n : Nat) : padded k n ≠ [] := by
  intro h
  have hdigits : Nat.toDigits 10 n ≠ [] := Nat.toDigits_ne_nil
  exact hdigits (List.append_eq_nil_iff.mp h).2

/-- A padded number begins with a digit. -/
theorem charAt_padded (k n : Nat) (rest : List Char) :
    isAsciiDigit (charAt (padded k n ++ rest) 0) = true := by
  obtain ⟨c, cs, hcons⟩ := List.exists_cons_of_ne_nil (padded_ne_nil k n)
  have hc : isAsciiDigit c = true := isAsciiDigit_of_mem_padded (k := k) (n := n) (by simp [hcons])
  rw [hcons]
  exact hc

theorem ne_of_isAsciiDigit {c d : Char} (hc : isAsciiDigit c = true)
    (hd : isAsciiDigit d = false) : (c == d) = false := by
  rw [beq_eq_false_iff_ne]
  rintro rfl
  rw [hc] at hd
  cases hd

section

variable {d : Date}

/-- The date of a notation ends where the time begins. -/
theorem datePlace_dateChars (h : d.InCalendar) (rest : List Char) :
    datePlace (dateChars d ++ rest) = some 10 := by
  have hyear := padded_length (show 0 < 4 by decide) (dateBounds h).1
  have hlength : ¬(dateChars d ++ rest).length = 7 := by
    rw [List.length_append, length_dateChars h]
    omega
  have hhyphen : charAt (dateChars d ++ rest) 4 = '-' := by
    rw [dateChars_append]
    exact charAt_append hyear 0 _
  -- a month begins with a digit, and so this is no date of a week
  have hmonth : (charAt (dateChars d ++ rest) 5 == 'W') = false := by
    have hnext :=
      charAt_append hyear 1 ('-' :: (padded 2 d.month ++ '-' :: (padded 2 d.day ++ rest)))
    rw [dateChars_append, hnext]
    exact ne_of_isAsciiDigit (charAt_padded 2 d.month _) (by decide)
  unfold datePlace
  simp only [hlength, hhyphen, hmonth, beq_iff_eq, beq_self_eq_true, if_true, if_false,
    Bool.false_eq_true]

/-- A date is read, whatever follows. -/
theorem date?_dateChars (h : d.InCalendar) (rest : List Char) :
    date? 10 (dateChars d ++ rest) = some d := by
  obtain ⟨hy, hm, hd⟩ := dateBounds h
  have hlength : (dateChars d ++ rest).length - rest.length = 10 := by
    rw [List.length_append, length_dateChars h, Nat.add_sub_cancel]
  have hmonth : (charAt (padded 2 d.month ++ '-' :: (padded 2 d.day ++ rest)) 0 == 'W') = false :=
    ne_of_isAsciiDigit (charAt_padded 2 d.month _) (by decide)
  have hhyphen (cs : List Char) : charAt ('-' :: cs) 0 = '-' := rfl
  have hread := digits?_padded (show 0 < 4 by decide) hy
    ('-' :: (padded 2 d.month ++ '-' :: (padded 2 d.day ++ rest)))
  rw [← dateChars_append] at hread
  rw [date?, hread]
  simp only [Option.bind_eq_bind, Option.bind_some, hhyphen, beq_self_eq_true, if_true,
    List.drop_one, List.tail_cons,
    hmonth, digits?_padded (show 0 < 2 by decide) hm,
    digits?_padded (show 0 < 2 by decide) hd, hlength, bne_self_eq_false,
    Bool.and_false, Bool.false_eq_true, if_false]

end

/-! ### Times of day -/

section

variable {colons : Bool} {next : Char} {n v f : Nat} {fields : List Nat}

theorem clockFields_colon {rest : List Char} (hv : v < 10 ^ 2) (hrest : rest ≠ []) :
    clockFields true next (n + 1) fields (padded 2 v ++ ':' :: rest) =
      clockFields true next n (fields ++ [v]) rest := by
  simp [clockFields, digits?_padded (show 0 < 2 by decide) hv, hrest]

theorem clockFields_end (hv : v < 10 ^ 2) :
    clockFields colons next (n + 1) fields (padded 2 v) =
      some (fields ++ [v], 0, next != '\x00') := by
  have hread := digits?_padded (show 0 < 2 by decide) hv []
  rw [List.append_nil] at hread
  simp [clockFields, hread]

theorem clockFields_point (hv : v < 10 ^ 2) (hf : f < 10 ^ 6) :
    clockFields true next (n + 1) fields (padded 2 v ++ '.' :: padded 6 f) =
      some (fields ++ [v], f, next != '\x00') := by
  have hlength := padded_length (show 0 < 6 by decide) hf
  have hfraction : fraction? next (padded 6 f) = some (f, next != '\x00') := by
    have hread := digits?_padded (show 0 < 6 by decide) hf []
    rw [List.append_nil] at hread
    simp [fraction?, hlength, hread]
  have hnonempty : padded 6 f ≠ [] := padded_ne_nil 6 f
  simp [clockFields, digits?_padded (show 0 < 2 by decide) hv, hfraction, hnonempty]

end

/-- The time of day of a wall clock. -/
def clockAt (wall : Nat) (leftOver : Bool) : Clock :=
  ⟨wall / 1000000 % 86400 / 3600, wall / 1000000 % 86400 / 60 % 60,
    wall / 1000000 % 86400 % 60, wall % 1000000, leftOver⟩

/-- A time of day is read, whatever character follows. -/
theorem clock?_timeChars (next : Char) (wall : Nat) :
    clock? next (timeChars wall) = some (clockAt wall (next != '\x00')) := by
  have hh : wall / 1000000 % 86400 / 3600 < 10 ^ 2 := by omega
  have hm : wall / 1000000 % 86400 / 60 % 60 < 10 ^ 2 := by omega
  have hs : wall / 1000000 % 86400 % 60 < 10 ^ 2 := by omega
  have hf : wall % 1000000 < 10 ^ 6 := by omega
  unfold timeChars clockAt
  generalize wall / 1000000 % 86400 / 3600 = h at *
  generalize wall / 1000000 % 86400 / 60 % 60 = m at *
  generalize wall / 1000000 % 86400 % 60 = s at *
  generalize wall % 1000000 = f at *
  have hhour (rest : List Char) :
      clockFields true next 3 [] (padded 2 h ++ ':' :: (padded 2 m ++ rest)) =
      clockFields true next 2 [h] (padded 2 m ++ rest) :=
    clockFields_colon hh fun hnil => padded_ne_nil 2 m (List.append_eq_nil_iff.mp hnil).1
  have hminute (rest : List Char) :
      clockFields true next 2 [h] (padded 2 m ++ ':' :: (padded 2 s ++ rest)) =
      clockFields true next 1 [h, m] (padded 2 s ++ rest) :=
    clockFields_colon hm fun hnil => padded_ne_nil 2 s (List.append_eq_nil_iff.mp hnil).1
  by_cases hzero : f = 0
  · have hsecond : clockFields true next 1 [h, m] (padded 2 s ++ []) =
        some ([h, m, s], 0, next != '\x00') := by
      rw [List.append_nil]
      exact clockFields_end hs
    subst hzero
    simp only [clock?, bne_self_eq_false, Bool.false_eq_true, if_false, hhour, hminute, hsecond]
    rfl
  · have hsecond : clockFields true next 1 [h, m] (padded 2 s ++ '.' :: padded 6 f) =
        some ([h, m, s], f, next != '\x00') :=
      clockFields_point hs hf
    simp only [clock?, bne_iff_ne, ne_eq, hzero, not_false_eq_true, if_true, hhour,
      hminute, hsecond]
    rfl

/-- A distance of hours and minutes is read. -/
theorem clock?_offset {h m : Nat} (hh : h < 10 ^ 2) (hm : m < 10 ^ 2) :
    clock? '\x00' (padded 2 h ++ ':' :: padded 2 m) = some ⟨h, m, 0, 0, false⟩ := by
  have hhour : clockFields true '\x00' 3 [] (padded 2 h ++ ':' :: padded 2 m) =
      clockFields true '\x00' 2 [h] (padded 2 m) := clockFields_colon hh (padded_ne_nil 2 m)
  have hminute : clockFields true '\x00' 2 [h] (padded 2 m) = some ([h, m], 0, false) :=
    clockFields_end hm
  simp [clock?, hhour, hminute]

theorem clockAt_total (wall : Nat) (leftOver : Bool) :
    (clockAt wall leftOver).total = (wall % 86400000000 : Nat) := by
  simp only [Clock.total, clockAt, hour, minute, second]
  omega

/-! ### Distances from universal time -/

theorem beginsOffset_of_mem_timeChars {wall : Nat} {c : Char} (h : c ∈ timeChars wall) :
    beginsOffset c = false := by
  have hchar : isAsciiDigit c = true ∨ c = ':' ∨ c = '.' := by
    have hdigit {k n : Nat} (hc : c ∈ padded k n) : isAsciiDigit c = true :=
      isAsciiDigit_of_mem_padded hc
    simp only [timeChars, List.mem_append, List.mem_cons] at h
    rcases h with h | h | h | h | h | h
    · exact Or.inl (hdigit h)
    · exact Or.inr (Or.inl h)
    · exact Or.inl (hdigit h)
    · exact Or.inr (Or.inl h)
    · exact Or.inl (hdigit h)
    · split at h
      · rcases List.mem_cons.mp h with h | h
        · exact Or.inr (Or.inr h)
        · exact Or.inl (hdigit h)
      · cases h
  rcases hchar with hdigit | rfl | rfl
  · have hplus := ne_of_isAsciiDigit hdigit (d := '+') (by decide)
    have hminus := ne_of_isAsciiDigit hdigit (d := '-') (by decide)
    have hzulu := ne_of_isAsciiDigit hdigit (d := 'Z') (by decide)
    simp only [beginsOffset, hplus, hminus, hzulu, Bool.or_self]
  · decide
  · decide

/-- The time ends where the distance from universal time begins. -/
theorem takeWhile_time (wall : Nat) (o : Option Int) :
    (timeChars wall ++ zoneChars o).takeWhile (!beginsOffset ·) = timeChars wall ∧
      (timeChars wall ++ zoneChars o).dropWhile (!beginsOffset ·) = zoneChars o := by
  have htime : ∀ c ∈ timeChars wall, (!beginsOffset c) = true := fun c hc => by
    simp [beginsOffset_of_mem_timeChars hc]
  have hzone : (zoneChars o).takeWhile (!beginsOffset ·) = [] ∧
      (zoneChars o).dropWhile (!beginsOffset ·) = zoneChars o := by
    cases o with
    | none => exact ⟨rfl, rfl⟩
    | some x =>
      by_cases hneg : x < 0
      · simp [zoneChars, hneg, beginsOffset]
      · simp [zoneChars, hneg, beginsOffset]
  rw [List.takeWhile_append_of_pos htime, List.dropWhile_append_of_pos htime, hzone.1,
    hzone.2, List.append_nil]
  exact ⟨rfl, rfl⟩

/-- A time of day and the distance from universal time are read one after the other. -/
theorem timeAndOffset?_zoneChars (wall : Nat) {o : Option Int}
    (h : ∀ x, o = some x → x % minute = 0 ∧ -day < x ∧ x < day) :
    timeAndOffset? (timeChars wall ++ zoneChars o) = some (clockAt wall o.isSome, o) := by
  obtain ⟨htake, hdrop⟩ := takeWhile_time wall o
  simp only [timeAndOffset?, htake, hdrop]
  cases o with
  | none =>
    simp only [zoneChars, clock?_timeChars]
    rfl
  | some x =>
    obtain ⟨hx, hlow, hhigh⟩ := h x rfl
    simp only [minute, second, day, hour] at hx hlow hhigh
    have hzone := clock?_offset (h := x.natAbs / 1000000 / 3600)
      (m := x.natAbs / 1000000 / 60 % 60) (by omega) (by omega)
    have htotal :
        (⟨x.natAbs / 1000000 / 3600, x.natAbs / 1000000 / 60 % 60, 0, 0, false⟩ : Clock).total =
        x.natAbs := by
      simp only [Clock.total, hour, minute, second]
      omega
    -- a distance of whole minutes is none or at least a minute
    have hround : (if (x.natAbs : Int) < second then 0 else (x.natAbs : Int)) = x.natAbs := by
      simp only [second]
      split_ifs <;> omega
    simp only [zoneChars, offsetChars_minutes (show x.natAbs % 60000000 = 0 by omega),
      clock?_timeChars, hzone, Option.bind_eq_bind, Option.bind_some, htotal, hround]
    generalize hn : x.natAbs = n
    by_cases hneg : x < 0
    · simp [hneg]
      omega
    · simp [hneg]
      omega

/-! ### Moments -/

/-- A field of a date that lies between its bounds is not refused. -/
theorem between_bounds {n high : Nat} (hlow : 1 ≤ n) (hhigh : n ≤ high) :
    (n == 0 || decide (high < n)) = false := by
  simp only [Bool.or_eq_false_iff, beq_eq_false_iff_ne, decide_eq_false_iff_not]
  omega

/-- A date and a time of day are put together to the wall clock that shows them. -/
theorem assemble_clockAt {d : Date} (hd : d.InCalendar) (wall : Nat) (leftOver : Bool)
    {o : Option Int} (h : ∀ x, o = some x → -day < x ∧ x < day) :
    assemble d (clockAt wall leftOver) o =
      .ok ⟨dayNumber d * day + (wall % 86400000000 : Nat), o⟩ := by
  have hoffset : o.any (fun x => x ≤ -day || day ≤ x) = false := by
    cases o with
    | none => rfl
    | some x =>
      obtain ⟨hlow, hhigh⟩ := h x rfl
      simp only [Option.any_some, Bool.or_eq_false_iff, decide_eq_false_iff_not]
      omega
  have hyear := between_bounds hd.year_pos hd.year_le
  have hmonth := between_bounds hd.month_pos hd.month_le
  have hday := between_bounds hd.day_pos hd.day_le
  have hhour : ¬23 < (clockAt wall leftOver).hour := by simp only [clockAt]; omega
  have hminute : ¬59 < (clockAt wall leftOver).minute := by simp only [clockAt]; omega
  have hsecond : ¬59 < (clockAt wall leftOver).second := by simp only [clockAt]; omega
  simp only [assemble, hoffset, hyear, hmonth, hday, hhour, hminute, hsecond, clockAt_total,
    Bool.false_eq_true, if_false]

/-- The notation of a moment falls into its date, its time of day and its distance from
universal time. -/
theorem momentParts?_isoChars {m : Moment}
    (hdate : (Date.ofDayNumber (m.wall.toNat / 86400000000)).InCalendar)
    (hoffset : ∀ x, m.offset = some x → x % minute = 0 ∧ -day < x ∧ x < day) :
    momentParts? m.isoChars =
      some (Date.ofDayNumber (m.wall.toNat / 86400000000),
        clockAt m.wall.toNat m.offset.isSome, m.offset) := by
  have hlength := length_dateChars hdate
  rw [isoChars_eq]
  generalize hrest : 'T' :: (timeChars m.wall.toNat ++ zoneChars m.offset) = rest
  have hlong : ¬(dateChars (Date.ofDayNumber (m.wall.toNat / 86400000000)) ++ rest).length < 7 := by
    rw [List.length_append, hlength]
    omega
  have hmore :
      ¬(dateChars (Date.ofDayNumber (m.wall.toNat / 86400000000)) ++ rest).length ≤ 10 := by
    rw [List.length_append, hlength, ← hrest, List.length_cons]
    omega
  have htime : (dateChars (Date.ofDayNumber (m.wall.toNat / 86400000000)) ++ rest).drop (10 + 1) =
      timeChars m.wall.toNat ++ zoneChars m.offset := by
    rw [← hrest, ← hlength, List.drop_append]
    simp
  simp only [momentParts?, if_neg hlong, datePlace_dateChars hdate, date?_dateChars hdate,
    Option.bind_eq_bind,
    Option.bind_some, if_neg hmore, htime, timeAndOffset?_zoneChars _ hoffset]
  rfl

/-- **A well-formed moment is read back from its notation.** -/
theorem Moment.parse_isoText {m : Moment} (h : m.WellFormed) : Moment.parse m.isoText = .ok m := by
  have hwall := h.wall
  simp only [inCalendar, calendarMicros, dayCount_eq, day, hour, minute, second, Bool.and_eq_true,
    decide_eq_true_eq] at hwall
  have hday : m.wall.toNat / 86400000000 < dayCount := by
    rw [dayCount_eq]
    omega
  have hdate := ofDayNumber_inCalendar hday
  have hsum : ((m.wall.toNat / 86400000000 : Nat) : Int) * day +
      ((m.wall.toNat % 86400000000 : Nat) : Int) = m.wall := by
    simp only [day, hour, minute, second]
    omega
  rw [Moment.parse, Moment.isoText, String.toList_ofList, momentParts?_isoChars hdate h.offset]
  simp only
  rw [assemble_clockAt hdate _ _ fun x hx => (h.offset x hx).2, dayNumber_ofDayNumber hday, hsum]

/-! ### Instants -/

theorem isBlank_of_isAsciiDigit {c : Char} (h : isAsciiDigit c = true) : isBlank c = false := by
  simp only [isAsciiDigit, Bool.and_eq_true, decide_eq_true_eq, Char.le_def, UInt32.le_iff_toNat_le]
    at h
  have hcode : 48 ≤ c.toNat ∧ c.toNat ≤ 57 := h
  simp only [isBlank, Bool.or_eq_false_iff, Bool.and_eq_false_iff, decide_eq_false_iff_not,
    beq_eq_false_iff_ne]
  omega

/-- What ends with a padded number ends with a digit. -/
theorem getLast?_padded {front : List Char} {k n : Nat} :
    ∀ c ∈ (front ++ padded k n).getLast?, isAsciiDigit c = true := by
  intro c hc
  rw [List.getLast?_append_of_ne_nil _ (padded_ne_nil k n)] at hc
  exact isAsciiDigit_of_mem_padded (List.mem_of_getLast? hc)

theorem head?_padded {k n : Nat} {rest : List Char} :
    ∀ c ∈ (padded k n ++ rest).head?, isAsciiDigit c = true := by
  intro c hc
  rw [List.head?_append_of_ne_nil _ (padded_ne_nil k n)] at hc
  exact isAsciiDigit_of_mem_padded (List.mem_of_head? hc)

theorem getLast?_timeChars {front : List Char} (wall : Nat) :
    ∀ c ∈ (front ++ timeChars wall).getLast?, isAsciiDigit c = true := by
  by_cases hf : wall % 1000000 = 0
  · have htext : front ++ timeChars wall = (front ++ padded 2 (wall / 1000000 % 86400 / 3600) ++
        ':' :: (padded 2 (wall / 1000000 % 86400 / 60 % 60) ++ [':'])) ++
          padded 2 (wall / 1000000 % 86400 % 60) := by
      simp [timeChars, hf]
    rw [htext]
    exact getLast?_padded
  · have htext : front ++ timeChars wall = (front ++ padded 2 (wall / 1000000 % 86400 / 3600) ++
        ':' :: (padded 2 (wall / 1000000 % 86400 / 60 % 60) ++
          ':' :: (padded 2 (wall / 1000000 % 86400 % 60) ++ ['.']))) ++
            padded 6 (wall % 1000000) := by
      simp [timeChars, hf]
    rw [htext]
    exact getLast?_padded

/-- The notation of a moment begins and ends with a digit. -/
theorem Moment.isoChars_ends {m : Moment} (h : m.WellFormed) :
    (∀ c ∈ m.isoChars.head?, isAsciiDigit c = true) ∧
      ∀ c ∈ m.isoChars.getLast?, isAsciiDigit c = true := by
  rw [isoChars_eq, dateChars_append]
  refine ⟨head?_padded, ?_⟩
  rw [← dateChars_append]
  cases ho : m.offset with
  | none =>
    rw [zoneChars, List.append_nil, List.append_cons]
    exact getLast?_timeChars _
  | some x =>
    obtain ⟨hx, _⟩ := h.offset x ho
    simp only [minute, second] at hx
    rw [zoneChars, offsetChars_minutes (by omega)]
    generalize dateChars (Date.ofDayNumber (m.wall.toNat / 86400000000)) = date
    generalize timeChars m.wall.toNat = time
    generalize (if x < 0 then '-' else '+') = sign
    have htext (hours minutes : List Char) :
        date ++ 'T' :: (time ++ sign :: (hours ++ ':' :: minutes)) =
        (date ++ 'T' :: (time ++ sign :: (hours ++ [':']))) ++ minutes := by simp
    rw [htext]
    exact getLast?_padded

namespace Instant

variable {a b : String} {t : Instant} {m : Moment}

/-- Blanks around a text that has none at its ends are passed over. -/
theorem parse_between {cs : List Char} (ha : isAllBlank a = true) (hb : isAllBlank b = true)
    (hne : cs ≠ []) (hhead : ∀ c ∈ cs.head?, isBlank c = false)
    (hlast : ∀ c ∈ cs.getLast?, isBlank c = false)
    (hm : Moment.parse (String.ofList (spellZulu cs)) = .ok m) :
    Instant.parse (a ++ String.ofList cs ++ b) = m.toInstant.mapError .range := by
  have hstrip : stripWhile isBlank (a ++ String.ofList cs ++ b).toList = cs := by
    rw [String.toList_append, String.toList_append, String.toList_ofList]
    exact stripWhile_append (List.all_eq_true.mp ha) (List.all_eq_true.mp hb) hne hhead hlast
  rw [Instant.parse, hstrip, hm]
  rfl

/-- **The notation of a moment between blanks gives its instant.** -/
theorem parse_isoText (h : m.WellFormed) (ha : isAllBlank a = true) (hb : isAllBlank b = true) :
    Instant.parse (a ++ m.isoText ++ b) = m.toInstant.mapError .range := by
  obtain ⟨hhead, hlast⟩ := Moment.isoChars_ends h
  have hne : m.isoChars ≠ [] := by
    rw [isoChars_eq]
    simp
  have hzulu : spellZulu m.isoChars = m.isoChars := by
    have hdigit : m.isoChars.getLast? ≠ some 'Z' := fun hz => absurd (hlast 'Z' hz) (by decide)
    simp [spellZulu, hdigit]
  apply parse_between ha hb hne
  · exact fun c hc => isBlank_of_isAsciiDigit (hhead c hc)
  · exact fun c hc => isBlank_of_isAsciiDigit (hlast c hc)
  · rw [hzulu]
    exact Moment.parse_isoText h

theorem isoChars_toMoment (t : Instant) :
    t.toMoment.isoChars = wallChars t.micros.toNat ++ ['+', '0', '0', ':', '0', '0'] := by
  have hzero : offsetChars 0 = ['0', '0', ':', '0', '0'] := by decide
  simp [Moment.isoChars, Instant.toMoment, hzero]

/-- Universal time is written with a distance of zero. -/
theorem isoText_eq (t : Instant) :
    t.isoText = String.ofList (wallChars t.micros.toNat) ++ "+00:00" := by
  rw [Instant.isoText, Moment.isoText, isoChars_toMoment, String.ofList_append]

/-- **Universal time written with a `Z` gives the instant that it shows.** -/
theorem parse_zulu (h : inCalendar t.micros = true) (ha : isAllBlank a = true)
    (hb : isAllBlank b = true) :
    Instant.parse (a ++ (String.ofList (wallChars t.micros.toNat) ++ "Z") ++ b) = .ok t := by
  obtain ⟨hhead, _⟩ := Moment.isoChars_ends (m := ⟨t.micros, none⟩) ⟨h, nofun⟩
  have hne : wallChars t.micros.toNat ≠ [] := by simp [wallChars_eq]
  have hzulu : spellZulu (wallChars t.micros.toNat ++ ['Z']) = t.toMoment.isoChars := by
    simp [spellZulu, isoChars_toMoment]
  have htext : String.ofList (wallChars t.micros.toNat) ++ "Z" =
      String.ofList (wallChars t.micros.toNat ++ ['Z']) := by
    rw [String.ofList_append]
  rw [htext, parse_between (m := t.toMoment) ha hb (by simp)]
  · rw [Instant.toMoment_toInstant h]
    rfl
  · rw [List.head?_append_of_ne_nil _ hne]
    exact fun c hc => isBlank_of_isAsciiDigit (hhead c hc)
  · intro c hc
    obtain rfl : 'Z' = c := by simpa using hc
    decide
  · rw [hzulu]
    exact Moment.parse_isoText (t.toMoment_wellFormed h)

/-- A text without a distance from universal time shows universal time. -/
theorem parse_naive {s : String} {wall : Int} (h : Moment.parse (trim s) = .ok ⟨wall, none⟩) :
    Instant.parse s = .ok ⟨wall⟩ := by
  have hz := Moment.parse_naive_ends h
  rw [trim, String.toList_ofList] at hz
  have hzulu : spellZulu (stripWhile isBlank s.toList) =
      stripWhile isBlank s.toList := by simp [spellZulu, hz]
  rw [trim] at h
  rw [Instant.parse, hzulu, h]
  rfl

end Instant

end Cadence.Calendar
