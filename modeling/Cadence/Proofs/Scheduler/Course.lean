/-
Courses: what may go on around a store, in any order.

In a course any activity whose turn has come does its next thing, time passes, and new
activities arrive. A course leaves a trace: the requests to the store, each with who made
it.

* `Deed`, `Trace` — a request that an activity made, and all of them in order;
* `Course` — the courses, given what may arrive and when time may pass;
* `Engine.AllWait` — time is taken only by waiting;
* `Course.split` — where the course was at a request;
* `Engine.runFor_trace` — what an engine does by itself is a course in which time is taken
  only by waiting.
-/
import Cadence.Proofs.Scheduler.Moves
import Cadence.Proofs.Store.Journal

namespace Cadence

open Calendar

/-! ### Traces -/

/-- A request of an activity, and the ids that were given out in the same step: those from
`first` on and before `next`. -/
structure Deed where
  actor : Activity
  first : Nat
  next : Nat
  entry : Entry

/-- Whether an activity was begun in the step of a request. -/
def Deed.Began (d : Deed) (id : Nat) : Prop := d.first ≤ id ∧ id < d.next

/-- The requests of all activities, in order. -/
abbrev Trace := List Deed

/-- What the store was asked. -/
def Trace.journal (trace : Trace) : Journal := trace.map (·.entry)

theorem Trace.journal_append (trace trace' : Trace) :
    (trace ++ trace').journal = trace.journal ++ trace'.journal := List.map_append

namespace Engine

/-- The request that an activity makes in its next step. -/
def deed? (s : Engine) (a : Activity) : Option Deed :=
  a.phase.request?.map fun op => ⟨a, s.count, (s.step a).count, ⟨s.now, op, s.answer op⟩⟩

theorem deed?_some {s : Engine} {a : Activity} {op : Operation} (h : a.phase.request? = some op) :
    s.deed? a = some ⟨a, s.count, (s.step a).count, ⟨s.now, op, s.answer op⟩⟩ := by
  rw [deed?, h]
  rfl

theorem deed?_none {s : Engine} {a : Activity} (h : a.phase.request? = none) :
    s.deed? a = none := by
  rw [deed?, h]
  rfl

end Engine

/-! ### Courses -/

/-- The courses from one engine to another one, where only given phases may arrive and time
passes only in given engines. -/
inductive Course (arrives : Phase → Prop) (quiet : Engine → Prop) (s : Engine) :
    Trace → Engine → Prop where
  | refl : Course arrives quiet s [] s
  | act {trace : Trace} {s' : Engine} (h : Course arrives quiet s trace s')
      {a : Activity} {t : Instant}
      (hgoing : a ∈ s'.activities) (hturn : s'.turnOf? a.turn = some t) (htime : t ≤ s'.clock) :
      Course arrives quiet s (trace ++ (s'.deed? a).toList) (s'.step a)
  | pass {trace : Trace} {s' : Engine} (h : Course arrives quiet s trace s') {t : Instant}
      (hquiet : quiet s')
      (hlater : s'.clock ≤ t) (hcalendar : inCalendar t.micros = true) :
      Course arrives quiet s trace (s'.waitUntil t)
  | arrive {trace : Trace} {s' : Engine} (h : Course arrives quiet s trace s') {phase : Phase}
      (harrives : arrives phase) (t : Instant) :
        Course arrives quiet s trace (s'.spawn (.time t) phase)

namespace Course

variable {arrives : Phase → Prop} {quiet : Engine → Prop} {s s' s'' : Engine}
  {trace trace' : Trace}

theorem trans (h : Course arrives quiet s trace s') (h' : Course arrives quiet s' trace' s'') :
    Course arrives quiet s (trace ++ trace') s'' := by
  induction h' with
  | refl => rwa [List.append_nil]
  | act _ hgoing hturn htime ih =>
    rw [← List.append_assoc]
    exact ih.act hgoing hturn htime
  | pass _ hquiet hlater hcalendar ih => exact ih.pass hquiet hlater hcalendar
  | arrive _ harrives t ih => exact ih.arrive harrives t

/-- At each request of a trace the course was at some engine, in which it was the turn of
whoever made the request. -/
theorem split {before after : Trace} {d : Deed} (h : Course arrives quiet s trace s')
    (htrace : trace = before ++ d :: after) :
    ∃ (u : Engine) (a : Activity) (t : Instant), Course arrives quiet s before u ∧
      a ∈ u.activities ∧
      u.turnOf? a.turn = some t ∧ t ≤ u.clock ∧ u.deed? a = some d ∧
      Course arrives quiet (u.step a) after s' := by
  induction h generalizing after with
  | refl => cases before <;> cases htrace
  | @act trace u hcourse a t hgoing hturn htime ih =>
    cases hdeed : u.deed? a with
    | none =>
      rw [hdeed, Option.toList_none, List.append_nil] at htrace
      obtain ⟨v, b, w, hbefore, hb, hbturn, hbtime, hd, hafter⟩ := ih htrace
      refine ⟨v, b, w, hbefore, hb, hbturn, hbtime, hd, ?_⟩
      have hlonger := hafter.act hgoing hturn htime
      rwa [hdeed, Option.toList_none, List.append_nil] at hlonger
    | some e =>
      rw [hdeed, Option.toList_some] at htrace
      -- the request is the latest one, or it comes earlier
      rcases List.eq_nil_or_concat after with rfl | ⟨rest, e', rfl⟩
      · obtain ⟨rfl, heq⟩ := List.append_inj' htrace rfl
        obtain rfl := List.singleton_inj.mp heq
        exact ⟨u, a, t, hcourse, hgoing, hturn, htime, hdeed, .refl⟩
      · rw [List.concat_eq_append, ← List.cons_append, ← List.append_assoc] at htrace
        obtain ⟨hearlier, heq⟩ := List.append_inj' htrace rfl
        obtain rfl := List.singleton_inj.mp heq
        obtain ⟨v, b, w, hbefore, hb, hbturn, hbtime, hd, hafter⟩ := ih hearlier
        refine ⟨v, b, w, hbefore, hb, hbturn, hbtime, hd, ?_⟩
        have hlonger := hafter.act hgoing hturn htime
        rwa [hdeed, Option.toList_some, ← List.concat_eq_append] at hlonger
  | pass _ hquiet hlater hcalendar ih =>
    obtain ⟨v, b, w, hbefore, hb, hbturn, hbtime, hd, hafter⟩ := ih htrace
    exact ⟨v, b, w, hbefore, hb, hbturn, hbtime, hd, hafter.pass hquiet hlater hcalendar⟩
  | arrive _ harrives t ih =>
    obtain ⟨v, b, w, hbefore, hb, hbturn, hbtime, hd, hafter⟩ := ih htrace
    exact ⟨v, b, w, hbefore, hb, hbturn, hbtime, hd, hafter.arrive harrives t⟩

end Course

/-! ### The course that an engine takes by itself -/

namespace Engine

variable {s : Engine}

/-- Everything within a run waits for a later instant. -/
def AllWait (s : Engine) : Prop :=
  ∀ a ∈ s.activities, a.phase.isRun = true → ∀ t, s.turnOf? a.turn = some t → s.clock < t

theorem le_of_isBefore {x y : Instant × Activity} (h : isBefore x y = true) : x.1 ≤ y.1 := by
  show x.1.micros ≤ y.1.micros
  rw [isBefore, Bool.or_eq_true, Bool.and_eq_true, decide_eq_true_eq, decide_eq_true_eq] at h
  rcases h with hlt | ⟨heq, _⟩
  · exact Int.le_of_lt hlt
  · exact Int.le_of_eq (congrArg Instant.micros heq)

theorem le_of_not_isBefore {x y : Instant × Activity} (h : isBefore x y = false) : y.1 ≤ x.1 := by
  rw [isBefore, Bool.or_eq_false_iff, decide_eq_false_iff_not] at h
  exact Int.not_lt.mp h.1

/-- The best of a row is one of the row, and none of the row is earlier. -/
theorem foldl_isBefore_spec (xs : List (Instant × Activity)) {best : Option (Instant × Activity)}
    {x : Instant × Activity}
    (h : xs.foldl (fun best x =>
      match best with
      | none => some x
      | some b => if isBefore x b then some x else some b) best = some x) :
    (best = some x ∨ x ∈ xs) ∧ (∀ b, best = some b → x.1 ≤ b.1) ∧ ∀ y ∈ xs, x.1 ≤ y.1 := by
  induction xs generalizing best with
  | nil =>
    have hbest : best = some x := h
    exact ⟨Or.inl hbest, fun b hb => Option.some_inj.mp (hbest.symm.trans hb) ▸
      Int.le_refl _, fun _ hy => by cases hy⟩
  | cons y ys ih =>
    obtain ⟨hmem, hbest, hleast⟩ := ih h
    -- by induction on the row; what is best so far is carried along
    cases best with
    | none =>
      have hy := hbest y rfl
      refine ⟨Or.inr ?_, by simp, fun z hz => ?_⟩
      · rcases hmem with hmem | hmem
        · exact Option.some_inj.mp hmem ▸ List.mem_cons_self
        · exact List.mem_cons_of_mem y hmem
      · rcases List.mem_cons.mp hz with rfl | hz
        · exact hy
        · exact hleast z hz
    | some b =>
      cases hbefore : isBefore y b with
      | true =>
        simp only [hbefore, if_true] at hmem hbest
        have hy := hbest y rfl
        refine ⟨Or.inr ?_, fun c hc => ?_, fun z hz => ?_⟩
        · rcases hmem with hmem | hmem
          · exact Option.some_inj.mp hmem ▸ List.mem_cons_self
          · exact List.mem_cons_of_mem y hmem
        · exact Option.some_inj.mp hc ▸ Int.le_trans hy (le_of_isBefore hbefore)
        · rcases List.mem_cons.mp hz with rfl | hz
          · exact hy
          · exact hleast z hz
      | false =>
        simp only [hbefore, Bool.false_eq_true, if_false] at hmem hbest
        have hb := hbest b rfl
        refine ⟨?_, hbest, fun z hz => ?_⟩
        · rcases hmem with hmem | hmem
          · exact Or.inl hmem
          · exact Or.inr (List.mem_cons_of_mem y hmem)
        · rcases List.mem_cons.mp hz with rfl | hz
          · exact Int.le_trans hb (le_of_not_isBefore hbefore)
          · exact hleast z hz

/-- The next turn is that of an activity that is going on, and no other one may go on earlier. -/
theorem next?_spec {t : Instant} {a : Activity} (h : s.next? = some (t, a)) :
    a ∈ s.activities ∧ s.turnOf? a.turn = some t ∧
      ∀ b ∈ s.activities, ∀ u, s.turnOf? b.turn = some u → t ≤ u := by
  obtain ⟨hmem, _, hleast⟩ := foldl_isBefore_spec _ h
  rcases hmem with hmem | hmem
  · cases hmem
  · obtain ⟨b, hb, hturn⟩ := List.mem_filterMap.mp hmem
    obtain ⟨u, hu, heq⟩ := Option.map_eq_some_iff.mp hturn
    obtain ⟨rfl, rfl⟩ := Prod.mk.inj heq
    refine ⟨hb, hu, fun c hc v hv => ?_⟩
    exact hleast (v, c) (List.mem_filterMap.mpr ⟨c, hc, by rw [hv]; rfl⟩)

/-- Where something has been found, or there is something to find, something is found. -/
theorem foldl_isBefore_isSome (xs : List (Instant × Activity)) {best : Option (Instant × Activity)}
    (h : best.isSome = true ∨ xs ≠ []) :
    (xs.foldl (fun best x =>
      match best with
      | none => some x
      | some b => if isBefore x b then some x else some b) best).isSome = true := by
  induction xs generalizing best with
  | nil => exact h.resolve_right fun hne => hne rfl
  | cons x xs ih =>
    refine ih (Or.inl ?_)
    cases best with
    | none => rfl
    | some b =>
      simp only
      split <;> rfl

/-- As long as it is somebody's turn at some instant there is a next one. -/
theorem next?_isSome {t : Instant} {a : Activity} (ha : a ∈ s.activities)
    (hturn : s.turnOf? a.turn = some t) :
    ∃ x, s.next? = some x := by
  refine Option.isSome_iff_exists.mp (foldl_isBefore_isSome _ (Or.inr ?_))
  exact List.ne_nil_of_mem (List.mem_filterMap.mpr ⟨a, ha, by rw [hturn]; rfl⟩)

theorem waitUntil_of_le {t : Instant} (h : t ≤ s.clock) : s.waitUntil t = s := by
  have hclock : ¬ s.clock < t := Int.not_lt.mpr h
  show { s with world := { s.world with clock := if s.clock < t then t else s.clock } } = s
  rw [if_neg hclock]
  rfl

theorem waitUntil_clock {t : Instant} (h : s.clock ≤ t) : (s.waitUntil t).clock = t := by
  show (if s.clock < t then t else s.clock) = t
  split_ifs with hlt
  · rfl
  · have hmicros : s.clock.micros = t.micros := Int.le_antisymm h (Int.not_lt.mp hlt)
    cases hs : s.clock
    cases t
    simp_all

theorem clock_le_waitUntil (s : Engine) (t : Instant) : s.clock ≤ (s.waitUntil t).clock := by
  show s.clock.micros ≤ (if s.clock < t then t else s.clock).micros
  split_ifs with hlt
  · exact Int.le_of_lt hlt
  · exact Int.le_refl _

theorem IsOrderly.waitUntil (h : s.IsOrderly) (t : Instant) : (s.waitUntil t).IsOrderly :=
  ⟨h.single, h.id_lt⟩

/-- What may go on at an instant may still go on when that instant has come. -/
theorem turnOf?_waitUntil {t u : Instant} {turn : Turn} (h : s.turnOf? turn = some u) (hu : u ≤ t) :
    ∃ v, (s.waitUntil t).turnOf? turn = some v ∧ v ≤ (s.waitUntil t).clock := by
  have ht : t ≤ (s.waitUntil t).clock := by
    show t.micros ≤ (if s.clock < t then t else s.clock).micros
    split_ifs with hlt
    · exact Int.le_refl _
    · exact Int.not_lt.mp hlt
  cases turn with
  | time v =>
    obtain rfl : v = u := Option.some_inj.mp h
    exact ⟨v, rfl, Int.le_trans hu ht⟩
  | timeOrStop v =>
    by_cases hstop : s.stopping = true
    · exact ⟨(s.waitUntil t).clock, congrArg some (if_pos hstop), Int.le_refl _⟩
    · obtain rfl : v = u := Option.some_inj.mp ((congrArg some (if_neg hstop)).symm.trans h)
      exact ⟨v, congrArg some (if_neg hstop), Int.le_trans hu ht⟩
  | after others =>
    refine ⟨(s.waitUntil t).clock, ?_, Int.le_refl _⟩
    show (if others.any s.isGoing then none else some _) = _
    -- time does not change who is going on
    have hnone : ¬ others.any s.isGoing = true := by
      intro hany
      rw [turnOf?, if_pos hany] at h
      cases h
    rw [if_neg hnone]

/-- The trace that an engine leaves by itself. -/
def traceFor (s : Engine) (ids : List Nat) : Nat → Trace
  | 0 => []
  | fuel + 1 =>
    if ids.any s.isGoing then
      match s.next? with
      | none => []
      | some (t, a) =>
        ((s.waitUntil t).deed? a).toList ++ ((s.waitUntil t).step a).traceFor ids fuel
    else []

/-- One thing after another, in the order of the turns. -/
theorem runFor_succ (ids : List Nat) (fuel : Nat) :
    s.runFor ids (fuel + 1) = s ∧ s.traceFor ids (fuel + 1) = [] ∨ ∃ t a, s.next? = some (t, a) ∧
      s.runFor ids (fuel + 1) = ((s.waitUntil t).step a).runFor ids fuel ∧
      s.traceFor ids (fuel + 1) =
        ((s.waitUntil t).deed? a).toList ++ ((s.waitUntil t).step a).traceFor ids fuel := by
  rw [runFor, traceFor]
  split_ifs
  · cases hnext : s.next? with
    | none => exact Or.inl ⟨rfl, rfl⟩
    | some x => exact Or.inr ⟨x.1, x.2, rfl, rfl, rfl⟩
  · exact Or.inl ⟨rfl, rfl⟩

/-- Time never goes back. -/
theorem clock_le_runFor (hs : s.IsOrderly) (ids : List Nat) (fuel : Nat) :
    s.clock ≤ (s.runFor ids fuel).clock := by
  induction fuel generalizing s with
  | zero => exact Int.le_refl _
  | succ fuel ih =>
    rcases s.runFor_succ ids fuel with ⟨heq, _⟩ | ⟨t, a, hnext, heq, _⟩
    · rw [heq]
      exact Int.le_refl _
    · obtain ⟨m, _, hbecomes⟩ := step_moves (hs.waitUntil t) (next?_spec hnext).1
      rw [heq]
      refine Int.le_trans (s.clock_le_waitUntil t) ?_
      rw [← hbecomes.clock]
      exact ih hbecomes.orderly

/-- **What an engine does by itself, up to the end of the calendar, is a course in which
time is taken only by waiting.** -/
theorem runFor_trace (arrives : Phase → Prop) (hs : s.IsOrderly) (hstart : 0 ≤ s.clock.micros)
    (ids : List Nat) (fuel : Nat) (hend : (s.runFor ids fuel).clock.micros < calendarMicros) :
    Course arrives AllWait s (s.traceFor ids fuel) (s.runFor ids fuel) := by
  induction fuel generalizing s with
  | zero => exact .refl
  | succ fuel ih =>
    rcases s.runFor_succ ids fuel with ⟨heq, htrace⟩ | ⟨t, a, hnext, heq, htrace⟩
    · rw [heq, htrace]
      exact .refl
    · obtain ⟨hgoing, hturn, hfirst⟩ := next?_spec hnext
      obtain ⟨m, _, hbecomes⟩ := step_moves (hs.waitUntil t) hgoing
      have hclock : (s.waitUntil t).clock ≤ (((s.waitUntil t).step a).runFor ids fuel).clock :=
        hbecomes.clock ▸ clock_le_runFor hbecomes.orderly ids fuel
      rw [heq] at hend
      rw [heq, htrace]
      -- time passes only if no turn has come yet
      have hwait : Course arrives AllWait s [] (s.waitUntil t) := by
        by_cases hlt : s.clock < t
        · have heqt := waitUntil_clock (Int.le_of_lt hlt)
          refine Course.refl.pass (fun b hb _ u hu => Int.lt_of_lt_of_le hlt (hfirst b hb u hu))
            (Int.le_of_lt hlt) ?_
          rw [heqt] at hclock
          have hpos : s.clock.micros < t.micros := hlt
          have hle : t.micros ≤ _ := hclock
          rw [inCalendar, Bool.and_eq_true, decide_eq_true_eq, decide_eq_true_eq]
          omega
        · rw [waitUntil_of_le (Int.not_lt.mp hlt)]
          exact .refl
      obtain ⟨v, hv, hle⟩ := turnOf?_waitUntil hturn (Int.le_refl _)
      have hact := hwait.act hgoing hv hle
      have hstart' : 0 ≤ ((s.waitUntil t).step a).clock.micros := by
        rw [hbecomes.clock]
        exact Int.le_trans hstart (s.clock_le_waitUntil t)
      exact hact.trans (ih hbecomes.orderly hstart' hend)

theorem runFor_course (arrives : Phase → Prop) (hs : s.IsOrderly) (hstart : 0 ≤ s.clock.micros)
    (ids : List Nat) (fuel : Nat) (hend : (s.runFor ids fuel).clock.micros < calendarMicros) :
    ∃ trace, Course arrives AllWait s trace (s.runFor ids fuel) :=
  ⟨_, runFor_trace arrives hs hstart ids fuel hend⟩

end Engine

end Cadence
