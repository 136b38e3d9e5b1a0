/-
The command that checks a schedule.

It looks from the last run, or from a minute ago, for the next occurrence of the schedule,
and asks on its own whether the schedule is due.  Both come from the same instant, so it
tells what the scheduler makes of a flow.

* `Cron.nextRunAfter_cases` — the next occurrence is the first one, or there is none;
* `Cron.isDue_of_reference` — the verdict, by the next occurrence;
* `shownCheck`, `Desk.perform_check` — how the command ends, and what it writes, by the next
  occurrence;
* `Exit.code`, `StoredFlow.Carries` — the code that a command ends with, and a flow with the
  data that is checked;
* `Desk.check_agrees` — the command says DUE just if the scheduler runs such a flow, and
  fails just if there is no occurrence after the instant that it looks from.
-/
import Cadence.Proofs.Calendar.Iso
import Cadence.Proofs.Command.Pieces
import Cadence.Proofs.Cron.Enumeration
import Cadence.Proofs.Cron.Verdict
import Cadence.Proofs.Scheduler.Due

namespace Cadence

open Calendar

/-! ### The next occurrence -/

namespace Cron

variable {expression : String} {a now : Instant} {last : Option Moment}

/-- The next occurrence is the first one after an instant; otherwise there is none. -/
theorem nextRunAfter_cases (expression : String) (ha : 0 ≤ a.micros) (hlast : a < lastSecond) :
    (∃ (p : Pattern) (t : Instant), p.Reads expression ∧ IsNext p.Occurs a t ∧
      nextRunAfter expression a = .ok t) ∨
    ∃ fault : NextFault, nextRunAfter expression a = .error fault ∧
      ((∃ e, Schedule.parse expression = .error e) ∨ ∀ t, Occurs expression t → t ≤ a) := by
  cases hparse : Schedule.parse expression with
  | error e =>
    obtain ⟨fault, hfault⟩ := nextRunAfter_unreadable hparse
    exact Or.inr ⟨fault, hfault, Or.inl ⟨e, rfl⟩⟩
  | ok s =>
    obtain ⟨p, hreads, hp⟩ := Schedule.parse_pattern hparse
    have hnone (h : ∀ t, s.Occurs t → t ≤ a) : ∀ t, Occurs expression t → t ≤ a := by
      rintro t ⟨s', hs', ht⟩
      obtain rfl := Except.ok.inj (hparse.symm.trans hs')
      exact h t ht
    have hnext := nextRunAfter_nextIs hparse ha hlast
    generalize nextRunAfter expression a = answer at hnext
    cases hnext with
    | found first =>
      exact Or.inl
        ⟨p, _, hreads, ⟨(hp _).mp first.holds, first.after,
        fun u hu => first.first u ((hp u).mpr hu)⟩, rfl⟩
    | never none => exact Or.inr ⟨_, rfl, Or.inr (hnone none)⟩
    | lastSecond late none => exact Or.inr ⟨_, rfl, Or.inr (hnone none)⟩
    | beforeCalendar early => omega

/-- Whether a schedule is due is told by its next occurrence. -/
theorem isDue_of_reference (h : reference last now = .ok a) :
    isDue expression last now = .ok (match nextRunAfter expression a with
      | .ok next => ⟨decide (next ≤ now), none⟩
      | .error fault => ⟨false, some fault⟩) := by
  unfold isDue
  rw [h]
  cases hnext : nextRunAfter expression a <;> simp only [bind, Except.bind, hnext] <;> rfl

end Cron

/-! ### The command -/

/-- What a check says of an occurrence at a time. -/
def checkWord (next time : Instant) : String := if next ≤ time then "DUE" else "WAIT"

theorem checkWord_cases (next time : Instant) :
    checkWord next time = "DUE" ∨ checkWord next time = "WAIT" := by
  unfold checkWord
  split
  · exact Or.inl rfl
  · exact Or.inr rfl

theorem checkWord_eq_due {next time : Instant} : checkWord next time = "DUE" ↔ next ≤ time := by
  unfold checkWord
  split
  · next hle => exact iff_of_true rfl hle
  · next hlt => exact iff_of_false (by decide) hlt

/-- How the check of a schedule ends, and what is written, by the next occurrence. -/
def shownCheck (schedule : String) (time : Instant) :
    Except Cron.NextFault Instant → Exit × List String
  | .ok next => (.success, [s!"{checkWord next time} (next run {next.isoText})"])
  | .error (.range f) => (.broken (.range f), [])
  | .error .lastSecond => (.broken .lastSecond, [])
  | .error fault => (.failure, [Cron.warning schedule fault])

/-- Optional texts that stand for optional instants. -/
abbrev Gives (text : Option String) (t : Option Instant) : Prop :=
  Option.Rel (fun s t => Instant.parse s = .ok t) text t

variable {d : Desk} {text lastRun now : Option String} {last given : Option Instant}
  {schedule : String}

theorem Gives.inCalendar (h : Gives text last) :
    ∀ t ∈ last, Calendar.inCalendar t.micros = true := by
  cases h with
  | none => nofun
  | some hparse =>
    intro t ht
    obtain rfl := Option.some_inj.mp ht
    exact Instant.parse_inCalendar hparse

theorem Act.run_timestamp {t : Option Instant} (h : Gives text t) (d : Desk) :
    (Command.timestamp text).run.run d = (.ok t, d) := by
  cases h with
  | none => rfl
  | @some s t hs =>
    have hempty : Instant.parse "" ≠ .ok t := by
      rw [show Instant.parse "" = .error (.moment (.malformed "")) by decide +kernel]
      nofun
    have hne : s.isEmpty = false := by
      rw [Bool.eq_false_iff, Ne, String.isEmpty_iff]
      rintro rfl
      exact hempty hs
    have hfilter : (some s).filter (!·.isEmpty) = some s := by
      rw [Option.filter_some, hne]
      rfl
    unfold Command.timestamp
    rw [hfilter]
    simp only [hs]
    rfl

/-- A schedule is checked from the instant that the scheduler looks from. -/
theorem Desk.perform_check (hlast : Gives lastRun last) (hnow : Gives now given) {a : Instant}
    (hreference : Cron.reference (last.map Instant.toMoment) (given.getD d.world.clock) = .ok a) :
    let x := d.perform (Command.act (.check schedule lastRun now))
    (x.1, x.2.1) = shownCheck schedule (given.getD d.world.clock)
        (Cron.nextRunAfter schedule a) := by
  intro x
  let clean : Desk := { d with lines := [] }
  let time := given.getD clean.world.clock
  have hrange {α : Type} {e : Except RangeFault α} {b : α} (h : e = .ok b) :
      (Command.inRange e).run.run clean = (.ok b, clean) := by rw [h]; rfl
  have hverdict :
      (Command.inRange (Cron.isDue schedule (last.map Instant.toMoment) time)).run.run clean =
      _ :=
    hrange (Cron.isDue_of_reference hreference)
  -- the timestamps and the instant to look from are there, so only the next occurrence counts
  have hact : (Command.act (.check schedule lastRun now)).run.run clean = _ :=
    (Act.run_bind_ok (Act.run_timestamp hnow clean)).trans <| (Act.run_get _ clean).trans <|
      (Act.run_bind_ok (Act.run_timestamp hlast clean)).trans (Act.run_bind_ok (hrange hreference))
  cases hnext : Cron.nextRunAfter schedule a with
  | ok next =>
    rw [hnext] at hact hverdict
    have hx : x = _ := Desk.perform_ok (hact.trans (Act.run_bind_ok hverdict))
    rw [hx]
    simp only [shownCheck, checkWord, decide_eq_true_eq]
    rfl
  | error fault =>
    rw [hnext] at hact
    cases fault with
    | range f => exact congrArg (fun y => (y.1, y.2.1)) (Desk.perform_error hact)
    | lastSecond => exact congrArg (fun y => (y.1, y.2.1)) (Desk.perform_error hact)
    | _ => exact congrArg (fun y => (y.1, y.2.1)) (Desk.perform_error hact)

/-! ### The scheduler -/

/-- A flow that is switched on, with a schedule and an end of its latest run. -/
structure StoredFlow.Carries (f : StoredFlow) (schedule : String)
    (last : Option Instant) : Prop where
  enabled : f.definition.enabled = true
  schedule : f.definition.schedule = schedule
  lastRun : Option.Rel (fun m t => m.toInstant = .ok t) f.lastRunAt last

/-- The instant that a schedule is looked at from: the last run, or a minute before a time. -/
def Cron.lookFrom (last : Option Instant) (time : Instant) : Instant :=
  last.getD (time.after (-Cron.lookback))

theorem Cron.reference_eq {lastRun : Option Moment} {time : Instant}
    (hlast : Option.Rel (fun m t => m.toInstant = .ok t) lastRun last)
    (hback : inCalendar (time.after (-Cron.lookback)).micros = true) :
    Cron.reference lastRun time = .ok (Cron.lookFrom last time) := by
  cases hlast with
  | none => exact if_pos hback
  | some h => exact h

/-- The instant that a schedule is looked at from lies in the calendar, before its last second. -/
theorem Cron.lookFrom_bounds {time : Instant}
    (hlast : ∀ t ∈ last, inCalendar t.micros = true) (htime : inCalendar time.micros = true)
    (hback : inCalendar (time.after (-Cron.lookback)).micros = true)
    (hon : ∀ t ∈ last, inCalendar (t.after second).micros = true) :
    0 ≤ (Cron.lookFrom last time).micros ∧ Cron.lookFrom last time < Cron.lastSecond := by
  simp only [inCalendar_iff, Instant.after, Cron.lookback, second] at hlast htime hback hon
  cases last with
  | none =>
    show 0 ≤ time.micros + -(60 * second) ∧ time.micros + -(60 * second) < calendarMicros - second
    simp only [second]
    omega
  | some t =>
    have ht := hlast t rfl
    have hnext := hon t rfl
    show 0 ≤ t.micros ∧ t.micros < calendarMicros - second
    simp only [second]
    omega

variable {f : StoredFlow} {time : Instant}

/-- The scheduler judges such a flow by the next occurrence. -/
theorem StoredFlow.Carries.judge_found (h : f.Carries schedule last)
    (hback : inCalendar (time.after (-Cron.lookback)).micros = true) {next : Instant}
    (hnext : Cron.nextRunAfter schedule (Cron.lookFrom last time) = .ok next) :
    f.judge time = .ok ⟨decide (next ≤ time), none⟩ := by
  obtain ⟨hoccurs, _⟩ := Cron.nextRunAfter_occurs hnext
  have hscheduled : f.IsScheduled := ⟨h.enabled, h.schedule ▸ hoccurs.not_blank⟩
  rw [judge_of_scheduled hscheduled, Cron.isDue_of_reference (Cron.reference_eq h.lastRun hback),
    h.schedule, hnext]

/-- Without a next occurrence such a flow is not run. -/
theorem StoredFlow.Carries.judge_none (h : f.Carries schedule last)
    (hback : inCalendar (time.after (-Cron.lookback)).micros = true) {fault : Cron.NextFault}
    (hnext : Cron.nextRunAfter schedule (Cron.lookFrom last time) = .error fault) :
    ∃ v, f.judge time = .ok v ∧ v.due = false := by
  by_cases hscheduled : f.IsScheduled
  · rw [judge_of_scheduled hscheduled, Cron.isDue_of_reference (Cron.reference_eq h.lastRun hback),
      h.schedule, hnext]
    exact ⟨_, rfl, rfl⟩
  · exact ⟨_, judge_of_not_scheduled hscheduled, rfl⟩

/-! ### The command line -/

/-- The command line that checks a schedule after a last run, at a time. -/
theorem Command.parse_check {last now : String} (schedule : String)
    (h : Arguments.isOption schedule = false) :
    parse ["cron", "check", schedule, "--last-run", last, "--now", now] =
      some (.check schedule (some last) (some now)) := by
  rw [parse_group (by decide +kernel) (by decide +kernel) rfl]
  show leaf ["--last-run", "--now"] [schedule, "--last-run", last, "--now", now] _ = _
  rw [leaf, Arguments.read_mixed h,
    Arguments.read_value (by decide +kernel) (by decide +kernel) (by decide +kernel)
      (by decide +kernel),
    Arguments.read_value (by decide +kernel) (by decide +kernel) (by decide +kernel)
      (by decide +kernel)]
  rfl

/-! ### The command and the scheduler -/

/-- The code that the process of a command ends with. -/
def Exit.code : Exit → Nat
  | .success => 0
  | .failure => 1
  | .misuse => 2
  | .broken _ => 1

namespace Desk

variable {args : List String}

/-- **The command that checks a schedule tells what the scheduler does.**  It succeeds, and
then it shows the first occurrence after the last run, or after the minute before now, and
says DUE just if that occurrence is not after now, which is just if the scheduler runs an
enabled flow with that schedule and that last run now.  Or it fails, just if the schedule
cannot be read or has no occurrence after that instant, and then the scheduler does not run
such a flow. -/
theorem check_agrees (hargs : Command.parse args = some (.check schedule lastRun now))
    (hlast : Gives lastRun last) (hnow : Gives now given)
    (hclock : inCalendar d.world.clock.micros = true)
    (hback : inCalendar ((given.getD d.world.clock).after (-Cron.lookback)).micros = true)
    (hon : ∀ t ∈ last, inCalendar (t.after second).micros = true) :
    let time := given.getD d.world.clock
    let start := Cron.lookFrom last time
    let x := d.shown args
    (x.1.code = 0 ∨ x.1.code = 1) ∧
    (x.1.code = 0 → ∃ (p : Cron.Pattern) (next : Instant) (word : String),
      p.Reads schedule ∧ Cron.IsNext p.Occurs start next ∧
      x = plain (.success, [s!"{word} (next run {next.isoText})"]) ∧
        (word = "DUE" ∨ word = "WAIT") ∧
      (word = "DUE" ↔ next ≤ time) ∧
      ∀ f : StoredFlow, f.Carries schedule last → ∃ v, f.judge time = .ok v ∧
        (v.due = true ↔ word = "DUE")) ∧
    (x.1.code = 1 ↔ (∃ e, Cron.Schedule.parse schedule = .error e) ∨
      ∀ t, Cron.Occurs schedule t → t ≤ start) ∧
    (x.1.code = 1 → ∀ f : StoredFlow, f.Carries schedule last → ∃ v, f.judge time = .ok v ∧
        v.due = false) := by
  intro time start x
  have htime : inCalendar time.micros = true := by
    cases hnow with
    | none => exact hclock
    | some hparse => exact Instant.parse_inCalendar hparse
  obtain ⟨hpos, hlate⟩ := Cron.lookFrom_bounds hlast.inCalendar htime hback hon
  have hreference : Cron.reference (last.map Instant.toMoment) time = .ok start := by
    refine Cron.reference_eq ?_ hback
    cases last with
    | none => exact .none
    | some t => exact .some (Instant.toMoment_toInstant (hlast.inCalendar t rfl))
  have hx : x = plain (shownCheck schedule time (Cron.nextRunAfter schedule start)) := by
    rw [← perform_check hlast hnow hreference]
    exact shown_of_parse hargs
  obtain ⟨p, next, hreads, hfirst, hnext⟩ | ⟨fault, hnext, hnone⟩ :=
    Cron.nextRunAfter_cases schedule hpos hlate
  · rw [hnext] at hx
    have hcode : x.1.code = 0 := by rw [hx]; rfl
    obtain ⟨hoccurs, hafter⟩ := Cron.nextRunAfter_occurs hnext
    have hfalse : ¬ ((∃ e, Cron.Schedule.parse schedule = .error e) ∨
        ∀ t, Cron.Occurs schedule t → t ≤ start) := by
      rintro (⟨e, he⟩ | hall)
      · obtain ⟨s, hs, _⟩ := hoccurs
        cases hs.symm.trans he
      · exact Int.not_le.mpr hafter (hall next hoccurs)
    refine ⟨Or.inl hcode, fun _ =>
      ⟨p, next, checkWord next time, hreads, hfirst, hx, checkWord_cases next time,
      checkWord_eq_due, fun f hf => ⟨_, hf.judge_found hback hnext, ?_⟩⟩,
      iff_of_false (fun h => by cases hcode.symm.trans h) hfalse,
        fun h => by cases hcode.symm.trans h⟩
    rw [checkWord_eq_due]
    exact decide_eq_true_iff
  · rw [hnext] at hx
    have hcode : x.1.code = 1 := by
      rw [hx]
      cases fault <;> rfl
    exact ⟨Or.inr hcode, fun h => (by cases hcode.symm.trans h), iff_of_true hcode hnone,
      fun _ f hf => hf.judge_none hback hnext⟩

/-- Five minutes after its last run a schedule of every fifth minute is due, for the command
and for the scheduler, also by a clock two hours ahead; an expression that cannot be read is
not. -/
theorem check_agrees_fiveMinutes :
    let noon : Instant := ⟨dayNumber ⟨2025, 1, 1⟩ * day + 12 * hour⟩
    let last : Instant := ⟨dayNumber ⟨2025, 1, 1⟩ * day + 12 * hour - 5 * minute⟩
    let desk : Desk := ⟨⟨fun _ => none, fun _ => true, fun _ => none⟩, false,
      .start noon (fun _ _ => ⟨0, .error ⟨"ConnectError", ""⟩⟩) toString, .empty default, 0, []⟩
    let args (schedule : String) :=
      ["cron", "check", schedule, "--last-run", "2025-01-01T11:55:00Z", "--now",
        "2025-01-01T14:00:00+02:00"]
    let flow (schedule : String) : StoredFlow :=
      ⟨"a", ⟨"a", schedule, true, []⟩, last.toMoment, last.toMoment, some last.toMoment⟩
    let due := "DUE"
    Gives (some "2025-01-01T11:55:00Z") (some last) ∧
      Gives (some "2025-01-01T14:00:00+02:00") (some noon) ∧
      (∀ schedule, (flow schedule).Carries schedule (some last)) ∧
      (∃ next : Instant, (desk.shown (args "*/5 * * * *")) =
        plain (.success, [s!"{due} (next run {next.isoText})"])) ∧
      (∃ v, (flow "*/5 * * * *").judge noon = .ok v ∧ v.due = true) ∧
      (desk.shown (args "every day")).1.code = 1 ∧
      ∃ v, (flow "every day").judge noon = .ok v ∧ v.due = false := by
  intro noon last desk args flow due
  have hlast : Gives (some "2025-01-01T11:55:00Z") (some last) := .some (by decide +kernel)
  have hnow : Gives (some "2025-01-01T14:00:00+02:00") (some noon) := .some (by decide +kernel)
  have hcarries (schedule : String) : (flow schedule).Carries schedule (some last) :=
    ⟨rfl, rfl, .some (Instant.toMoment_toInstant (by decide +kernel))⟩
  have hclock : inCalendar desk.world.clock.micros = true := by decide +kernel
  have hback : inCalendar (noon.after (-Cron.lookback)).micros = true := by decide +kernel
  have hon : ∀ t ∈ some last, inCalendar (t.after second).micros = true := by
    intro t ht
    obtain rfl := Option.some_inj.mp ht
    decide +kernel
  have hoccurs : Cron.nextRunAfter "*/5 * * * *" last = .ok noon := by decide +kernel
  have hargs : Command.parse (args "*/5 * * * *") = some _ :=
    Command.parse_check "*/5 * * * *" (by decide +kernel)
  obtain ⟨hcode, hfound, hnone, _⟩ := check_agrees (d := desk) hargs hlast hnow hclock hback hon
  have hsuccess : (desk.shown (args "*/5 * * * *")).1.code = 0 := by
    refine hcode.resolve_right fun hfailure => ?_
    obtain ⟨hoccurs, hafter⟩ := Cron.nextRunAfter_occurs hoccurs
    rcases hnone.mp hfailure with ⟨e, he⟩ | hall
    · obtain ⟨s, hs, _⟩ := hoccurs
      cases hs.symm.trans he
    · exact Int.not_le.mpr hafter (hall noon hoccurs)
  obtain ⟨p, next, word, _, _, hshown, _, _, hjudged⟩ := hfound hsuccess
  obtain ⟨v, hv, hdue⟩ := hjudged _ (hcarries _)
  have hrun : (flow "*/5 * * * *").judge noon = .ok ⟨true, none⟩ := by decide +kernel
  obtain rfl := Except.ok.inj (hv.symm.trans hrun)
  obtain rfl : word = due := hdue.mp rfl
  have hother : Command.parse (args "every day") = some _ :=
    Command.parse_check "every day" (by decide +kernel)
  obtain ⟨_, _, hunread, hidle⟩ := check_agrees (d := desk) hother hlast hnow hclock hback hon
  have hfailure : (desk.shown (args "every day")).1.code = 1 :=
    hunread.mpr (Or.inl ⟨.fieldCount 2, by decide +kernel⟩)
  exact ⟨hlast, hnow, hcarries, ⟨next, hshown⟩, ⟨_, hv, rfl⟩, hfailure,
    hidle hfailure _ (hcarries _)⟩

end Desk

end Cadence
