/-
The occurrences of a schedule before a sweep.

A sweep looks for occurrences of a schedule from the end of the latest run of its flow on,
and from a minute before now on if there was no run.  So an occurrence while a run goes on
is left to that run, and one before the first run only counts for a minute.

* `Deed.Lists` — a sweep without outages lists the flows;
* `Entry.IsObliged`, `Course.obliges` — flows are listed and records are put in; in memory
  they always are;
* `Engine.Dating` — the invariant: all records in histories begin and end at instants;
* `StoredFlow.dueAt_or` — a scheduled flow is due, unless no occurrence is left to the sweep;
* `Course.occurrence_covered` — at the end of a sweep each earlier occurrence has a run that
  began at it or later, unless it was left to a run that was going on then, or came before
  the first run;
* `Trace.Misses`, `Course.occurrence_missed` — occurrences that are left so get no run of their own.
-/
import Cadence.Proofs.Scheduler.Guard
import Cadence.Proofs.Scheduler.Service
import Cadence.Proofs.Store.HistoryLaw

namespace Cadence

open Calendar

/-! ### Sweeps and stores without faults -/

/-- Whether a sweep without outages is to list the flows, given the moment that it goes by. -/
def Phase.lists (now : Option Moment) : Phase → Bool
  | .survey now' outages _ => decide (now' = now) && decide (outages = .none)
  | _ => false

/-- A sweep without outages lists the flows. -/
def Deed.Lists (d : Deed) (now : Option Moment) : Prop := d.actor.phase.lists now = true

instance (d : Deed) (now : Option Moment) : Decidable (d.Lists now) :=
  inferInstanceAs (Decidable (_ = true))

theorem Deed.Lists.phase {d : Deed} {now : Option Moment} (h : d.Lists now) :
    ∃ spawned, d.actor.phase = .survey now .none spawned := by
  unfold Deed.Lists Phase.lists at h
  split at h
  · next now' outages spawned hphase =>
    rw [Bool.and_eq_true, decide_eq_true_eq, decide_eq_true_eq] at h
    obtain ⟨rfl, rfl⟩ := h
    exact ⟨spawned, hphase⟩
  · cases h

/-- Flows are listed, and records are put in. -/
def Entry.IsObliged (e : Entry) : Prop :=
  e.operation = .all ∨ (∃ r, e.operation = .append r) → e.isAnswered = true

theorem Store.apply_memory (m : Memory) (now : Moment) (op : Operation) :
    ∃ m', ((Store.memory m).apply now op).2 = .memory m' := by
  rw [Store.apply]
  cases m.apply now op with
  | ok answered => exact ⟨_, rfl⟩
  | error e => exact ⟨_, rfl⟩

/-- A store in memory lists its flows and takes every record. -/
structure Engine.Obliges (trace : Trace) (s : Engine) : Prop where
  memory : ∃ m, s.store = .memory m
  past : ∀ d ∈ trace, d.entry.IsObliged

namespace Engine

variable {limit : Nat} {trace : Trace} {s : Engine} {a : Activity} {m : Move}

theorem obliged_of_memory {memory : Memory} (hstore : s.store = .memory memory) (op : Operation) :
    Entry.IsObliged ⟨s.now, op, s.answer op⟩ := by
  unfold answer
  rw [hstore]
  rintro (hop | ⟨r, hop⟩)
  · obtain rfl : op = .all := hop
    rfl
  · obtain rfl : op = .append r := hop
    rfl

theorem Obliges.step (h : s.Obliges trace) (hbecomes : s.Becomes a m (s.step a)) :
    (s.step a).Obliges (trace ++ (s.deed? a).toList) where
  memory := by
    obtain ⟨memory, hstore⟩ := h.memory
    cases hrequest : a.phase.request? with
    | none => exact ⟨memory, by rw [hbecomes.store, storeAfter_none hrequest, hstore]⟩
    | some op =>
      rw [hbecomes.store, storeAfter_some hrequest, hstore]
      exact Store.apply_memory memory s.now op
  past := by
    obtain ⟨memory, hstore⟩ := h.memory
    intro d hd
    rcases List.mem_append.mp hd with hd | hd
    · exact h.past d hd
    · obtain ⟨op, _, rfl⟩ := Option.map_eq_some_iff.mp (Option.mem_toList.mp hd)
      exact obliged_of_memory hstore op

end Engine

/-- **In memory flows are listed and records are put in, in every course.** -/
theorem Course.obliges {arrives : Phase → Prop} {quiet : Engine → Prop}
    (harrives : ∀ p, arrives p → p.IsArrival) {limit : Nat} {before trace : Trace} {s s' : Engine}
    (h : Course arrives quiet s trace s') (hs : s.Traced limit before) (hobliges : s.Obliges []) :
    s'.Obliges trace := by
  induction h with
  | refl => exact hobliges
  | act hcourse hgoing _ _ ih =>
    obtain ⟨m, _, hbecomes⟩ := Engine.step_moves (hcourse.traced harrives hs).orderly hgoing
    exact ih.step hbecomes
  | pass _ _ _ _ ih => exact ⟨ih.memory, ih.past⟩
  | arrive _ _ t ih => exact ⟨ih.memory, ih.past⟩

/-! ### Records have dates -/

/-- The record of a run that began and ended at instants of the calendar. -/
def RunRecord.HasInstants (r : RunRecord) : Prop :=
  ∃ b d, r.startedAt.toInstant = .ok b ∧ r.finishedAt.toInstant = .ok d

/-- A record that is put in by hand has dates. -/
def Phase.IsDating : Phase → Prop
  | .request (.append r) => r.HasInstants
  | _ => True

/-- All records that are put into histories have dates. -/
structure Engine.Dating (trace : Trace) (s : Engine) : Prop where
  going : ∀ a ∈ s.activities, a.phase.IsDating ∧ ∃ since : Instant, 0 ≤ since.micros ∧
    a.phase.IsTimed since s.clock
  past : ∀ d ∈ trace, ∀ r, d.entry.put? = some r → r.HasInstants

theorem RunRecord.Spans.hasInstants {r : RunRecord} {since b d now : Instant}
    (h : r.Spans b d) (hstart : 0 ≤ since.micros) (hsince : since ≤ b) (hnow : d ≤ now)
    (hcalendar : inCalendar now.micros = true) :
    r.HasInstants := by
  have hle : b.micros ≤ d.micros := h.le
  have hb : since.micros ≤ b.micros := hsince
  have hd : d.micros ≤ now.micros := hnow
  have hend := (inCalendar_iff.mp hcalendar).2
  refine ⟨b, d, ?_, ?_⟩
  · rw [h.started]
    exact Instant.toMoment_toInstant (inCalendar_iff.mpr ⟨by omega, by omega⟩)
  · rw [h.finished]
    exact Instant.toMoment_toInstant (inCalendar_iff.mpr ⟨by omega, by omega⟩)

namespace Engine

variable {limit : Nat} {trace : Trace} {s : Engine} {a : Activity} {m : Move}

theorem start_dating (world : Surroundings) (store : Store) (interpret : Interpreter) :
    (start world store interpret).Dating [] where
  going := fun _ hb => by cases hb
  past := fun _ hd => by cases hd

theorem Onward.isDating {turn : Turn} {phase : Phase}
    (h : s.Onward a turn phase) : phase.IsDating := by
  cases h with
  | goesOn hrow hrow' =>
    exact Phase.of_isRow hrow' (fun _ => True.intro) (fun _ => True.intro)
      (fun _ => True.intro) True.intro
  | _ => exact True.intro

theorem Begins.isDating {phase : Phase} (h : s.Begins a phase) : phase.IsDating := by
  cases h with
  | run hphase hrequest hanswer hnow hdue hf =>
    unfold runPhase
    split <;> exact True.intro
  | sweep outages hphase => exact True.intro

/-- A record that is put in has dates, by hand or as the record of a run. -/
theorem Dating.puts (h : s.Dating trace) (hclock : inCalendar s.clock.micros = true)
    (ha : a ∈ s.activities) {r : RunRecord}
    (hputs : s.puts? a = some r) : r.HasInstants := by
  have hrequest := (puts?_some hputs).1
  obtain ⟨hdating, since, hstart, htimed⟩ := h.going a ha
  cases hphase : a.phase with
  | request op =>
    rw [hphase] at hrequest hdating
    obtain rfl : op = .append r := Option.some_inj.mp hrequest
    exact hdating
  | append r' goal =>
    rw [hphase] at hrequest htimed
    cases Phase.append_request? hrequest
    obtain ⟨b, d, hb, hd, hspans⟩ := htimed
    exact hspans.hasInstants hstart hb hd hclock
  | survey now outages spawned =>
    rw [hphase] at hrequest
    cases Phase.survey_request? hrequest
  | _ =>
    rw [hphase] at hrequest
    cases hrequest

theorem Dating.step (h : s.Dating trace) (hs : s.Traced limit trace) (ha : a ∈ s.activities)
    (hm : s.Allows a m) (hbecomes : s.Becomes a m (s.step a)) :
    (s.step a).Dating (trace ++ (s.deed? a).toList) where
  going := by
    intro b hb
    rw [hbecomes.clock]
    cases hbecomes.going b hb with
    | stays hgoing hother => exact h.going b hgoing
    | moves hfate hid =>
      obtain ⟨_, since, hstart, htimed⟩ := h.going a ha
      exact ⟨(hm.onward hfate).isDating, since, hstart, htimed.moves hm hfate⟩
    | begins hbegun hid hturn =>
      have hbegins := hm.begins hbegun
      exact ⟨hbegins.isDating, s.clock, (inCalendar_iff.mp hs.clock).1,
        .begins (Int.le_refl _) hbegins⟩
  past := by
    intro d hd r hput
    rcases mem_trace_step hd with hd | ⟨_, hdeed⟩
    · exact h.past d hd r hput
    · refine h.puts hs.clock ha ?_
      rw [puts?, hdeed]
      exact hput

end Engine

/-- **All records that are put into histories have dates, in every course in which those put
in by hand have.** -/
theorem Course.dating {arrives : Phase → Prop} {quiet : Engine → Prop}
    (harrives : ∀ p, arrives p → p.IsArrival ∧ p.IsDating) {limit : Nat}
    {before trace : Trace} {s s' : Engine} (h : Course arrives quiet s trace s')
    (htraced : s.Traced limit before) (hs : s.Dating before) :
    s'.Dating (before ++ trace) := by
  induction h with
  | refl => rwa [List.append_nil]
  | act hcourse hgoing _ _ ih =>
    have hs' := hcourse.traced (fun p hp => (harrives p hp).1) htraced
    obtain ⟨m, hm, hbecomes⟩ := Engine.step_moves hs'.orderly hgoing
    rw [← List.append_assoc]
    exact ih.step hs' hgoing hm hbecomes
  | pass _ _ hlater _ ih =>
    refine ⟨fun b hb => ?_, ih.past⟩
    obtain ⟨hdating, since, hstart, htimed⟩ := ih.going b hb
    rw [Engine.waitUntil_clock hlater]
    exact ⟨hdating, since, hstart, htimed.pass hlater⟩
  | arrive hcourse hphase t ih =>
    refine ⟨fun b hb => ?_, ih.past⟩
    rcases List.mem_append.mp hb with hb | hb
    · exact ih.going b hb
    · obtain rfl := List.mem_singleton.mp hb
      have hclock := (hcourse.traced (fun p hp => (harrives p hp).1) htraced).clock
      exact ⟨(harrives _ hphase).2, _, (inCalendar_iff.mp hclock).1,
        .arrival (harrives _ hphase).1.idle.1⟩

/-! ### The latest run of a flow -/

namespace Journal

variable {j : Journal} {id : String} {f : StoredFlow} {r : RunRecord}

theorem mem_putUnder : r ∈ j.putUnder id ↔ (∃ e ∈ j, e.put? = some r) ∧ r.flowId = id := by
  rw [putUnder, List.mem_filter, List.mem_filterMap, decide_eq_true_eq]

theorem mem_appended {runs : List RunRecord} (h : r ∈ j.appended id runs) :
    r ∈ runs ∨ r ∈ j.putUnder id := by
  induction j generalizing runs with
  | nil => exact Or.inl h
  | cons e j ih =>
    rcases @ih (e.appended id runs) h with hmem | hmem
    · unfold Entry.appended at hmem
      cases hanswered : e.isAnswered with
      | false =>
        rw [hanswered] at hmem
        exact Or.inl hmem
      | true =>
        rw [hanswered, if_pos rfl] at hmem
        refine Operation.appended_preserves (P := fun r => r ∈ runs ∨ r ∈ putUnder id (e :: j)) ?_
          (fun _ => Or.inl) r hmem
        intro run hop hid
        exact Or.inr
          (mem_putUnder.mpr
          ⟨⟨e, List.mem_cons_self, Entry.put?_some.mpr ⟨hop, hanswered⟩⟩, hid⟩)
    · obtain ⟨⟨e', he', hput⟩, hid⟩ := mem_putUnder.mp hmem
      exact Or.inr (mem_putUnder.mpr ⟨⟨e', List.mem_cons_of_mem e he', hput⟩, hid⟩)

/-- The end of the latest run that a stored flow remembers is that of the run at the head of
its history. -/
theorem latest_of_stored (hstored : j.stored id = some f) {last : Moment}
    (hlast : f.lastRunAt = some last) :
    ∃ r, (j.appended id []).head? = some r ∧ r.finishedAt = last := by
  obtain ⟨g, hg, rfl⟩ := Option.map_eq_some_iff.mp hstored
  have hstart : HeadIsLast (none : Option StoredFlow) none [] := fun h => by cases h
  exact Option.map_eq_some_iff.mp (j.headIsLast hstart (by rw [hg]; rfl) last hlast)

end Journal

theorem Trace.mem_putUnder {trace : Trace} {i : Nat} {r : RunRecord} (h : r ∈ trace.putBy i) :
    r ∈ trace.journal.putUnder r.flowId := by
  obtain ⟨d, hd, hput⟩ := List.mem_filterMap.mp h
  exact Journal.mem_putUnder.mpr
    ⟨⟨_, List.mem_map.mpr ⟨d, hd, rfl⟩, (Option.ite_none_right_eq_some.mp hput).2⟩, rfl⟩

theorem Trace.eq_take_cons_drop {trace : Trace} {n : Nat} {d : Deed} (h : (trace)[n]? = some d) :
    trace = trace.take n ++ d :: trace.drop (n + 1) := by
  obtain ⟨hn, rfl⟩ := List.getElem?_eq_some_iff.mp h
  rw [← List.drop_eq_getElem_cons hn, List.take_append_drop]

/-! ### What a sweep lists -/

theorem Engine.Traced.mem_listed {limit : Nat} {trace : Trace} {s : Engine}
    (h : s.Traced limit trace) {ans : Answer} (hanswer : s.answer .all = .ok ans)
    {f : StoredFlow} (hstored : trace.journal.stored f.id = some f) :
    f ∈ ans.flowList := by
  obtain ⟨m, hholds, hsound, hfollows⟩ := h.store
  obtain ⟨fs, rfl, hperm⟩ := hholds.all_ok hsound hanswer
  have hmem := mem_of_lookup_eq_some ((hfollows.stored f.id).trans hstored)
  exact hperm.mem_iff.mpr (List.mem_map.mpr ⟨(f.id, f), hmem, rfl⟩)

/-- Where the records that were put in have dates, so has the latest run of a flow that was
stored. -/
theorem Engine.Dating.latest {before after : Trace} {s : Engine}
    (h : s.Dating (before ++ after)) {f : StoredFlow}
    (hstored : before.journal.stored f.id = some f) {last : Moment}
    (hlast : f.lastRunAt = some last) :
    ∃ r b e, (before.journal.appended f.id []).head? = some r ∧ r ∈ before.journal.putUnder f.id ∧
      r.startedAt.toInstant = .ok b ∧ r.finishedAt.toInstant = .ok e ∧ r.finishedAt = last := by
  obtain ⟨r, hhead, hfinished⟩ := Journal.latest_of_stored hstored hlast
  have hmem := (Journal.mem_appended (List.mem_of_head? hhead)).resolve_left List.not_mem_nil
  obtain ⟨⟨entry, hentry, hput⟩, _⟩ := Journal.mem_putUnder.mp hmem
  obtain ⟨d, hd, rfl⟩ := List.mem_map.mp hentry
  obtain ⟨b, e, hb, he⟩ := h.past d (List.mem_append_left _ hd) r hput
  exact ⟨r, b, e, hhead, hmem, hb, he, hfinished⟩

/-- Where the records that were put in have dates, every flow that is listed can be judged. -/
theorem Engine.Dating.reference {limit : Nat} {trace : Trace} {s : Engine} (h : s.Dating trace)
    (hs : s.Traced limit trace) {ans : Answer} (hanswer : s.answer .all = .ok ans) {u : Instant}
    (hlate : Cron.lookback ≤ u.micros) (hcalendar : inCalendar u.micros = true) :
    ∀ f ∈ ans.flowList, ∃ a, Cron.reference f.lastRunAt u = .ok a := by
  intro f hf
  obtain ⟨_, hstored⟩ := (hs.listed hanswer).2.2 f hf
  have hend := (inCalendar_iff.mp hcalendar).2
  cases hlast : f.lastRunAt with
  | none => exact ⟨_, Instant.shift_eq (by omega) (by unfold Cron.lookback second; omega)⟩
  | some last =>
    have hwhole : s.Dating (trace ++ []) := by rwa [List.append_nil]
    obtain ⟨_, _, e, _, _, _, he, rfl⟩ := hwhole.latest hstored hlast
    exact ⟨e, he⟩

theorem Engine.Traced.wellFormed {limit : Nat} {trace : Trace} {s : Engine}
    (h : s.Traced limit trace) {f : StoredFlow}
    (hstored : trace.journal.stored f.id = some f) : f.WellFormed := by
  obtain ⟨m, _, hsound, hfollows⟩ := h.store
  exact (hsound.flow f.id f ((hfollows.stored f.id).trans hstored)).wellFormed

/-- A sweep that can judge the flows that are listed finds just those due that are. -/
theorem Engine.Traced.mem_due {limit : Nat} {trace : Trace} {s : Engine}
    (h : s.Traced limit trace) {ans : Answer} (hanswer : s.answer .all = .ok ans)
    {u : Instant} {due : List StoredFlow} (hdue : (judgeAll u ans.flowList).1 = .ok due)
    {f : StoredFlow} : f ∈ due ↔ f ∈ ans.flowList ∧ f.IsDueAt u := by
  rw [judgeAll_mem hdue]
  refine and_congr_right fun hf => ?_
  have hlast := (h.wellFormed ((h.listed hanswer).2.2 f hf).2).lastRunAt
  constructor
  · rintro ⟨v, hv, hverdict⟩
    exact (StoredFlow.judge_iff hlast hv).mp hverdict
  · intro hisdue
    cases hjudge : f.judge u with
    | ok v => exact ⟨v, rfl, (StoredFlow.judge_iff hlast hjudge).mpr hisdue⟩
    | error e =>
      obtain ⟨e', he'⟩ := judgeAll_error.mpr ⟨f, hf, e, hjudge⟩
      cases hdue.symm.trans he'

/-- A sweep that lists the flows at a moment finds all those due that are. -/
theorem Engine.Dating.dueFlows {limit : Nat} {trace : Trace} {s : Engine}
    (h : s.Dating trace) (hs : s.Traced limit trace) {ans : Answer}
    (hanswer : s.answer .all = .ok ans) {now : Option Moment} {u : Instant}
    (hnow : (now.getD s.now).toInstant = .ok u) (hlate : Cron.lookback ≤ u.micros)
    (hcalendar : inCalendar u.micros = true) :
    ∃ due, s.dueFlows? now .none = some due ∧
      ∀ f, trace.journal.stored f.id = some f → f.IsDueAt u → f ∈ due := by
  have hjudged : ∀ f ∈ ans.flowList, ∃ v, f.judge u = .ok v := by
    intro f hf
    cases hjudge : f.judge u with
    | ok v => exact ⟨v, rfl⟩
    | error e =>
      obtain ⟨a, ha⟩ := h.reference hs hanswer hlate hcalendar f hf
      cases ha.symm.trans (StoredFlow.judge_error.mp hjudge).2
  cases hall : (judgeAll u ans.flowList).1 with
  | error e =>
    obtain ⟨f, hf, e', he⟩ := judgeAll_error.mp ⟨e, hall⟩
    obtain ⟨v, hv⟩ := hjudged f hf
    cases hv.symm.trans he
  | ok due =>
    refine ⟨due, dueFlows?_ok rfl hanswer hnow hall, fun f hstored hdue => ?_⟩
    have hf := hs.mem_listed hanswer hstored
    obtain ⟨v, hv⟩ := hjudged f hf
    exact (judgeAll_mem hall).mpr ⟨hf, v, hv,
      (StoredFlow.judge_iff (hs.wellFormed hstored).lastRunAt hv).mpr hdue⟩

/-! ### Occurrences -/

/-- A scheduled flow is due after an occurrence of its schedule, unless it is only looked at
later. -/
theorem StoredFlow.dueAt_or {f : StoredFlow} {t u a : Instant}
    (henabled : f.definition.enabled = true) (hoccurs : Cron.Occurs f.definition.schedule t)
    (hcome : t ≤ u) (hreference : Cron.reference f.lastRunAt u = .ok a) :
    f.IsDueAt u ∨ t ≤ a := by
  by_cases hlt : a < t
  · exact Or.inl ⟨⟨henabled, hoccurs.not_blank⟩, a, t, hreference, hoccurs, hlt, hcome⟩
  · exact Or.inr (Int.not_lt.mp hlt)

namespace Course

variable {codec : Codec} {limit : Nat} {arrives : Phase → Prop} {quiet : Engine → Prop}
  {trace before after : Trace}
  {s s' : Engine} {d : Deed} {now : Option Moment} {u : Instant}

/-- **A sweep that lists the flows conducts the runs of those that are due.** -/
theorem conducted (harrives : ∀ p, arrives p → p.IsArrival ∧ p.IsDating)
    (h : Course arrives quiet s trace s') (hs : s.Traced limit []) (hacc : s.Accounts [])
    (hdating : s.Dating []) (htrace : trace = before ++ d :: after) (hlists : d.Lists now)
    (hanswered : d.entry.IsObliged) (hnow : (now.getD d.entry.now).toInstant = .ok u)
    (hlate : Cron.lookback ≤ u.micros) (hcalendar : inCalendar u.micros = true) :
    ∃ c due, d.entry.now = Instant.toMoment c ∧ s'.Conducts trace .none due c d.first d.actor.id ∧
      (∀ f, before.journal.stored f.id = some f → f.IsDueAt u → f ∈ due) ∧
      ∀ f, before.journal.stored f.id = some f → ∃ a, Cron.reference f.lastRunAt u = .ok a := by
  have harrival : ∀ p, arrives p → p.IsArrival := fun p hp => (harrives p hp).1
  obtain ⟨v, a, w, hbefore, ha, hturn, htime, hdeed, hafter⟩ := h.split htrace
  have htraced := hbefore.traced harrival hs
  have hact := hbefore.act ha hturn htime
  obtain ⟨op, hop, rfl⟩ := Option.map_eq_some_iff.mp hdeed
  obtain ⟨spawned, hphase⟩ := hlists.phase
  have hall : op = .all := by
    rw [show a.phase = .survey now .none spawned from hphase] at hop
    exact (Option.some_inj.mp hop).symm
  subst hall
  -- the listing was answered, so the sweep does not fail
  obtain ⟨ans, hanswer⟩ : ∃ ans, v.answer .all = .ok ans := by
    have hsome := hanswered (Or.inl rfl)
    unfold Entry.isAnswered at hsome
    cases hanswer : v.answer .all with
    | ok ans => exact ⟨ans, rfl⟩
    | error e =>
      simp only [hanswer] at hsome
      cases hsome
  have hvdating := hbefore.dating harrives hs hdating
  obtain ⟨due, hdue, hcomplete⟩ := hvdating.dueFlows htraced hanswer hnow hlate hcalendar
  rcases Engine.surveyed htraced ha hphase with ⟨due', hdue', hconducts⟩ | ⟨hnone, _⟩
  · obtain rfl := Option.some_inj.mp (hdue.symm.trans hdue')
    have hend := hafter.conducts harrival (hact.traced harrival hs)
      (hact.accounts harrival hs hacc) hconducts
    rw [hdeed, Option.toList_some, List.nil_append, List.append_assoc,
      List.singleton_append, ← htrace] at hend
    refine ⟨v.clock, due, rfl, hend, hcomplete, fun f hstored => ?_⟩
    exact hvdating.reference htraced hanswer hlate hcalendar f (htraced.mem_listed hanswer hstored)
  · cases hdue.symm.trans hnone

/-- A flow whose run a sweep conducted has got a record that began no earlier than the sweep
listed the flows. -/
theorem received (hacc : s'.Accounts trace) (hobliged : ∀ d ∈ trace, d.entry.IsObliged)
    {due : List StoredFlow} {c : Instant} {first i : Nat}
    (hconducts : s'.Conducts trace .none due c first i) (hover : s'.isGoing i = false)
    {f : StoredFlow} (hf : f ∈ due) :
    ∃ r ∈ trace.journal.putUnder f.id, ∃ b, r.startedAt = Instant.toMoment b ∧ c ≤ b ∧
      b ≤ s'.clock := by
  obtain ⟨k, hk⟩ := List.getElem?_of_mem hf
  obtain ⟨e, hended⟩ := (hconducts.over hover).2 k f hk
  cases hconducts.serves k f hk with
  | going hb hid hphase htimed =>
    exact absurd (beq_iff_eq.mpr hid) (List.any_eq_false.mp (hacc.isGoing hended) _ hb)
  | @recorded e r b d hended hending hput hr hspans hsince hnow hruns happends =>
    refine ⟨r, ?_, b, hspans.started, hsince, Int.le_trans hspans.le hnow⟩
    exact hr.flowId ▸ Trace.mem_putUnder (hput ▸ List.mem_singleton_self r)
  | lost hended hblank hput hloses =>
    -- without outages only the store could have refused the record
    rcases hloses with hruns | happends | ⟨d, hd, _, hunanswered, r, hop, _⟩
    · cases hruns
    · cases happends
    · cases hunanswered.symm.trans (hobliged d hd (Or.inr ⟨r, hop⟩))

/-- An occurrence of a schedule before the instant that a flow is looked at from comes
before the latest run of the flow or in it, or, if the flow has no run, a minute back. -/
theorem covered_earlier (hdating : s.Dating (before ++ after)) {f : StoredFlow}
    (hstored : before.journal.stored f.id = some f) {t a : Instant}
    (hreference : Cron.reference f.lastRunAt u = .ok a) (hle : t ≤ a) :
    (∃ r ∈ Journal.putUnder f.id (before ++ after : Trace).journal, ∃ b,
      r.startedAt.toInstant = .ok b ∧ t ≤ b) ∨
    (∃ r b e, (before.journal.appended f.id []).head? = some r ∧ r.startedAt.toInstant = .ok b ∧
      r.finishedAt.toInstant = .ok e ∧ b < t ∧ t ≤ e) ∨
    (f.lastRunAt = none ∧ t.micros + Cron.lookback ≤ u.micros) := by
  cases hlast : f.lastRunAt with
  | none =>
    rw [hlast, Cron.reference, Instant.shift] at hreference
    split_ifs at hreference
    obtain rfl := Except.ok.inj hreference
    have hback : t.micros ≤ u.micros + -Cron.lookback := hle
    exact Or.inr (Or.inr ⟨rfl, by omega⟩)
  | some last =>
    -- the latest run ended at the occurrence or later
    obtain ⟨r, b, e, hhead, hput, hb, he, hfinished⟩ := hdating.latest hstored hlast
    rw [hlast, Cron.reference, ← hfinished, he] at hreference
    obtain rfl := Except.ok.inj hreference
    by_cases hbegan : t ≤ b
    · refine Or.inl ⟨r, ?_, b, hb, hbegan⟩
      rw [Trace.journal_append, Journal.putUnder_append]
      exact List.mem_append_left _ hput
    · exact Or.inr (Or.inl ⟨r, b, e, hhead, hb, he, Int.not_le.mp hbegan, hle⟩)

/-- **At the end of a sweep every earlier occurrence of a schedule is covered.**  Let
requests, runs by hand, sweeps and rows of sweeps go on in any order, and let time pass at
any point.  Consider a sweep without outages that lists the flows of a store that does not
refuse, as a store in memory never does, and a flow that is stored and enabled then.  When
the sweep is over, for each occurrence of the schedule that had come by then and is not
after the moment that the sweep goes by, a run of the flow has been put in that began at the
occurrence or later, or the latest run before the sweep was going on at the occurrence, or
the flow had no run to look from and the occurrence is at least a minute back. -/
theorem occurrence_covered {world : Surroundings}
    (hclock : inCalendar world.clock.micros = true) {interpret : Interpreter}
    (hi : interpret.IsTimely) {store : Store}
    (harrives : ∀ p, arrives p → p.IsArrival ∧ p.IsDating)
    (h : Course arrives quiet (.start world store interpret) trace s)
    (hstore : store = .memory (.empty limit) ∨ store = .table (.empty codec limit) ∧
      ∀ d ∈ trace, d.entry.IsObliged)
    (htrace : trace = before ++ d :: after) (hlists : d.Lists now)
    (hover : s.isGoing d.actor.id = false) (hnow : (now.getD d.entry.now).toInstant = .ok u)
    (hcalendar : inCalendar u.micros = true) {f : StoredFlow}
    (hstored : before.journal.stored f.id = some f) (henabled : f.definition.enabled = true)
    {t c : Instant} (hoccurs : Cron.Occurs f.definition.schedule t) (hdue : t ≤ u)
    (htime : d.entry.now = c.toMoment) (hcome : t ≤ c) :
    (∃ r ∈ trace.journal.putUnder f.id, ∃ b, r.startedAt.toInstant = .ok b ∧ t ≤ b) ∨
    (∃ r b e, (before.journal.appended f.id []).head? = some r ∧ r.startedAt.toInstant = .ok b ∧
      r.finishedAt.toInstant = .ok e ∧ b < t ∧ t ≤ e) ∨
    (f.lastRunAt = none ∧ t.micros + Cron.lookback ≤ u.micros) := by
  have harrival : ∀ p, arrives p → p.IsArrival := fun p hp => (harrives p hp).1
  have hempty := Store.holds_empty (hstore.imp_right And.left)
  have hstart := Engine.start_traced hclock hempty hi
  have hobliged : ∀ d ∈ trace, d.entry.IsObliged := by
    rcases hstore with rfl | ⟨_, hobliged⟩
    · exact (h.obliges harrival hstart ⟨⟨_, rfl⟩, fun _ hd => by cases hd⟩).past
    · exact hobliged
  have hlate : Cron.lookback ≤ u.micros := Int.le_trans hoccurs.lookback_le hdue
  have hmem : d ∈ trace := htrace ▸ List.mem_append_right _ List.mem_cons_self
  obtain ⟨c', due, hc', hconducts, hcomplete, hreferences⟩ := h.conducted harrives hstart
    (Engine.start_accounts _ _ _) (Engine.start_dating _ _ _) htrace hlists
      (hobliged d hmem) hnow hlate hcalendar
  obtain ⟨a, hreference⟩ := hreferences f hstored
  rcases f.dueAt_or henabled hoccurs hdue hreference with hisdue | hle
  · -- the sweep ran the flow
    have hacc := h.accounts harrival hstart (Engine.start_accounts _ _ _)
    have hend := (h.traced harrival hstart).clock
    obtain ⟨r, hr, b, hstarted, hsince, hb⟩ :=
      received hacc hobliged hconducts hover (hcomplete f hstored hisdue)
    have hsame : c'.micros = c.micros := congrArg Moment.wall (hc'.symm.trans htime)
    have htb : t.micros ≤ b.micros :=
      Int.le_trans (hsame ▸ (show t.micros ≤ c.micros from hcome)) hsince
    have hpos := hoccurs.lookback_le
    have hlast : b.micros ≤ s.clock.micros := hb
    refine Or.inl ⟨r, hr, b, ?_, htb⟩
    rw [hstarted]
    refine Instant.toMoment_toInstant (inCalendar_iff.mpr ⟨?_, ?_⟩)
    · unfold Cron.lookback second at hpos
      omega
    · exact Int.lt_of_le_of_lt hlast (inCalendar_iff.mp hend).2
  · have hdating : s.Dating (before ++ d :: after) :=
      htrace ▸ h.dating harrives hstart (Engine.start_dating _ _ _)
    rw [htrace]
    exact covered_earlier hdating hstored hreference hle

/-- A flow that is due every minute is run by the sweep after its first occurrence. -/
theorem occurrence_covered_firstMinute :
    let noon : Instant := ⟨63871329600000000⟩
    let flow : Flow := ⟨"a", "* * * * *", true, []⟩
    let start : Engine := .start (.start noon (fun _ _ => ⟨0, .ok default⟩) fun _ => "run")
      (.memory (.empty (2 : Nat))) (interpreter default)
    let begun := (start.spawn (.time noon) (.request (.create flow))).spawn
      (.time (noon.after 70000000))
      (.sweep none .none false)
    let trace := begun.traceFor [0, 1] 20
    let t := noon.after 60000000
    ∃ (s : Engine) (f : StoredFlow), Course (fun p => p.IsArrival ∧ p.IsDating)
      Engine.AllWait start trace s ∧
      f.lastRunAt = none ∧ Cron.Occurs f.definition.schedule t ∧
      ∃ r ∈ trace.journal.putUnder f.id, ∃ b, r.startedAt.toInstant = .ok b ∧ t ≤ b := by
  intro noon flow start begun trace t
  have hcreate : (Operation.create flow).WellFormed :=
    ⟨by decide, fun _ h => (by cases h), by decide +kernel⟩
  have horderly : start.IsOrderly := ⟨List.nodup_nil, fun _ hb => by cases hb⟩
  have hbegun : Course (fun p => p.IsArrival ∧ p.IsDating) Engine.AllWait start [] begun :=
    (Course.refl.arrive ⟨.request hcreate, True.intro⟩ noon).arrive
      ⟨.sweep none .none, True.intro⟩ _
  have hcourse : Course (fun p => p.IsArrival ∧ p.IsDating) Engine.AllWait start trace
      (begun.runFor [0, 1] 20) :=
    hbegun.trans (Engine.runFor_trace _ ((horderly.spawn _ _).spawn _ _) (by decide) [0, 1]
      20 (by decide +kernel))
  -- the flow is created, and then the sweep lists it
  obtain ⟨d, hd, hsweep⟩ := Option.map_eq_some_iff.mp (show (trace)[1]?.map (fun d =>
    (decide (d.Lists none), (begun.runFor [0, 1] 20).isGoing d.actor.id, d.entry.now)) =
      some (true, false, (noon.after 70000000).toMoment) by decide +kernel)
  obtain ⟨f, hstored, hf⟩ := Option.map_eq_some_iff.mp
      (show ((Trace.journal (trace.take 1)).stored "a").map (fun f =>
    (f.id, f.definition.enabled, f.definition.schedule, f.lastRunAt)) =
        some ("a", true, "* * * * *", none) by
      decide +kernel)
  simp only [Prod.mk.injEq, decide_eq_true_eq] at hsweep hf
  obtain ⟨hlists, hover, hnow⟩ := hsweep
  obtain ⟨hid, henabled, hschedule, hlast⟩ := hf
  have hoccurs : Cron.Occurs f.definition.schedule t :=
    (Cron.nextRunAfter_occurs (a := noon) (by rw [hschedule]; decide +kernel)).1
  refine ⟨_, f, hcourse, hlast, hoccurs, ?_⟩
  rcases occurrence_covered (by decide) (interpreter_isTimely default) (fun _ hp => hp) hcourse
    (Or.inl (b := _ = Store.table (.empty default 2) ∧ _) rfl)
    (Trace.eq_take_cons_drop hd) hlists hover (u := noon.after 70000000)
      (by rw [hnow]; decide +kernel)
    (by decide +kernel) (by rw [hid]; exact hstored) henabled hoccurs (by decide +kernel)
      hnow (by decide +kernel) with
    hrun | ⟨r, _, _, hhead, _⟩ | ⟨_, hback⟩
  · exact hrun
  · have hnone : ((Trace.journal (trace.take 1)).appended "a" []).length = 0 := by decide +kernel
    rw [hid, List.length_eq_zero_iff.mp hnone] at hhead
    cases hhead
  · exact absurd hback (by decide +kernel)

/-- An occurrence of a schedule gets no run of its own: it comes after the creation of a
flow that stays as it is, and at the end of a sweep without outages that goes by a later
moment no run of the flow began at it or later. -/
structure Misses (trace : Trace) (s : Engine) (f : StoredFlow) (t : Instant) : Prop where
  created : ∃ c, f.createdAt = Instant.toMoment c ∧ c < t
  unchanged : f.updatedAt = f.createdAt
  enabled : f.definition.enabled = true
  occurs : Cron.Occurs f.definition.schedule t
  swept : ∃ (before : Trace) (d : Deed) (after : Trace) (now : Option Moment) (u : Instant),
    trace = before ++ d :: after ∧ before.journal.stored f.id = some f ∧ d.Lists now ∧
      (now.getD d.entry.now).toInstant = .ok u ∧ t ≤ u ∧ s.isGoing d.actor.id = false
  unserved : ∀ r ∈ trace.journal.putUnder f.id, ∃ b, r.startedAt = Instant.toMoment b ∧ b < t

/-- How it is seen at a place of a trace that an occurrence gets no run of its own. -/
theorem misses_of (trace : Trace) (s : Engine) (n : Nat) (now : Option Moment) (u : Instant)
    (began : List Instant) {schedule : String} {c t : Instant}
    (hsweep : (trace)[n]?.map
      (fun d => (decide (d.Lists now), s.isGoing d.actor.id, now.getD d.entry.now)) =
      some (true, false, u.toMoment))
    (hstored : ((Trace.journal (trace.take n)).stored "a").map
      (fun f => (f.id, f.definition.enabled, f.definition.schedule, f.createdAt, f.updatedAt)) =
      some ("a", true, schedule, c.toMoment, c.toMoment))
    (hnext : Cron.nextRunAfter schedule c = .ok t) (hdue : t ≤ u)
    (hcalendar : inCalendar u.micros = true)
    (hruns : (trace.journal.putUnder "a").map (·.startedAt) = began.map Instant.toMoment)
    (hbegan : ∀ b ∈ began, b < t) : ∃ f, Misses trace s f t := by
  obtain ⟨d, hd, hsweep⟩ := Option.map_eq_some_iff.mp hsweep
  obtain ⟨f, hkept, hf⟩ := Option.map_eq_some_iff.mp hstored
  simp only [Prod.mk.injEq, decide_eq_true_eq] at hsweep hf
  obtain ⟨hlists, hover, hnow⟩ := hsweep
  obtain ⟨hid, henabled, rfl, hcreated, hupdated⟩ := hf
  obtain ⟨hoccurs, hlater⟩ := Cron.nextRunAfter_occurs hnext
  refine ⟨f, ⟨c, hcreated, hlater⟩, hupdated.trans hcreated.symm, henabled, hoccurs,
    ⟨_, d, _, now, u, Trace.eq_take_cons_drop hd, hid.symm ▸ hkept, hlists, ?_, hdue, hover⟩,
    fun r hr => ?_⟩
  · rw [hnow]
    exact Instant.toMoment_toInstant hcalendar
  · have hmem : r.startedAt ∈ (trace.journal.putUnder "a").map (·.startedAt) :=
      List.mem_map.mpr ⟨r, hid ▸ hr, rfl⟩
    rw [hruns] at hmem
    obtain ⟨b, hb, hstarted⟩ := List.mem_map.mp hmem
    exact ⟨b, hstarted.symm, hbegan b hb⟩

/-- Three occurrences that get no run of their own: one that comes minutes before the first
sweep of a flow that never ran, one that comes while a run by hand is going on, and one that
is still to come when a sweep goes by a moment ahead of the clock. -/
theorem occurrence_missed :
    let noon : Instant := ⟨63871329600000000⟩
    let daily : Flow := ⟨"a", "5 12 * * *", true, []⟩
    let slow : Flow :=
      ⟨"a", "5 12 * * *", true, [.fetch ⟨"x", "http://h/", .get, none, none, none⟩]⟩
    let start : Engine :=
      .start (.start noon (fun _ _ => ⟨20000000, .ok ⟨200, [], []⟩⟩) fun _ => "run")
      (.memory (.empty (2 : Nat))) (interpreter ⟨true, 30000000, false⟩)
    let late := (start.spawn (.time noon) (.request (.create daily))).spawn
      (.time (noon.after 600000000))
      (.sweep none .none false)
    let crossed :=
      ((start.spawn (.time noon) (.request (.create slow))).spawn
        (.time (noon.after 290000000))
      (.load "a" .manual start.interpret .keep)).spawn (.time (noon.after 360000000))
        (.sweep none .none false)
    let ahead := (start.spawn (.time noon) (.request (.create daily))).spawn (.time noon)
      (.sweep (some (noon.after 330000000).toMoment) .none false)
    ∀ begun ∈ [late, crossed, ahead], ∃ (trace : Trace) (s : Engine) (f : StoredFlow),
      Course Phase.IsArrival Engine.AllWait start [] begun ∧
      Course Phase.IsArrival Engine.AllWait begun trace s ∧
        Misses trace s f (noon.after 300000000) := by
  intro noon daily slow start late crossed ahead
  have horderly : start.IsOrderly := ⟨List.nodup_nil, fun _ hb => by cases hb⟩
  have hdaily : (Operation.create daily).WellFormed :=
    ⟨by decide, fun _ h => (by cases h), by decide +kernel⟩
  have hslow : (Operation.create slow).WellFormed := by
    refine ⟨by decide, fun step hstep => ?_, by decide +kernel⟩
    obtain rfl := List.mem_singleton.mp hstep
    exact ⟨by decide, fun _ hs => (by cases hs), fun _ htimeout => by cases htimeout⟩
  have hnext : Cron.nextRunAfter "5 12 * * *" noon = .ok (noon.after 300000000) := by decide +kernel
  intro begun hbegun
  simp only [List.mem_cons, List.not_mem_nil, or_false] at hbegun
  rcases hbegun with rfl | rfl | rfl
  · obtain ⟨f, hmisses⟩ := misses_of (late.traceFor [0, 1] 20) (late.runFor [0, 1] 20) 1 none
      (noon.after 600000000) [] (by decide +kernel) (by decide +kernel) hnext
      (by decide +kernel) (by decide +kernel) (by decide +kernel) (fun _ hb => by cases hb)
    exact ⟨_, _, f, (Course.refl.arrive (.request hdaily) _).arrive (.sweep _ _) _,
      Engine.runFor_trace _ ((horderly.spawn _ _).spawn _ _) (by decide) _ _
        (by decide +kernel), hmisses⟩
  · obtain ⟨f, hmisses⟩ := misses_of (crossed.traceFor [0, 1, 2] 60)
      (crossed.runFor [0, 1, 2] 60) 3 none
      (noon.after 360000000) [noon.after 290000000] (by decide +kernel) (by decide +kernel)
      hnext (by decide +kernel) (by decide +kernel) (by decide +kernel) (by decide +kernel)
    exact ⟨_, _, f, ((Course.refl.arrive (.request hslow) _).arrive
      (.load (interpreter_isTimely _) "a" .manual rfl) _).arrive (.sweep _ _) _,
      Engine.runFor_trace _ (((horderly.spawn _ _).spawn _ _).spawn _ _) (by decide) _ _
        (by decide +kernel), hmisses⟩
  · obtain ⟨f, hmisses⟩ := misses_of (ahead.traceFor [0, 1] 20) (ahead.runFor [0, 1] 20) 1
      (some (noon.after 330000000).toMoment) (noon.after 330000000) [noon] (by decide +kernel)
      (by decide +kernel) hnext (by decide +kernel) (by decide +kernel) (by decide +kernel)
        (by decide +kernel)
    exact ⟨_, _, f, (Course.refl.arrive (.request hdaily) _).arrive (.sweep _ _) _,
      Engine.runFor_trace _ ((horderly.spawn _ _).spawn _ _) (by decide) _ _
        (by decide +kernel), hmisses⟩

end Course

end Cadence
