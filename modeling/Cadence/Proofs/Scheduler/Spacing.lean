/-
What lies between two runs of sweeps.

A sweep runs a flow only if its schedule has an occurrence after the end of the run whose
record was put into its history last.  No other sweep runs the flow in the meantime, so such
an occurrence lies between any two runs of sweeps.  It lies after the end of the earlier one
unless the record of a run that ended before that was put in later: then an occurrence may
be used twice.

* `Phase.IsRegular` — what leaves a flow to the scheduler and to manual runs;
* `Journal.EndsWith` — the end of the latest run of a flow is that of the record put in last;
* `Cron.Parts`, `StoredFlow.Spaces` — an occurrence of a schedule lies between two runs;
* `Engine.Spaced` — the invariant: occurrences lie between the runs of sweeps in the
  history, and between these and the run of a sweep that is going on;
* `Course.occurrence_between` — what in every course lies between two runs of sweeps in the
  history of a flow;
* `Course.occurrence_usedTwice` — a course in which the record of a manual run comes late,
  and two sweeps use the same occurrence.
-/
import Cadence.Proofs.Scheduler.Dates
import Cadence.Proofs.Scheduler.Guard
import Cadence.Proofs.Scheduler.Ledger

namespace Cadence

open Calendar

/-! ### What leaves a flow alone -/

/-- A phase in which a flow is neither removed nor given a record by hand and is run by hand
only as such, and in which sweeps take their time from the clock. -/
def Phase.IsRegular (id : String) : Phase → Prop
  | .request op => op ≠ .remove id ∧ ∀ r, op = .append r → r.flowId ≠ id
  | .load i trigger _ _ => i = id → trigger = .manual
  | .sweep now _ _ | .survey now _ _ => now = none
  | _ => True

/-- All that goes on, and all that has made requests, is regular. -/
structure Engine.Regular (id : String) (trace : Trace) (s : Engine) : Prop where
  going : ∀ a ∈ s.activities, a.phase.IsRegular id
  past : ∀ d ∈ trace, d.actor.phase.IsRegular id ∧ d.actor.phase.request? = some d.entry.operation

namespace Phase.IsRegular

variable {id : String} {phase : Phase}

/-- A flow is not removed. -/
theorem ne_remove (h : phase.IsRegular id) {op : Operation} (hop : phase.request? = some op) :
    op ≠ .remove id := by
  cases phase with
  | request op' =>
    obtain rfl := Option.some_inj.mp hop
    exact h.1
  | judge i now =>
    obtain rfl := Option.some_inj.mp hop
    exact fun heq => by cases heq
  | load i trigger interpret goal =>
    obtain rfl := Option.some_inj.mp hop
    exact fun heq => by cases heq
  | append r goal =>
    rintro rfl
    cases Phase.append_request? hop
  | survey now outages spawned =>
    rintro rfl
    cases Phase.survey_request? hop
  | _ => cases hop

/-- Only runs put records into the history of a flow. -/
theorem append_of_request (h : phase.IsRegular id) {r : RunRecord}
    (hop : phase.request? = some (.append r)) (hid : r.flowId = id) :
    ∃ goal, phase = .append r goal := by
  cases phase with
  | request op => exact absurd hid (h.2 r (Option.some_inj.mp hop))
  | append r' goal =>
    cases Phase.append_request? hop
    exact ⟨goal, rfl⟩
  | survey now outages spawned => cases Phase.survey_request? hop
  | _ => cases hop

end Phase.IsRegular

namespace Engine

variable {id : String} {limit : Nat} {trace : Trace} {s : Engine} {a : Activity} {m : Move}
  {t : Instant}

/-- A phase that goes on from a regular one is regular. -/
theorem Onward.isRegular (hphase : a.phase.IsRegular id) {turn : Turn} {phase : Phase}
    (h : s.Onward a turn phase) : phase.IsRegular id := by
  cases h with
  | sweeps hsweep =>
    rw [hsweep] at hphase
    exact hphase
  | goesOn hrow hrow' =>
    exact Phase.of_isRow hrow' (fun _ => True.intro) (fun _ => True.intro)
      (fun _ => True.intro) True.intro
  | _ => exact True.intro

theorem Begins.isRegular {phase : Phase} (h : s.Begins a phase) : phase.IsRegular id := by
  cases h with
  | run hphase hrequest hanswer hnow hdue hf =>
    unfold runPhase
    split
    · exact True.intro
    · exact True.intro
  | sweep outages hphase => exact rfl

theorem Regular.step (h : s.Regular id trace) (ha : a ∈ s.activities) (hm : s.Allows a m)
    (hbecomes : s.Becomes a m (s.step a)) :
    (s.step a).Regular id (trace ++ (s.deed? a).toList) where
  going := by
    intro b hb
    cases hbecomes.going b hb with
    | stays hgoing hother => exact h.going b hgoing
    | moves hfate hid => exact (hm.onward hfate).isRegular (h.going a ha)
    | begins hbegun hid hturn => exact (hm.begins hbegun).isRegular
  past := by
    intro d hd
    rcases List.mem_append.mp hd with hd | hd
    · exact h.past d hd
    · obtain ⟨op, hop, rfl⟩ := Option.map_eq_some_iff.mp (Option.mem_toList.mp hd)
      exact ⟨h.going a ha, hop⟩

theorem Regular.kept (h : s.Regular id trace) : ∀ e ∈ trace.journal, e.operation ≠ .remove id := by
  intro e he
  obtain ⟨d, hd, rfl⟩ := List.mem_map.mp he
  obtain ⟨hregular, hrequest⟩ := h.past d hd
  exact hregular.ne_remove hrequest

/-- A flow that a run began with stays stored. -/
theorem Regular.stored_of_loads (h : s.Regular id trace) {i : Nat} {trigger : Trigger} {goal : Goal}
    {f : StoredFlow} (hloads : trace.Loads i trigger goal f) (hid : f.id = id) :
    (trace.journal.stored id).isSome = true := by
  obtain ⟨before, d, after, rfl, _, hstored⟩ := hloads
  rw [hid] at hstored
  rw [Trace.journal_append]
  refine Journal.stored_isSome (by rw [hstored]; rfl) fun e he => ?_
  refine h.kept e ?_
  rw [Trace.journal_append]
  exact List.mem_append_right _ he

/-- A run of the flow that is not manual belongs to a sweep. -/
theorem Regular.sweep_of_loads (h : s.Regular id trace) {i : Nat} {goal : Goal} {f : StoredFlow}
    (hloads : trace.Loads i .cron goal f) (hid : f.id = id) :
    ∃ refused, goal = .sweep f refused := by
  obtain ⟨before, d, after, rfl, hshows, _⟩ := hloads
  cases hshows with
  | loaded hactor hphase hgoal hanswer =>
    have hregular := (h.past d (List.mem_append_right _ List.mem_cons_self)).1
    rw [hphase] at hregular
    cases hregular hid
  | @listed now outages spawned refused fs hbegan hphase htrigger hgoal hanswer hlisted =>
    exact ⟨refused, hgoal⟩

end Engine

/-! ### The end of the latest run -/

/-- A flow that was never stored has no runs, all its runs ended at instants, and the end of
its latest run is that of the record put in last. -/
structure Journal.EndsWith (j : Journal) (id : String) : Prop where
  unknown : j.stored id = none → j.appended id [] = []
  latest : ∀ r ∈ (j.appended id []).head?, j.lastRun id none = some r.finishedAt
  ended : ∀ r ∈ j.appended id [], ∃ d, r.finishedAt = Instant.toMoment d

namespace Journal.EndsWith

variable {j : Journal} {id : String} {e : Entry}

/-- Another record, or another request that does not remove the flow. -/
theorem append (h : j.EndsWith id) (hremove : e.operation ≠ .remove id)
    (hcreate : ∀ g, e.operation = .create g → g.id = id → e.isAnswered = true → j.stored id = none)
    (hput : ∀ r, e.put? = some r → r.flowId = id →
      (j.stored id).isSome = true ∧ ∃ d, r.finishedAt = Instant.toMoment d) :
    (j ++ [e] : Journal).EndsWith id := by
  have hlast : (j ++ [e] : Journal).lastRun id none = e.lastRun id (j.lastRun id none) := by
    rw [Journal.lastRun, List.foldl_append]
    rfl
  have hstays (hstored : (j.stored id).isSome = true) :
      ((j ++ [e] : Journal).stored id).isSome = true :=
    Journal.stored_isSome hstored fun e' he' => List.mem_singleton.mp he' ▸ hremove
  by_cases hruns : ∃ r, e.put? = some r ∧ r.flowId = id
  · obtain ⟨r, hr, hid⟩ := hruns
    obtain ⟨hstored, hended⟩ := hput r hr hid
    have happended := Journal.appended_put (j := j) hr hid
    refine ⟨fun hnone => ?_, fun r' hr' => ?_, fun r' hr' => ?_⟩
    · -- a flow into whose history a run is put is stored, and it stays so
      have hkept := hstays hstored
      rw [hnone] at hkept
      cases hkept
    · obtain ⟨hop, hanswered⟩ := Entry.put?_some.mp hr
      rw [happended] at hr'
      obtain rfl : r = r' := Option.some_inj.mp hr'
      rw [hlast, Entry.lastRun, if_pos hanswered, hop, Operation.lastRun, if_pos hid]
    · rw [happended] at hr'
      rcases List.mem_cons.mp hr' with rfl | hr'
      · exact hended
      · exact h.ended r' hr'
  · have hsame : (j ++ [e] : Journal).appended id [] = j.appended id [] :=
      Journal.appended_same hremove fun r hr hid => hruns ⟨r, hr, hid⟩
    refine ⟨fun hnone => ?_, fun r hr => ?_, fun r hr => h.ended r (hsame ▸ hr)⟩
    · rw [hsame]
      cases hstored : j.stored id with
      | none => exact h.unknown hstored
      | some f =>
        have hkept := hstays (by rw [hstored]; rfl)
        rw [hnone] at hkept
        cases hkept
    · rw [hsame] at hr
      -- a flow that has runs is stored and so is not created now
      have hold : ∀ g, e.operation = .create g → g.id = id → e.isAnswered = false := by
        intro g hop hid
        cases hanswered : e.isAnswered with
        | false => rfl
        | true =>
          rw [h.unknown (hcreate g hop hid hanswered)] at hr
          cases hr
      have hnone : Journal.putUnder id [e] = [] := by
        rw [Journal.putUnder_single]
        cases hput : e.put? with
        | none => rfl
        | some r' =>
          have hother : r'.flowId ≠ id := fun hid => hruns ⟨r', hput, hid⟩
          simp [hother]
      rw [hlast, Entry.lastRun_eq hold, hnone]
      exact h.latest r hr

end Journal.EndsWith

/-! ### Room for a run -/

/-- One run ended before another one did. -/
def RunRecord.EndedBefore (r r' : RunRecord) : Prop :=
  ∃ d d', r.finishedAt = Instant.toMoment d ∧ r'.finishedAt = Instant.toMoment d' ∧ d < d'

/-- An occurrence of a schedule lies between two runs: after the end of the earlier one, and
not after the beginning of the later one. -/
def Cron.Parts (expression : String) (earlier later : RunRecord) : Prop :=
  ∃ ended t began, earlier.finishedAt = Instant.toMoment ended ∧
    later.startedAt = Instant.toMoment began ∧
    Cron.Occurs expression t ∧ ended < t ∧ t ≤ began

/-- What a flow, as a sweep listed it, says of two runs of sweeps and the runs between them
in its history. -/
structure StoredFlow.Spaces (f : StoredFlow) (later : RunRecord) (between : List RunRecord)
    (earlier : RunRecord) : Prop where
  /-- The flow remembered the end of the run put in last, the earlier one or one put in
  after it, and an occurrence lies between that end and the beginning of the later one. -/
  remembered : ∃ last ∈ between ++ [earlier], f.lastRunAt = some last.finishedAt ∧
    Cron.Parts f.definition.schedule last later
  /-- So an occurrence lies between the two runs themselves if none between them had ended
  before. -/
  parted : (∀ r ∈ between, ¬ r.EndedBefore earlier) → Cron.Parts f.definition.schedule earlier later

/-- An occurrence after the end of one run is one after the end of another that did not end
later. -/
theorem Cron.Parts.of_ended {expression : String} {last earlier later : RunRecord}
    (h : Cron.Parts expression last later) (hearlier : ∃ d, earlier.finishedAt = Instant.toMoment d)
    (hlast : ¬ last.EndedBefore earlier) : Cron.Parts expression earlier later := by
  obtain ⟨ended, t, began, hended, hbegan, hoccurs, hlt, hle⟩ := h
  obtain ⟨d, hd⟩ := hearlier
  refine ⟨d, t, began, hd, hbegan, hoccurs, ?_, hle⟩
  have hnot : ¬ ended < d := fun hless => hlast ⟨ended, d, hended, hd, hless⟩
  exact Int.lt_of_le_of_lt (Int.not_lt.mp hnot) hlt

theorem StoredFlow.Spaces.filed {f : StoredFlow} {later earlier : RunRecord}
    {between : List RunRecord} (h : f.Spaces later between earlier) :
    f.Spaces later.filed (between.map RunRecord.filed) earlier.filed where
  remembered := by
    obtain ⟨last, hmem, hlast, hparts⟩ := h.remembered
    refine ⟨last.filed, ?_, hlast, hparts⟩
    rw [← List.map_singleton, ← List.map_append]
    exact List.mem_map_of_mem hmem
  parted := fun hnone => h.parted fun r hr => hnone r.filed (List.mem_map_of_mem hr)

theorem StoredFlow.Spaces.of_remembered {f : StoredFlow} {later earlier last : RunRecord}
    {between : List RunRecord} (hmem : last ∈ between ++ [earlier])
    (hlast : f.lastRunAt = some last.finishedAt)
    (hparts : Cron.Parts f.definition.schedule last later)
    (hearlier : ∃ d, earlier.finishedAt = Instant.toMoment d) :
    f.Spaces later between earlier where
  remembered := ⟨last, hmem, hlast, hparts⟩
  parted := by
    intro hnone
    rcases List.mem_append.mp hmem with hmem | hmem
    · exact hparts.of_ended hearlier (hnone last hmem)
    · exact List.mem_singleton.mp hmem ▸ hparts

namespace Trace

/-- A sweep listed a flow, and the run of it put a record into the history. -/
def Sweeps (trace : Trace) (f : StoredFlow) (r : RunRecord) : Prop :=
  ∃ i refused, trace.Loads i .cron (.sweep f refused) f ∧ r ∈ trace.putBy i ∧ r.IsOf f .cron

/-- The schedule of a flow occurs at an instant that is after the end of the run put in last
when the flow was listed, and no run of a sweep was put in since. -/
def Frees (trace : Trace) (f : StoredFlow) (t : Instant) : Prop :=
  Cron.Occurs f.definition.schedule t ∧ ∃ newer listed, trace.journal.appended f.id [] =
    newer ++ listed ∧ (∀ r ∈ newer, r.trigger ≠ .cron) ∧
    ∀ last ∈ listed.head?, f.lastRunAt = some last.finishedAt ∧
      ∃ ended, last.finishedAt = Instant.toMoment ended ∧ ended < t

/-- Between any two runs of sweeps of a history there is room for the later one, by the
schedule that the flow had when the sweep of the later one listed it. -/
def IsSpaced (trace : Trace) (runs : List RunRecord) : Prop :=
  ∀ later between earlier, later :: (between ++ [earlier]) <:+: runs →
    later.trigger = .cron → earlier.trigger = .cron →
    ∃ f, trace.Sweeps f later ∧ f.Spaces later between earlier

theorem IsSpaced.append {trace : Trace} {runs : List RunRecord} (h : trace.IsSpaced runs)
    (trace' : Trace) :
    (trace ++ trace' : Trace).IsSpaced runs := by
  intro later between earlier hwithin hlater hearlier
  obtain ⟨f, ⟨i, refused, hloads, hput, hof⟩, hspaces⟩ :=
    h later between earlier hwithin hlater hearlier
  refine ⟨f, ⟨i, refused, hloads.append trace', ?_, hof⟩, hspaces⟩
  rw [putBy_append]
  exact List.mem_append_left _ hput

/-- From the run put in last when a flow was listed on, every earlier run of a sweep comes
later in the history. -/
theorem Frees.last_mem {trace : Trace} {f : StoredFlow} {t : Instant} (h : trace.Frees f t)
    {between : List RunRecord} {earlier : RunRecord}
    (hfirst : between ++ [earlier] <+: trace.journal.appended f.id [])
    (hearlier : earlier.trigger = .cron) :
    ∃ last ∈ between ++ [earlier], f.lastRunAt = some last.finishedAt ∧
      ∃ ended, last.finishedAt = Instant.toMoment ended ∧ ended < t := by
  obtain ⟨_, newer, listed, hruns, hnewer, hlisted⟩ := h
  rw [hruns] at hfirst
  -- the runs up to the earlier one reach beyond those put in since, as it is the run of a sweep
  have hbeyond : ¬ between ++ [earlier] <+: newer := fun hshort =>
    hnewer earlier (hshort.subset (List.mem_append_right _ (List.mem_singleton_self _))) hearlier
  have hreach := List.prefix_or_prefix_of_prefix hfirst (List.prefix_append newer listed)
  obtain ⟨rest, hrest⟩ := hreach.resolve_left hbeyond
  rw [← hrest] at hbeyond hfirst ⊢
  cases rest with
  | nil => exact absurd ((List.append_nil newer).symm ▸ List.prefix_rfl) hbeyond
  | cons last rest =>
    obtain ⟨others, hothers⟩ := (List.prefix_append_right_inj newer).mp hfirst
    refine ⟨last, List.mem_append_right _ List.mem_cons_self, hlisted last ?_⟩
    rw [← hothers]
    rfl

end Trace

/-! ### The invariant -/

/-- Occurrences lie between the runs of sweeps in the history of a flow, and before the run
of a sweep that is going on. -/
structure Engine.Spaced (id : String) (trace : Trace) (s : Engine) : Prop where
  ends : trace.journal.EndsWith id
  going : ∀ a ∈ s.activities, ∃ since, a.phase.IsTimed since s.clock ∧
    ∀ f, a.phase.due? = some f → f.id = id → trace.Frees f since
  spaced : trace.IsSpaced (trace.journal.appended id [])

namespace Engine

variable {id : String} {limit : Nat} {trace : Trace} {s : Engine} {a : Activity} {m : Move}
  {t : Instant}

theorem start_spaced (id : String) (world : Surroundings) (store : Store)
    (interpret : Interpreter) :
    (start world store interpret).Spaced id [] where
  ends := ⟨fun _ => rfl, fun _ hr => (by cases hr), fun _ hr => (by cases hr)⟩
  going := fun _ hb => by cases hb
  spaced := fun _ _ _ hwithin => by cases List.infix_nil.mp hwithin

theorem start_regular (id : String) (world : Surroundings) (store : Store)
    (interpret : Interpreter) :
    (start world store interpret).Regular id [] where
  going := fun _ hb => by cases hb
  past := fun _ hd => by cases hd

/-- A step that puts a run into the history of a flow. -/
theorem appended_puts {r : RunRecord} (hputs : s.puts? a = some r) (hid : r.flowId = id) :
    (trace ++ (s.deed? a).toList : Trace).journal.appended id [] = r ::
      trace.journal.appended id [] := by
  obtain ⟨d, hdeed, hput⟩ := Option.bind_eq_some_iff.mp hputs
  rw [hdeed, Trace.journal_append]
  exact Journal.appended_put hput hid

/-- A flow that is due has an occurrence after the end of the run put in last. -/
theorem Spaced.frees_due (h : s.Spaced id trace) {f : StoredFlow}
    (hstored : trace.journal.stored f.id = some f) (hid : f.id = id) {v : Cron.Verdict}
    (hjudge : f.judge s.clock = .ok v) (hdue : v.due = true) :
    ∃ u, u ≤ s.clock ∧ trace.Frees f u := by
  obtain ⟨reference, u, hreference, hoccurs, hlt, hle⟩ := StoredFlow.judge_occurs hjudge hdue
  refine ⟨u, hle, hoccurs, [], trace.journal.appended f.id [], rfl,
    fun _ hr => (by cases hr), fun last hlast => ?_⟩
  rw [hid] at hlast hstored
  obtain ⟨g, _, rfl⟩ := Option.map_eq_some_iff.mp hstored
  have hlastRun : (g.withLastRun (trace.journal.lastRun id none)).lastRunAt =
      some last.finishedAt :=
    h.ends.latest last hlast
  obtain ⟨ended, hended⟩ := h.ends.ended last (List.mem_of_mem_head? hlast)
  -- the flow is judged from that end on
  rw [hlastRun, hended] at hreference
  obtain rfl := Instant.toInstant_toMoment hreference
  exact ⟨hlastRun, reference, hended, hlt⟩

section

variable (h : s.Spaced id trace) (hs : s.Traced limit trace) (hg : s.Guarded)
  (hr : s.Regular id trace) (ha : a ∈ s.activities)

include hr ha

/-- Any other step. -/
theorem Regular.appended_same (hputs : ∀ r, s.puts? a = some r → r.flowId ≠ id) :
    (trace ++ (s.deed? a).toList : Trace).journal.appended id [] =
      trace.journal.appended id [] := by
  cases hdeed : s.deed? a with
  | none => rw [Option.toList_none, List.append_nil]
  | some d =>
    rw [Trace.journal_append]
    refine Journal.appended_same ?_ fun r hput => hputs r (by rw [puts?, hdeed]; exact hput)
    obtain ⟨op, hop, rfl⟩ := Option.map_eq_some_iff.mp hdeed
    exact (hr.going a ha).ne_remove hop

theorem Regular.frees_same (hputs : s.puts? a = none) {f : StoredFlow} (hid : f.id = id) :
    Trace.Frees (trace ++ (s.deed? a).toList) f t ↔ trace.Frees f t := by
  unfold Trace.Frees
  rw [hid, hr.appended_same ha fun r hr' => by cases hputs.symm.trans hr']

include h hs

/-- What is put into the history of the flow is the record of a run that has ended. -/
theorem Spaced.puts {r : RunRecord} (hputs : s.puts? a = some r) (hid : r.flowId = id) :
    ∃ goal f trigger since, a.phase.due? = goal.due? ∧ trace.Loads a.id trigger goal f ∧
      r.IsOf f trigger ∧ f.id = id ∧ (∃ b d, since ≤ b ∧ r.Spans b d) ∧
      ∀ g, a.phase.due? = some g → g.id = id → trace.Frees g since := by
  obtain ⟨goal, hphase⟩ := (hr.going a ha).append_of_request (puts?_some hputs).1 hid
  have horigin := hs.going a ha
  obtain ⟨since, htimed, hfrees⟩ := h.going a ha
  rw [hphase] at horigin htimed
  obtain ⟨_, f, trigger, hloads, _, hof⟩ := horigin
  obtain ⟨b, d, hb, _, hspans⟩ := htimed
  exact ⟨goal, f, trigger, since, by rw [hphase]; rfl, hloads, hof,
    hof.flowId.symm.trans hid, ⟨b, d, hb, hspans⟩, hfrees⟩

theorem Spaced.ends_step : (trace ++ (s.deed? a).toList : Trace).journal.EndsWith id := by
  cases hdeed : s.deed? a with
  | none =>
    rw [Option.toList_none, List.append_nil]
    exact h.ends
  | some d =>
    obtain ⟨op, hop, rfl⟩ := Option.map_eq_some_iff.mp hdeed
    rw [Trace.journal_append]
    refine h.ends.append ((hr.going a ha).ne_remove hop) (fun g hcreate hid hanswered => ?_)
      fun r hput hid => ?_
    · -- a flow that is stored is not created
      obtain ⟨n, hholds, hsound, hfollows⟩ := hs.store
      obtain rfl : op = .create g := hcreate
      cases hstored : trace.journal.stored id with
      | none => rfl
      | some f =>
        obtain ⟨e, he⟩ := hholds.create_refused (hid ▸ (hfollows.stored id).trans hstored) s.now
        rw [Entry.isAnswered, answer, he] at hanswered
        cases hanswered
    · have hputs : s.puts? a = some r := by rw [puts?, hdeed]; exact hput
      obtain ⟨goal, f, trigger, since, _, hloads, _, hfid, ⟨b, d, _, hspans⟩, _⟩ :=
        h.puts hs hr ha hputs hid
      exact ⟨hr.stored_of_loads hloads hfid, d, hspans.finished⟩

/-- Whatever a sweep begins, it begins at an occurrence. -/
theorem Spaced.begins {phase : Phase} (hbegins : s.Begins a phase) :
    ∃ since, phase.IsTimed since s.clock ∧
      ∀ f, phase.due? = some f → f.id = id → Trace.Frees (trace ++ (s.deed? a).toList) f since := by
  have hputs := puts?_begins hbegins
  have hnow := Phase.IsTimed.begins (Int.le_refl s.clock.micros) hbegins
  have hregular := hr.going a ha
  cases hbegins with
  | @run now outages spawned ans t due f hphase hrequest hanswer ht hdue hf =>
    rw [hphase] at hregular
    obtain rfl : now = none := hregular
    obtain rfl : t = s.clock := Instant.toInstant_toMoment ht
    by_cases hid : f.id = id
    · obtain ⟨_, _, hlisted⟩ := hs.listed hanswer
      obtain ⟨_, hstored⟩ := hlisted f ((judgeAll_sublist hdue).mem hf)
      obtain ⟨v, hjudge, hv⟩ := judgeAll_due hdue f hf
      -- the flow is judged as it is stored now, with the end of the run put in last
      obtain ⟨u, hu, hfrees⟩ := h.frees_due hstored hid hjudge hv
      refine ⟨u, Phase.IsTimed.begins hu (.run hphase hrequest hanswer ht hdue hf),
        fun g hg hgid => ?_⟩
      obtain rfl := runPhase_due? hg
      exact (hr.frees_same ha hputs hid).mpr hfrees
    · refine ⟨s.clock, hnow, fun g hg hgid => ?_⟩
      exact absurd (runPhase_due? hg ▸ hgid) hid
  | sweep outages hphase => exact ⟨s.clock, hnow, fun f hf => by cases hf⟩

/-- A run of a sweep that puts in its record has had room. -/
theorem Spaced.spaced_put {r : RunRecord} (hputs : s.puts? a = some r) (hid : r.flowId = id)
    {between : List RunRecord} {earlier : RunRecord}
    (hfirst : between ++ [earlier] <+: trace.journal.appended id []) (hlater : r.trigger = .cron)
    (hearlier : earlier.trigger = .cron) :
    ∃ f, Trace.Sweeps (trace ++ (s.deed? a).toList) f r ∧ f.Spaces r between earlier := by
  obtain ⟨goal, f, trigger, since, hphase, hloads, hof, hfid, ⟨b, d, hb, hspans⟩, hfrees⟩ :=
    h.puts hs hr ha hputs hid
  obtain rfl : trigger = .cron := hof.trigger.symm.trans hlater
  obtain ⟨refused, rfl⟩ := hr.sweep_of_loads hloads hfid
  have hfree := hfrees f hphase hfid
  -- the run began after the occurrence for which it was begun, and that was after the run
  -- put in last ended
  obtain ⟨last, hmem, hlast, ended, hended, hlt⟩ := hfree.last_mem (hfid ▸ hfirst) hearlier
  refine ⟨f, ⟨a.id, refused, hloads.append _, ?_, hof⟩, .of_remembered hmem hlast ?_ ?_⟩
  · rw [Trace.putBy_append, putBy_deed, hputs]
    exact List.mem_append_right _ (List.mem_singleton_self r)
  · exact ⟨ended, since, b, hended, hspans.started, hfree.1, hlt, hb⟩
  · exact h.ends.ended earlier (hfirst.subset (List.mem_append_right _ (List.mem_singleton_self _)))

theorem Spaced.spaced_step :
    Trace.IsSpaced (trace ++ (s.deed? a).toList)
      ((trace ++ (s.deed? a).toList : Trace).journal.appended id []) := by
  have hold := h.spaced.append (s.deed? a).toList
  by_cases hput : ∃ r, s.puts? a = some r ∧ r.flowId = id
  · obtain ⟨r, hputs, hid⟩ := hput
    rw [appended_puts hputs hid]
    intro later between earlier hwithin hlater hearlier
    -- the new run is compared with those before it; those before keep the occurrences between them
    rcases List.infix_cons_iff.mp hwithin with hfirst | hwithin
    · obtain ⟨rfl, hbefore⟩ := List.cons_prefix_cons.mp hfirst
      exact h.spaced_put hs hr ha hputs hid hbefore hlater hearlier
    · exact hold later between earlier hwithin hlater hearlier
  · rw [hr.appended_same ha fun r hputs hid => hput ⟨r, hputs, hid⟩]
    exact hold

include hg

/-- No other run of a sweep gets in the way of one that is going on. -/
theorem Spaced.frees_step {b : Activity} (hb : b ∈ s.activities) (hother : b.id ≠ a.id)
    {f : StoredFlow} (hdue : b.phase.due? = some f) (hid : f.id = id)
    (hfrees : trace.Frees f t) :
    Trace.Frees (trace ++ (s.deed? a).toList) f t := by
  by_cases hput : ∃ r, s.puts? a = some r ∧ r.flowId = id
  · obtain ⟨r, hputs, hrid⟩ := hput
    obtain ⟨hoccurs, newer, listed, hruns, hnewer, hlisted⟩ := hfrees
    refine ⟨hoccurs, r :: newer, listed, ?_, fun r' hr' => ?_, hlisted⟩
    · rw [hid] at hruns ⊢
      rw [appended_puts hputs hrid, hruns, List.cons_append]
    · rcases List.mem_cons.mp hr' with rfl | hr'
      · -- the record would be that of another run of a sweep, and of the same flow
        intro hcron
        obtain ⟨goal, g, trigger, since, hphase, hloads, hof, hgid, _⟩ := h.puts hs hr ha hputs hrid
        obtain rfl : trigger = .cron := hof.trigger.symm.trans hcron
        obtain ⟨refused, rfl⟩ := hr.sweep_of_loads hloads hgid
        exact absurd (hg.apart a ha b hb g f hphase hdue (hgid.trans hid.symm)) hother
      · exact hnewer r' hr'
  · unfold Trace.Frees
    rw [hid, hr.appended_same ha fun r hputs hrid => hput ⟨r, hputs, hrid⟩, ← hid]
    exact hfrees

/-- **A step keeps the invariant.** -/
theorem Spaced.step (hm : s.Allows a m) (hbecomes : s.Becomes a m (s.step a)) :
    (s.step a).Spaced id (trace ++ (s.deed? a).toList) where
  ends := h.ends_step hs hr ha
  spaced := h.spaced_step hs hr ha
  going := by
    intro b hb
    rw [hbecomes.clock]
    cases hbecomes.going b hb with
    | stays hgoing hother =>
      obtain ⟨since, htimed, hfrees⟩ := h.going b hgoing
      exact ⟨since, htimed, fun f hf hid =>
        h.frees_step hs hg hr ha hgoing hother hf hid (hfrees f hf hid)⟩
    | moves hfate hid =>
      obtain ⟨since, htimed, hfrees⟩ := h.going a ha
      refine ⟨since, htimed.moves hm hfate, fun f hf hfid => ?_⟩
      exact (hr.frees_same ha (puts?_onward (hm.onward hfate)) hfid).mpr
        (hfrees f (due?_moves hs ha hm hfate hf) hfid)
    | begins hbegun hid hturn => exact h.begins hs hr ha (hm.begins hbegun)

end

end Engine

/-- The engine after the next thing of an activity, if its turn has come. -/
def Engine.advance (s : Engine) (i : Nat) : Engine :=
  match s.activities.find? (·.id == i) with
  | some a => if (s.turnOf? a.turn).any fun t => t ≤ s.clock then s.step a else s
  | none => s

namespace Course

variable {id : String} {codec : Codec} {limit : Nat} {quiet : Engine → Prop} {before trace : Trace}
  {s s' : Engine}

/-- **The invariant holds in every course that leaves the flow to the scheduler and to
manual runs.** -/
theorem spaced (h : Course (fun p => p.IsArrival ∧ p.IsRegular id) quiet s trace s')
    (hs : s.Traced limit before) (hg : s.Guarded) (hr : s.Regular id before)
    (hspaced : s.Spaced id before) :
    s'.Regular id (before ++ trace) ∧ s'.Spaced id (before ++ trace) := by
  induction h with
  | refl =>
    rw [List.append_nil]
    exact ⟨hr, hspaced⟩
  | act hcourse hgoing hturn htime ih =>
    obtain ⟨hregular, hspaced'⟩ := ih
    have htraced := hcourse.traced (fun _ hp => hp.1) hs
    have hguarded := hcourse.guarded (fun _ hp => hp.1) hs hg
    obtain ⟨m, hm, hbecomes⟩ := Engine.step_moves htraced.orderly hgoing
    rw [← List.append_assoc]
    exact ⟨hregular.step hgoing hm hbecomes,
      hspaced'.step htraced hguarded hregular hgoing hm hbecomes⟩
  | pass _ _ hlater _ ih =>
    obtain ⟨hregular, hspaced'⟩ := ih
    refine ⟨⟨hregular.going, hregular.past⟩, hspaced'.ends, fun a ha => ?_, hspaced'.spaced⟩
    obtain ⟨since, htimed, hfrees⟩ := hspaced'.going a ha
    rw [Engine.waitUntil_clock hlater]
    -- what is free of runs stays so while time passes
    exact ⟨since, htimed.pass hlater, hfrees⟩
  | arrive _ hphase t ih =>
    obtain ⟨hregular, hspaced'⟩ := ih
    refine ⟨⟨fun a ha => ?_, hregular.past⟩, hspaced'.ends, fun a ha => ?_, hspaced'.spaced⟩
    · rcases List.mem_append.mp ha with ha | ha
      · exact hregular.going a ha
      · obtain rfl := List.mem_singleton.mp ha
        exact hphase.2
    · rcases List.mem_append.mp ha with ha | ha
      · exact hspaced'.going a ha
      · obtain rfl := List.mem_singleton.mp ha
        obtain ⟨hrun, _, hnone⟩ := hphase.1.idle
        exact ⟨_, .arrival hrun, fun f hf => by cases hnone.symm.trans hf⟩

/-- **What lies between two runs of sweeps.**  Let a flow be neither removed nor given
records by hand, let it be run by hand only as such, and let sweeps take their time from the
clock, while time may pass at any point.  Take two runs of sweeps in the history of the
flow.  When the sweep of the later one listed the flow, the flow remembered the end of the
run whose record was put in last, which is the earlier one or one put in after it, and the
schedule that the flow had then has an occurrence after that end and not after the beginning
of the later run.  So it has one after the end of the earlier run, unless a run put in
between the two ended before the earlier one.  This holds of all runs that were ever put
into the history of the flow, and of those that a store gives out. -/
theorem occurrence_between {world : Surroundings}
    (hclock : inCalendar world.clock.micros = true) {interpret : Interpreter}
    (hi : interpret.IsTimely) {store : Store}
    (hstore : store = .memory (.empty limit) ∨ store = .table (.empty codec limit))
    (h : Course (fun p => p.IsArrival ∧ p.IsRegular id) quiet
      (.start world store interpret) trace s) :
    trace.IsSpaced (trace.journal.appended id []) ∧
    ∀ now runs, (s.store.apply now (.runs id none)).1 = .ok (.runs runs) →
      ∀ later between earlier, later :: (between ++ [earlier]) <:+: runs →
        later.trigger = .cron → earlier.trigger = .cron →
        ∃ f r, trace.Sweeps f r ∧ (later = r ∨ later = r.filed) ∧ f.id = id ∧
        f.Spaces later between earlier := by
  have hstart := Engine.start_traced hclock (Store.holds_empty hstore) hi
  have htraced := h.traced (fun _ hp => hp.1) hstart
  obtain ⟨_, hspaced⟩ := h.spaced hstart (Engine.start_guarded _ _ _)
    (Engine.start_regular id _ _ _)
    (Engine.start_spaced id _ _ _)
  rw [List.nil_append] at htraced hspaced
  obtain ⟨m, hholds, hsound, hfollows⟩ := htraced.store
  -- the history is the beginning of all runs of the flow
  have hkept : ∀ later between earlier, later :: (between ++ [earlier]) <:+: m.history id →
      later.trigger = .cron → earlier.trigger = .cron →
      ∃ f, trace.Sweeps f later ∧ f.id = id ∧ f.Spaces later between earlier := by
    intro later between earlier hwithin hlater hearlier
    have hmem : later ∈ m.history id := hwithin.subset List.mem_cons_self
    have hhistory : m.history id = (trace.journal.appended id []).take limit :=
      hfollows.history id [] List.take_nil.symm
    rw [hhistory] at hwithin
    have hall : later :: (between ++ [earlier]) <:+: trace.journal.appended id [] :=
      hwithin.trans ( List.take_prefix limit _).isInfix
    obtain ⟨f, hsweeps, hspaces⟩ := hspaced.spaced later between earlier hall hlater hearlier
    have ⟨_, _, _, _, hof⟩ := hsweeps
    exact ⟨f, hsweeps, hof.flowId.symm.trans (hsound.run id later hmem).1, hspaces⟩
  refine ⟨hspaced.spaced, fun now runs hruns later between earlier hwithin hlater hearlier => ?_⟩
  rcases hholds.runs_ok hsound hruns with heq | heq
  · obtain rfl := Answer.runs.inj heq
    obtain ⟨f, hsweeps, hid, hspaces⟩ := hkept later between earlier hwithin hlater hearlier
    exact ⟨f, later, hsweeps, Or.inl rfl, hid, hspaces⟩
  · obtain rfl := Answer.runs.inj heq
    obtain ⟨newer, older, hlist⟩ := hwithin
    obtain ⟨front, back, hhistory, hfront, rfl⟩ := List.map_eq_append_iff.mp hlist.symm
    obtain ⟨newer', part, rfl, rfl, hpart⟩ := List.map_eq_append_iff.mp hfront
    obtain ⟨later, rest, rfl, rfl, hrest⟩ := List.map_eq_cons_iff.mp hpart
    obtain ⟨between, lone, rfl, rfl, hlone⟩ := List.map_eq_append_iff.mp hrest
    obtain ⟨earlier, none, rfl, rfl, hnil⟩ := List.map_eq_cons_iff.mp hlone
    obtain rfl := List.map_eq_nil_iff.mp hnil
    obtain ⟨f, hsweeps, hid, hspaces⟩ :=
      hkept later between earlier ⟨newer', back, hhistory.symm⟩ hlater hearlier
    exact ⟨f, later, hsweeps, Or.inr rfl, hid, hspaces.filed⟩

/-- A flow that is due every minute is run by two sweeps of a row, and a minute has passed
in between. -/
theorem occurrence_between_everyMinute :
    let flow : Flow := ⟨"a", "* * * * *", true, []⟩
    let clock : Instant := ⟨63000000000000000⟩
    let plan : Plan := ⟨60000000, some 90000000, clock, .none⟩
    let start : Engine := .start (.start clock (fun _ _ => ⟨0, .ok default⟩) fun _ => "run")
      (.memory (.empty (2 : Nat))) (interpreter default)
    let begun := (start.spawn (.time clock) (.request (.create flow))).spawn (.time clock)
      (.commence plan)
    let s := begun.runFor [0, 1] 40
    ∃ (trace : Trace) (later earlier : RunRecord),
      Course (fun p => p.IsArrival ∧ p.IsRegular "a") Engine.AllWait start trace s ∧
      (s.store.apply s.now (.runs "a" none)).1 = .ok (.runs [later, earlier]) ∧
      later.trigger = .cron ∧ earlier.trigger = .cron ∧
      ∃ f r, trace.Sweeps f r ∧ (later = r ∨ later = r.filed) ∧ f.id = "a" ∧
        Cron.Parts f.definition.schedule earlier later := by
  intro flow clock plan start begun s
  have hcreate : (Operation.create flow).WellFormed :=
    ⟨by decide, fun _ h => (by cases h), by decide +kernel⟩
  have hregular : (Phase.request (.create flow)).IsRegular "a" :=
    ⟨fun h => (by cases h), fun r h => (by cases h)⟩
  have horderly : start.IsOrderly := ⟨List.nodup_nil, fun _ hb => by cases hb⟩
  have hend : s.clock.micros < calendarMicros := by decide +kernel
  obtain ⟨trace, hrow⟩ := Engine.runFor_course (fun p => p.IsArrival ∧ p.IsRegular "a")
    ((horderly.spawn _ _).spawn _ _) (by decide) [0, 1] 40 hend
  have hbegun : Course (fun p => p.IsArrival ∧ p.IsRegular "a") Engine.AllWait start [] begun :=
    (Course.refl.arrive ⟨.request hcreate, hregular⟩ clock).arrive
      ⟨.commence plan, True.intro⟩ clock
  have hcourse := hbegun.trans hrow
  have htriggers : (s.store.apply s.now (.runs "a" none)).1.toOption.map
      (·.runList.map (·.trigger)) = some [.cron, .cron] := by decide +kernel
  cases hanswer : (s.store.apply s.now (.runs "a" none)).1 with
  | error e =>
    rw [hanswer] at htriggers
    cases htriggers
  | ok answer =>
    rw [hanswer] at htriggers
    cases answer with
    | runs runs =>
      obtain ⟨later, rest, rfl, hlater, hrest⟩ :=
        List.map_eq_cons_iff.mp (Option.some_inj.mp htriggers)
      obtain ⟨earlier, rest, rfl, hearlier, hnil⟩ := List.map_eq_cons_iff.mp hrest
      obtain rfl := List.map_eq_nil_iff.mp hnil
      have hbetween := (occurrence_between (by decide) (interpreter_isTimely default)
        (Or.inl (b := _ = Store.table (.empty default 2)) rfl) hcourse).2
      obtain ⟨f, r, hsweeps, hr, hid, hspaces⟩ :=
        hbetween _ _ hanswer later [] earlier List.infix_rfl hlater hearlier
      exact ⟨_, later, earlier, hcourse, rfl, hlater, hearlier, f, r, hsweeps, hr, hid,
        hspaces.parted fun _ hmem => by cases hmem⟩
    | _ => cases htriggers

/-- Whoever's turn has come may act next, whatever the order. -/
theorem advance {arrives : Phase → Prop} (h : ∃ trace, Course arrives quiet s trace s')
    (is : List Nat) :
    ∃ trace, Course arrives quiet s trace (is.foldl Engine.advance s') := by
  induction is generalizing s' with
  | nil => exact h
  | cons i is ih =>
    refine ih ?_
    unfold Engine.advance
    split
    · next a hfind =>
      split_ifs with hturn
      · obtain ⟨trace, h⟩ := h
        obtain ⟨t, ht, htime⟩ := (Option.any_eq_true _ _).mp hturn
        exact ⟨_, h.act (List.mem_of_find?_eq_some hfind) ht (of_decide_eq_true htime)⟩
      · exact h
    · exact h

/-- The record of a manual run that ended before the occurrence of 16:05 is put in after a
sweep has used that occurrence.  The flow then remembers the earlier end, so that the next
sweep uses the occurrence again, and none lies between the two runs of sweeps. -/
theorem occurrence_usedTwice :
    let flow : Flow := ⟨"a", "5 16 * * *", true, []⟩
    let clock : Instant := ⟨63000000000000000⟩
    let later : Instant := ⟨63000000330000000⟩
    let start : Engine := .start (.start clock (fun _ _ => ⟨0, .ok default⟩) fun _ => "run")
      (.memory (.empty (3 : Nat))) (interpreter default)
    let begun := (start.spawn (.time clock) (.request (.create flow))).spawn (.time clock)
      (.load "a" .manual (interpreter default) .keep)
    let pending := ([0, 1, 1, 1, 1, 1].foldl Engine.advance begun).waitUntil later
    let swept := [2, 2, 3, 3, 3, 3, 3, 2, 1].foldl Engine.advance
      (pending.spawn (.time later) (.sweep none .none false))
    let s := [5, 5, 6, 6, 6, 6, 6, 5].foldl Engine.advance
      (swept.spawn (.time later) (.sweep none .none false))
    ∃ (trace : Trace) (second manual first : RunRecord),
      Course (fun p => p.IsArrival ∧ p.IsRegular "a") (fun _ => True) start trace s ∧
      (s.store.apply s.now (.runs "a" none)).1 = .ok (.runs [second, manual, first]) ∧
      second.trigger = .cron ∧ first.trigger = .cron ∧ manual.EndedBefore first ∧
      ¬ Cron.Parts flow.schedule first second := by
  intro flow clock later start begun pending swept s
  let arrives (p : Phase) : Prop := p.IsArrival ∧ p.IsRegular "a"
  have hcreate : (Operation.create flow).WellFormed :=
    ⟨by decide, fun _ h => (by cases h), by decide +kernel⟩
  have hregular : (Phase.request (.create flow)).IsRegular "a" :=
    ⟨fun h => (by cases h), fun r h => (by cases h)⟩
  have hsweep : arrives (.sweep none .none false) := ⟨.sweep none .none, rfl⟩
  have hbegun : ∃ trace, Course arrives (fun _ => True) start trace begun :=
    ⟨_, (Course.refl.arrive ⟨.request hcreate, hregular⟩ clock).arrive
      ⟨.load (interpreter_isTimely default) "a" .manual rfl, fun _ => rfl⟩ clock⟩
  have hpending : ∃ trace, Course arrives (fun _ => True) start trace pending := by
    obtain ⟨trace, h⟩ := advance hbegun [0, 1, 1, 1, 1, 1]
    exact ⟨trace, h.pass True.intro (by decide +kernel) (by decide)⟩
  have hswept : ∃ trace, Course arrives (fun _ => True) start trace swept := by
    obtain ⟨trace, h⟩ := hpending
    exact advance ⟨trace, h.arrive hsweep later⟩ _
  obtain ⟨trace, hcourse⟩ : ∃ trace, Course arrives (fun _ => True) start trace s := by
    obtain ⟨trace, h⟩ := hswept
    exact advance ⟨trace, h.arrive hsweep later⟩ _
  have hruns : (s.store.apply s.now (.runs "a" none)).1.toOption.map
      (·.runList.map fun r => (r.trigger, r.startedAt, r.finishedAt)) =
      some [(.cron, later.toMoment, later.toMoment), (.manual, clock.toMoment, clock.toMoment),
        (.cron, later.toMoment, later.toMoment)] := by decide +kernel
  cases hanswer : (s.store.apply s.now (.runs "a" none)).1 with
  | error e =>
    rw [hanswer] at hruns
    cases hruns
  | ok answer =>
    rw [hanswer] at hruns
    cases answer with
    | runs runs =>
      obtain ⟨second, rest, rfl, hsecond, hrest⟩ :=
        List.map_eq_cons_iff.mp (Option.some_inj.mp hruns)
      obtain ⟨manual, rest, rfl, hmanual, hrest⟩ := List.map_eq_cons_iff.mp hrest
      obtain ⟨first, rest, rfl, hfirst, hnil⟩ := List.map_eq_cons_iff.mp hrest
      obtain rfl := List.map_eq_nil_iff.mp hnil
      refine ⟨trace, second, manual, first, hcourse, rfl, ?_⟩
      simp only [Prod.mk.injEq] at hsecond hmanual hfirst
      refine ⟨hsecond.1, hfirst.1, ⟨clock, later, hmanual.2.2, hfirst.2.2, by decide⟩, ?_⟩
      -- the second sweep ran the flow at the instant at which its first run had ended
      rintro ⟨ended, t, began, hended, hbegan, _, hlt, hle⟩
      have hended' : later.micros = ended.micros :=
        congrArg Moment.wall (hfirst.2.2.symm.trans hended)
      have hbegan' : later.micros = began.micros :=
        congrArg Moment.wall (hsecond.2.1.symm.trans hbegan)
      have hless : ended.micros < began.micros := Int.lt_of_lt_of_le hlt hle
      omega
    | _ => cases hruns

end Course

end Cadence
