/-
The latest run of a flow, as tables give it out.

A run that is completed puts its record into the history of its flow.  The record shows the
flow as the store gave it out, so the store can read it again, and until the next run is put
in it stays at the head of the history.

* `Store.Holds.all_reads` — a store can read the flows that it lists;
* `Course.reads_of_put` — a store can read the flow in every record that a run puts into a history;
* `Trace.LeavesRuns` — requests that put nothing into the history of a flow and do not
  remove the flow;
* `Course.latest_run` — until then the record that a run ended with is at the head of the
  history that tables give out, if they can read it, just as it was if the outputs of its
  steps hold only finite numbers, and otherwise with null in place of the numbers that are
  not finite.
-/
import Cadence.Proofs.Scheduler.Coverage
import Cadence.Proofs.Scheduler.NoLostUpdate

namespace Cadence

open Calendar

/-! ### Flows that are given out -/

/-- The flows that a store lists are flows that it can read. -/
theorem Store.Holds.all_reads {s : Store} {m : Memory} {now : Moment} (h : s.Holds m) (hs : m.Sound)
    {fs : List StoredFlow} (ha : (s.apply now .all).1 = .ok (.flows fs)) :
    ∀ f ∈ fs, s.Reads f.definition.toJson := by
  cases s with
  | memory m' => exact fun _ _ => True.intro
  | table t =>
    intro f hf
    have hall : (Table.all t).1.toOption = some (.flows fs) := toOption_eq_some.mpr ha
    rw [Table.Holds.toOption_all h hs] at hall
    split at hall
    · next hfinite =>
      obtain rfl := Answer.flows.inj (Option.some_inj.mp hall)
      exact List.all_eq_true.mp hfinite f ((byId_perm _).mem_iff.mp hf)
    · cases hall
  | remote => exact h.elim

/-- A flow that a run begins with can be read by the store that gave it out. -/
theorem Deed.Shows.reads {limit : Nat} {trace : Trace} {s : Engine}
    (hs : s.Traced limit trace) {a : Activity} {d : Deed} (hdeed : s.deed? a = some d)
    {i : Nat} {trigger : Trigger} {goal : Goal} {f : StoredFlow}
    (h : d.Shows i trigger goal f) : s.store.Reads f.definition.toJson := by
  obtain ⟨m, hholds, hsound, _⟩ := hs.store
  obtain ⟨op, hrequest, rfl⟩ := Option.map_eq_some_iff.mp hdeed
  cases h with
  | loaded hactor hphase hgoal hanswer =>
    rw [show a.phase = _ from hphase] at hrequest
    obtain rfl : op = .find f.id := (Option.some_inj.mp hrequest).symm
    exact ((hholds.find_iff hsound).mp hanswer).2
  | listed hbegan hphase htrigger hgoal hanswer hlisted =>
    rw [show a.phase = _ from hphase] at hrequest
    obtain rfl := Phase.survey_request? hrequest
    exact hholds.all_reads hsound hanswer f hlisted

/-! ### Records of runs -/

/-- Requests that put nothing into the history of a flow and do not remove the flow. -/
def Trace.LeavesRuns (trace : Trace) (id : String) : Prop :=
  ∀ d ∈ trace, d.entry.operation ≠ .remove id ∧ ∀ r, d.entry.put? = some r → r.flowId ≠ id

/-- What a run that ends puts into a history is its record. -/
theorem Engine.append_of_put {s : Engine} {a : Activity} {d : Deed} (hdeed : s.deed? a = some d)
    (hrun : d.actor.phase.isRun = true) {r : RunRecord} (hput : d.entry.put? = some r) :
    ∃ goal, d.actor.phase = .append r goal := by
  obtain ⟨op, hrequest, rfl⟩ := Option.map_eq_some_iff.mp hdeed
  obtain rfl : op = .append r := (Entry.put?_some.mp hput).1
  cases hphase : a.phase with
  | run task goal =>
    rw [hphase] at hrequest
    cases hrequest
  | append r' goal =>
    rw [hphase] at hrequest
    cases Phase.append_request? hrequest
    exact ⟨goal, rfl⟩
  | _ =>
    rw [show (Activity.phase _) = _ from hphase] at hrun
    cases hrun

namespace Course

variable {arrives : Phase → Prop} {quiet : Engine → Prop} {limit : Nat}
  {before trace : Trace} {s s' : Engine}

/-- A store can read every flow that a run began with. -/
theorem reads_of_loads (harrives : ∀ p, arrives p → p.IsArrival)
    (h : Course arrives quiet s trace s') (hs : s.Traced limit []) {i : Nat}
    {trigger : Trigger} {goal : Goal} {f : StoredFlow}
    (hloads : trace.Loads i trigger goal f) : s.store.Reads f.definition.toJson := by
  obtain ⟨before, d, after, htrace, hshows, _⟩ := hloads
  obtain ⟨u, a, _, hbefore, _, _, _, hdeed, _⟩ := h.split htrace
  rw [← hbefore.reads_eq harrives hs]
  exact hshows.reads (hbefore.traced harrives hs) hdeed

/-- **A store can read the flow in every record that a run puts into a history.** -/
theorem reads_of_put (harrives : ∀ p, arrives p → p.IsArrival)
    (h : Course arrives quiet s trace s') (hs : s.Traced limit []) {d : Deed}
    (hd : d ∈ trace) (hrun : d.actor.phase.isRun = true) {r : RunRecord}
    (hput : d.entry.put? = some r) : s.store.Reads r.flow.toJson := by
  obtain ⟨before, after, htrace⟩ := List.append_of_mem hd
  obtain ⟨u, a, _, hbefore, _, _, _, hdeed, _⟩ := h.split htrace
  obtain ⟨goal, hphase⟩ := Engine.append_of_put hdeed hrun hput
  have hnone : Trace.IsFaithful [] := fun before d after h => by simp at h
  obtain ⟨f, trigger, hloads, hof⟩ :=
    h.isFaithful harrives hs hnone before d after htrace r goal hphase
  rw [hof.flow]
  exact hbefore.reads_of_loads harrives hs hloads

/-- Tables stay tables, and keep their codec. -/
theorem store_table (h : Course arrives quiet s trace s') {t : Table} (hstore : s.store = .table t)
    (harrives : ∀ p, arrives p → p.IsArrival) (hs : s.Traced limit before) :
    ∃ t', s'.store = .table t' ∧ t'.codec = t.codec := by
  induction h with
  | refl => exact ⟨t, hstore, rfl⟩
  | @act trace s' hcourse a _ hgoing _ _ ih =>
    obtain ⟨m, _, hbecomes⟩ := Engine.step_moves (hcourse.traced harrives hs).orderly hgoing
    obtain ⟨t', ht, hcodec⟩ := ih
    rw [hbecomes.store, Engine.storeAfter, ht]
    split
    · exact ⟨_, rfl, (t'.codec_apply _ _).trans hcodec⟩
    · exact ⟨t', rfl, hcodec⟩
  | pass _ _ _ _ ih => exact ih
  | arrive _ _ _ ih => exact ih

end Course

/-! ### The head of a history -/

theorem Journal.appended_of_leaves {id : String} (j j' : Journal)
    (h : ∀ e ∈ j', e.operation ≠ .remove id ∧ ∀ r, e.put? = some r → r.flowId ≠ id) :
    (j ++ j' : Journal).appended id [] = j.appended id [] := by
  induction j' generalizing j with
  | nil => rw [List.append_nil]
  | cons e j' ih =>
    obtain ⟨hop, hput⟩ := h e List.mem_cons_self
    rw [List.append_cons, ih _ fun e' he' => h e' (List.mem_cons_of_mem e he'),
      appended_same hop hput]

/-- A record that is put into a history stays at the head of it while requests leave it alone. -/
theorem Trace.appended_of_put {before after : Trace} {d : Deed} {r : RunRecord}
    (hput : d.entry.put? = some r) (hafter : after.LeavesRuns r.flowId) :
    (before ++ d :: after : Trace).journal.appended r.flowId [] = r ::
      before.journal.appended r.flowId [] := by
  have hjournal : (before ++ d :: after : Trace).journal = before.journal ++ [d.entry] ++
      after.journal := by
    rw [List.append_cons, journal_append, journal_append]
    rfl
  rw [hjournal, Journal.appended_of_leaves, Journal.appended_put hput rfl]
  intro e he
  obtain ⟨d', hd', rfl⟩ := List.mem_map.mp he
  exact hafter d' hd'

/-! ### The latest run -/

/-- Whether a run is asked for only to look at its record. -/
def Phase.isLook : Phase → Bool
  | .load _ _ _ .look => true
  | _ => false

theorem Trace.Looks.exists_isLook {trace : Trace} {i : Nat} (h : trace.Looks i) :
    ∃ d ∈ trace, d.actor.id = i ∧ d.actor.phase.isLook = true := by
  obtain ⟨trigger, f, before, d, after, rfl, hshows, _⟩ := h
  refine ⟨d, List.mem_append_right _ List.mem_cons_self, ?_⟩
  cases hshows with
  | loaded hactor hphase hgoal hanswer => exact ⟨hactor, by rw [hphase]; rfl⟩
  | listed hbegan hphase htrigger hgoal hanswer hlisted => cases hgoal

theorem Engine.mem_of_recordOf? {s : Engine} {i : Nat} {r : RunRecord}
    (h : s.recordOf? i = some r) :
    ∃ e ∈ s.endings, e.id = i ∧ e.ending = .record r := by
  unfold recordOf? at h
  split at h
  · next id r' at' hended =>
    obtain rfl := Option.some_inj.mp h
    unfold ended? at hended
    exact ⟨_, List.mem_of_find?_eq_some hended, by simpa using List.find?_some hended, rfl⟩
  · cases h

namespace Course

variable {quiet : Engine → Prop} {codec : Codec} {limit : Nat} {trace : Trace} {s : Engine}

/-- **The latest run is at the head of the history.**  Let a run over tables end with a
record, and not have been asked for only to look at it.  Then it has put the record into the
history of its flow.  While requests leave the history alone and the flow can be read,
tables give out a history that begins with what is left of the record, if what was written
of it can be read and the older records that are kept come back: just the record if the
outputs of its steps hold only finite numbers, and otherwise the record with null in place
of the other ones. -/
theorem latest_run {world : Surroundings} (hclock : inCalendar world.clock.micros = true)
    {interpret : Interpreter} (hi : interpret.IsTimely) (hlimit : 1 ≤ limit)
    (h : Course Phase.IsArrival quiet
      (.start world (.table (.empty codec limit)) interpret) trace s)
    {i : Nat} {r : RunRecord} (hrecord : s.recordOf? i = some r)
    (hkept : ∀ d ∈ trace, d.actor.id = i → d.actor.phase.isLook = false) :
    ∃ (before : Trace) (d : Deed) (after : Trace),
      trace = before ++ d :: after ∧ d.actor.id = i ∧ d.entry.put? = some r ∧
      (after.LeavesRuns r.flowId → ∀ now f, (s.store.apply now (.find r.flowId)).1 = .ok (.flow f) →
        ∃ older, (trace.journal.appended r.flowId []).take limit = r :: older ∧
          (s.store.apply now (.runs r.flowId none)).1.toOption =
            if codec.reads r.toJson && older.all codec.returns then
              some (.runs (r.filed :: older.map RunRecord.filed)) else none) ∧
      (r.filed = r ↔ ∀ o ∈ r.steps, o.output.allFinite = true) := by
  have harrives : ∀ p, Phase.IsArrival p → Phase.IsArrival p := fun _ hp => hp
  have hempty : (Store.table (.empty codec limit)).Holds (.empty limit) :=
    Table.holds_empty codec limit
  have hstart := Engine.start_traced hclock hempty hi
  -- the request that put the record in
  obtain ⟨e, he, rfl, hending⟩ := Engine.mem_of_recordOf? hrecord
  have haccounts := h.accounts harrives hstart (Engine.start_accounts _ _ _)
  have hputs : trace.putBy e.id = [r] := by
    refine (haccounts.recorded e he r hending).resolve_right fun hlooks => ?_
    obtain ⟨d, hd, hid, hlook⟩ := hlooks.exists_isLook
    cases hlook.symm.trans (hkept d hd hid)
  obtain ⟨d, hd, hput⟩ :=
    List.mem_filterMap.mp (show r ∈ trace.putBy e.id from hputs ▸ List.mem_singleton_self r)
  obtain ⟨hid, hput⟩ := Option.ite_none_right_eq_some.mp hput
  have hreads := h.reads_of_put harrives hstart hd
    (haccounts.byRun e he r hending d hd hid r hput) hput
  obtain ⟨before, after, rfl⟩ := List.append_of_mem hd
  refine ⟨before, d, after, rfl, hid, hput, fun hafter now f hf => ?_, ?_⟩
  · obtain ⟨t, ht, rfl⟩ := h.store_table rfl harrives hstart
    obtain ⟨m, hholds, hsound, hfollows⟩ := (h.traced harrives hstart).store
    rw [List.nil_append] at hfollows
    have hhistory : m.history r.flowId = (Journal.appended r.flowId [] _).take limit :=
      hfollows.history r.flowId [] List.take_nil.symm
    rw [Trace.appended_of_put hput hafter, List.take_cons hlimit] at hhistory
    rw [ht] at hholds hf ⊢
    obtain ⟨hlookup, hread⟩ := (hholds.find_iff hsound).mp hf
    have hanswer := Table.Holds.toOption_history hholds hsound
      (Table.Holds.flowAt_ok hholds hsound hlookup hread)
      (show IsCount none from fun _ h => by cases h)
    -- the flow that the record shows was given out, so only the rest of the record may be
    -- unreadable
    have hkeeps : t.codec.keeps r.flow.toJson = true := hreads
    have hreturns : t.codec.returns r = t.codec.reads r.toJson := by
      rw [Codec.returns, ((Bool.and_eq_true _ _).mp hkeeps).1, Bool.true_and]
    rw [hhistory, askedPart, List.all_cons, hreturns, List.map_cons] at hanswer
    rw [Trace.appended_of_put hput hafter, List.take_cons hlimit]
    exact ⟨_, rfl, hanswer⟩
  · rw [RunRecord.filed_eq_self, List.all_eq_true]

/-- A run with a fetch that is answered is at the head of the history of its flow, just as
it was. -/
theorem latest_run_fetch :
    let clock : Instant := ⟨63000000000000000⟩
    let f : Flow := ⟨"a", "", true, [.fetch ⟨"x", "http://host/", .get, none, none, none⟩]⟩
    let world : Surroundings := .start clock (fun _ _ => ⟨0, .ok ⟨200, [], [0x37]⟩⟩) fun _ => "run"
    let start : Engine := .start world (.table (.empty default (2 : Nat))) (interpreter default)
    let asked := (start.spawn (.time clock) (.request (.create f))).spawn (.time clock)
      (.load "a" .manual (interpreter default) .keep)
    let s := asked.runFor [0, 1] 20
    ∃ r rest, s.recordOf? 1 = some r ∧ r.log.getLast? = some "[fetch:x] GET http://host/ -> 200" ∧
      (s.store.apply s.now (.runs "a" none)).1 = .ok (.runs (r :: rest)) := by
  intro clock f world start asked s
  have hflow : f.WellFormed :=
    ⟨by decide, fun s hs => List.mem_singleton.mp hs ▸
      ⟨by decide, fun _ hs => (by cases hs), fun _ h => by cases h⟩, by decide +kernel⟩
  have hstart : start.IsOrderly := ⟨List.nodup_nil, fun _ hb => by cases hb⟩
  have hcourse : Course Phase.IsArrival Engine.AllWait start (asked.traceFor [0, 1] 20) s :=
    ((Course.refl.arrive (.request (show (Operation.create f).WellFormed from hflow)) clock).arrive
      (.load (interpreter_isTimely default) "a" .manual rfl) clock).trans
      (Engine.runFor_trace _ ((hstart.spawn _ _).spawn _ _) (by decide) [0, 1] 20
        (by decide +kernel))
  -- what the run came to
  have hwhole : (s.recordOf? 1).map
      (fun r => (r.flowId, r.log.getLast?, r.steps.all fun o => o.output.allFinite)) =
      some ("a", some "[fetch:x] GET http://host/ -> 200", true) := by decide +kernel
  obtain ⟨r, hr, hparts⟩ := Option.map_eq_some_iff.mp hwhole
  obtain ⟨hid, hparts⟩ := Prod.mk.inj hparts
  obtain ⟨hlog, hfinite⟩ := Prod.mk.inj hparts
  have hfound : ((s.store.apply s.now (.find "a")).1.toOption.bind Answer.flow?).isSome =
      true := by decide +kernel
  -- only the last request put in a record
  have hputs : (asked.traceFor [0, 1] 20).map (·.entry.put?.isSome) =
      [false, false, true] := by decide +kernel
  have hlooks : (asked.traceFor [0, 1] 20).all (fun d => !d.actor.phase.isLook) =
      true := by decide +kernel
  have hcount : ((asked.traceFor [0, 1] 20).journal.appended "a" []).length = 1 := by decide +kernel
  obtain ⟨before, d, after, htrace, _, hput, hhead, hsame⟩ :=
    latest_run rfl (interpreter_isTimely default)
    (by decide) hcourse hr (fun d hd _ => by simpa using List.all_eq_true.mp hlooks d hd)
  have hafter : after = [] := by
    rw [htrace, List.map_append, List.map_cons, hput] at hputs
    rcases List.eq_nil_or_concat after with rfl | ⟨rest, x, rfl⟩
    · rfl
    · rw [List.concat_eq_append, List.map_append, ← List.cons_append, ← List.append_assoc] at hputs
      have hearlier :=
        (List.append_inj' (hputs.trans (show _ = [false, false] ++ [true] from rfl)) rfl).1
      exact absurd (show true ∈ [false, false] from hearlier ▸ by simp) (by decide)
  subst hafter
  obtain ⟨g, hg⟩ := Option.isSome_iff_exists.mp hfound
  obtain ⟨ans, hans, hflow⟩ := Option.bind_eq_some_iff.mp hg
  cases ans with
  | flow g' =>
    obtain ⟨older, hlist, hrest⟩ :=
      hhead (fun _ h => by cases h) s.now g' (hid ▸ toOption_eq_some.mp hans)
    have hlength := congrArg List.length hlist
    rw [List.length_take, hid, hcount] at hlength
    obtain rfl := List.length_eq_zero_iff.mp (Nat.succ.inj hlength).symm
    rw [hsame.mpr (List.all_eq_true.mp hfinite), hid] at hrest
    exact ⟨r, _, hr, hlog, toOption_eq_some.mp hrest⟩
  | _ => cases hflow

end Course

end Cadence
