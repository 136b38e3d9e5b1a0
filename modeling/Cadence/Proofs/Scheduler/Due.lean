/-
Due flows.

* `StoredFlow.judge_occurs` — the schedule of a due flow has an occurrence after the end of
  its last run that is not after now;
* `StoredFlow.IsDueAt` — a flow is due at an instant;
* `StoredFlow.judge_iff`, `StoredFlow.judge_error` — a flow is judged to be due just if it
  is, and it cannot be judged just if there is no instant to look from;
* `judgeAll_due`, `judgeAll_sublist`, `judgeAll_mem` — the due flows of a list are those
  that are judged so, in order;
* `judgeAll_error`, `judgeAll_ok` — a list cannot be judged just if one of its flows cannot,
  and can be if each scheduled flow has an instant to look from.
-/
import Cadence.Proofs.Cron.Window
import Cadence.Scheduler.Due

namespace Cadence

open Calendar

/-- **The schedule of a due flow has an occurrence after the end of its last run that is not
after now.** -/
theorem StoredFlow.judge_occurs {f : StoredFlow} {now : Instant} {v : Cron.Verdict}
    (h : f.judge now = .ok v) (hdue : v.due = true) :
    ∃ a t, Cron.reference f.lastRunAt now = .ok a ∧ Cron.Occurs f.definition.schedule t ∧
      a < t ∧ t ≤ now := by
  -- a flow that is switched off or has no schedule is not due
  unfold StoredFlow.judge at h
  split_ifs at h
  · exact Cron.isDue_occurs h hdue
  · obtain rfl := Except.ok.inj h
    cases hdue

/-- A flow that is switched on and has a schedule. -/
def StoredFlow.IsScheduled (f : StoredFlow) : Prop :=
  f.definition.enabled = true ∧ Text.isAllBlank f.definition.schedule = false

/-- A scheduled flow whose schedule has an occurrence after the end of its last run and not
after an instant. -/
def StoredFlow.IsDueAt (f : StoredFlow) (now : Instant) : Prop :=
  f.IsScheduled ∧ ∃ a t, Cron.reference f.lastRunAt now = .ok a ∧
    Cron.Occurs f.definition.schedule t ∧ a < t ∧ t ≤ now

section

variable {f : StoredFlow} {now : Instant}

theorem StoredFlow.judge_of_scheduled (h : f.IsScheduled) :
    f.judge now = Cron.isDue f.definition.schedule f.lastRunAt now := by
  rw [StoredFlow.judge, h.1, h.2]
  rfl

theorem StoredFlow.judge_of_not_scheduled (h : ¬ f.IsScheduled) :
    f.judge now = .ok ⟨false, none⟩ := by
  refine if_neg fun hboth => h ?_
  rw [Bool.and_eq_true, Bool.not_eq_true'] at hboth
  exact hboth

/-- A flow cannot be judged just if there is no instant to look from. -/
theorem StoredFlow.judge_error {e : RangeFault} :
    f.judge now = .error e ↔ f.IsScheduled ∧ Cron.reference f.lastRunAt now = .error e := by
  by_cases h : f.IsScheduled
  · rw [judge_of_scheduled h, Cron.isDue_error]
    exact (and_iff_right h).symm
  · rw [judge_of_not_scheduled h]
    exact iff_of_false (fun heq => by cases heq) fun hboth => h hboth.1

/-- **A flow is judged to be due just if it is.** -/
theorem StoredFlow.judge_iff (hlast : ∀ m, f.lastRunAt = some m → m.WellFormed) {v : Cron.Verdict}
    (hjudge : f.judge now = .ok v) : v.due = true ↔ f.IsDueAt now := by
  by_cases h : f.IsScheduled
  · rw [judge_of_scheduled h] at hjudge
    cases hreference : Cron.reference f.lastRunAt now with
    | error e => cases (Cron.isDue_error.mpr hreference).symm.trans hjudge
    | ok a =>
      obtain ⟨v', hverdict, hiff⟩ :=
        Cron.isDue_iff hreference (Cron.reference_nonneg hlast hreference)
      obtain rfl := Except.ok.inj (hjudge.symm.trans hverdict)
      rw [hiff]
      constructor
      · rintro ⟨t, ht⟩
        exact ⟨h, a, t, hreference, ht⟩
      · rintro ⟨_, a', t, ha', ht⟩
        obtain rfl := Except.ok.inj (hreference.symm.trans ha')
        exact ⟨t, ht⟩
  · rw [judge_of_not_scheduled h] at hjudge
    obtain rfl := Except.ok.inj hjudge
    exact iff_of_false (fun heq => by cases heq) fun hdue => h hdue.1

end

section

variable {now : Instant} {f : StoredFlow} {fs due : List StoredFlow}

/-- Judging a list is judging its first flow and then the others. -/
theorem judgeAll_cons (h : (judgeAll now (f :: fs)).1 = .ok due) :
    ∃ v rest, f.judge now = .ok v ∧ (judgeAll now fs).1 = .ok rest ∧
      due = if v.due then f :: rest else rest := by
  rw [judgeAll] at h
  cases hjudge : f.judge now with
  | error e => rw [hjudge] at h; cases h
  | ok v =>
    rw [hjudge] at h
    cases hrest : (judgeAll now fs).1 with
    | error e =>
      simp only [hrest] at h
      cases h
    | ok rest =>
      simp only [hrest] at h
      exact ⟨v, rest, rfl, rfl, (Except.ok.inj h).symm⟩

/-- The flows that are to be run are due. -/
theorem judgeAll_due (h : (judgeAll now fs).1 = .ok due) :
    ∀ f ∈ due, ∃ v, f.judge now = .ok v ∧ v.due = true := by
  induction fs generalizing due with
  | nil =>
    obtain rfl := Except.ok.inj h
    exact fun _ hf => by cases hf
  | cons f fs ih =>
    obtain ⟨v, rest, hjudge, hrest, rfl⟩ := judgeAll_cons h
    intro g hg
    split_ifs at hg with hdue
    · rcases List.mem_cons.mp hg with rfl | hg
      · exact ⟨v, hjudge, hdue⟩
      · exact ih hrest g hg
    · exact ih hrest g hg

/-- The flows that are to be run are some of those that were judged, in the same order. -/
theorem judgeAll_sublist (h : (judgeAll now fs).1 = .ok due) : due.Sublist fs := by
  induction fs generalizing due with
  | nil =>
    obtain rfl := Except.ok.inj h
    exact List.Sublist.refl []
  | cons f fs ih =>
    obtain ⟨v, rest, _, hrest, rfl⟩ := judgeAll_cons h
    split_ifs
    · exact (ih hrest).cons_cons f
    · exact (ih hrest).cons f

/-- A flow of a list is to be run just if it is judged to be due. -/
theorem judgeAll_mem (h : (judgeAll now fs).1 = .ok due) :
    f ∈ due ↔ f ∈ fs ∧ ∃ v, f.judge now = .ok v ∧ v.due = true := by
  constructor
  · exact fun hf => ⟨(judgeAll_sublist h).mem hf, judgeAll_due h f hf⟩
  · rintro ⟨hf, v, hjudge, hdue⟩
    induction fs generalizing due with
    | nil => cases hf
    | cons g fs ih =>
      obtain ⟨w, rest, hg, hrest, rfl⟩ := judgeAll_cons h
      rcases List.mem_cons.mp hf with rfl | hf
      · obtain rfl := Except.ok.inj (hjudge.symm.trans hg)
        rw [if_pos hdue]
        exact List.mem_cons_self
      · split_ifs
        · exact List.mem_cons_of_mem g (ih hrest hf)
        · exact ih hrest hf

/-- A list cannot be judged just if one of its flows cannot. -/
theorem judgeAll_error :
    (∃ e, (judgeAll now fs).1 = .error e) ↔ ∃ f ∈ fs, ∃ e, f.judge now = .error e := by
  induction fs with
  | nil => exact iff_of_false (fun ⟨_, h⟩ => by cases h) fun ⟨_, h, _⟩ => by cases h
  | cons g fs ih =>
    simp only [List.mem_cons, exists_eq_or_imp]
    rw [← ih, judgeAll]
    cases hg : g.judge now with
    | error e => exact iff_of_true ⟨e, rfl⟩ (Or.inl ⟨e, rfl⟩)
    | ok v =>
      have hnone : ¬ ∃ e, (Except.ok v : Except RangeFault Cron.Verdict) = .error e :=
        fun ⟨_, h⟩ => by cases h
      rw [or_iff_right hnone]
      cases hrest : (judgeAll now fs).1 with
      | error e =>
        simp only [hrest]
        exact ⟨fun _ => ⟨e, trivial⟩, fun _ => ⟨e, rfl⟩⟩
      | ok rest =>
        simp only [hrest]
        exact iff_of_false (fun ⟨_, h⟩ => by cases h) fun ⟨_, h⟩ => by cases h

/-- A list can be judged just if each scheduled flow has an instant to look from. -/
theorem judgeAll_ok :
    (∃ due, (judgeAll now fs).1 = .ok due) ↔ ∀ f ∈ fs, f.IsScheduled →
      ∃ a, Cron.reference f.lastRunAt now = .ok a := by
  constructor
  · rintro ⟨due, hdue⟩ f hf hscheduled
    cases hreference : Cron.reference f.lastRunAt now with
    | ok a => exact ⟨a, rfl⟩
    | error e =>
      obtain ⟨e', he'⟩ :=
        judgeAll_error.mpr ⟨f, hf, e, StoredFlow.judge_error.mpr ⟨hscheduled, hreference⟩⟩
      cases hdue.symm.trans he'
  · intro hreferences
    cases hall : (judgeAll now fs).1 with
    | ok due => exact ⟨due, rfl⟩
    | error e =>
      obtain ⟨f, hf, e', he'⟩ := judgeAll_error.mp ⟨e, hall⟩
      obtain ⟨hscheduled, hreference⟩ := StoredFlow.judge_error.mp he'
      obtain ⟨a, ha⟩ := hreferences f hf hscheduled
      cases ha.symm.trans hreference

end

end Cadence
