/-
Sweeps come to an end.

What a sweep or one of its runs does leaves less for it to do, and a sweep that lists the
flows begins runs, which have less to do than the sweep had.  So only finitely many things
happen, in whatever order the turns come.

* `Phase.After`, `Phase.after_wf` — what a sweep or a run goes on to or begins, which has an end;
* `Engine.cutExpand_step`, `Engine.phases_step` — a step puts what comes after it in the
  place of a phase;
* `Engine.Descends` — the invariant: only sweeps and runs go on, and each waits for an
  instant or for others that began after it;
* `Engine.Descends.runFor_ends` — whatever is waited for comes to an end.
-/
import Mathlib.Logic.Hydra
import Cadence.Proofs.Scheduler.Service

namespace Cadence

open Calendar Relation

/-! ### What comes after a phase -/

/-- What a sweep or a run may go on to or begin. -/
inductive Phase.After : Phase → Phase → Prop where
  | answers {e : Effect} (next : e.Answer → Task RunRecord) (answer : e.Answer) (goal : Goal) :
      After (.run (next answer) goal) (.run (.ask e next) goal)
  | finishes (r : RunRecord) (goal : Goal) : After (.append r goal) (.run (.done r) goal)
  | lists (now : Option Moment) (outages : Outages) (spawned : Bool) :
      After (.survey now outages spawned) (.sweep now outages spawned)
  | collects (runs : List Nat) (now : Option Moment) (outages : Outages) (spawned : Bool) :
      After (.collect runs) (.survey now outages spawned)
  | runs (task : Task RunRecord) (goal : Goal) (now : Option Moment) (outages : Outages)
      (spawned : Bool) :
      After (.run task goal) (.survey now outages spawned)
  | loses (f : StoredFlow) (now : Option Moment) (outages : Outages) (spawned : Bool) :
      After (.lose f) (.survey now outages spawned)

namespace Phase

theorem acc_append (r : RunRecord) (goal : Goal) : Acc After (.append r goal) :=
  ⟨_, fun _ h => by cases h⟩

/-- A run has an end, as its task is finite. -/
theorem acc_run (task : Task RunRecord) (goal : Goal) : Acc After (.run task goal) := by
  induction task with
  | done r =>
    refine ⟨_, fun p h => ?_⟩
    cases h
    exact acc_append r goal
  | ask e next ih =>
    refine ⟨_, fun p h => ?_⟩
    cases h with
    | answers _ answer _ => exact ih answer

theorem acc_survey (now : Option Moment) (outages : Outages) (spawned : Bool) :
    Acc After (.survey now outages spawned) := by
  refine ⟨_, fun p h => ?_⟩
  cases h with
  | collects runs => exact ⟨_, fun _ h => by cases h⟩
  | runs task goal => exact acc_run task goal
  | loses f => exact ⟨_, fun _ h => by cases h⟩

theorem after_wf : WellFounded After := by
  refine ⟨fun p => ?_⟩
  cases p with
  | run task goal => exact acc_run task goal
  | survey now outages spawned => exact acc_survey now outages spawned
  | sweep now outages spawned =>
    refine ⟨_, fun p h => ?_⟩
    cases h
    exact acc_survey now outages spawned
  | _ => exact ⟨_, fun _ h => by cases h⟩

/-- Whether an activity is a sweep or a run. -/
def isOfSweep : Phase → Bool
  | .sweep _ _ _ | .survey _ _ _ | .collect _ | .run _ _ | .append _ _ | .lose _ => true
  | _ => false

theorem isOfSweep_of_isRow {phase : Phase} (h : phase.isRow = true) : phase.isOfSweep = false :=
  of_isRow h (fun _ => rfl) (fun _ => rfl) (fun _ => rfl) rfl

end Phase

namespace Engine

variable {s : Engine} {a b : Activity} {m : Move} {t : Instant} {turn : Turn} {phase : Phase}

theorem Onward.after (h : s.Onward a turn phase) (hsweep : a.phase.isOfSweep = true) :
    phase.After a.phase ∧ phase.isOfSweep = true := by
  cases h with
  | loads hphase => rw [hphase] at hsweep; cases hsweep
  | waits hphase => rw [hphase]; exact ⟨@Phase.After.answers (.wait _) _ () _, rfl⟩
  | asks hphase => rw [hphase]; exact ⟨.answers _ _ _, rfl⟩
  | finishes hphase => rw [hphase]; exact ⟨.finishes _ _, rfl⟩
  | sweeps hphase => rw [hphase]; exact ⟨.lists _ _ _, rfl⟩
  | surveys hphase => rw [hphase]; exact ⟨.collects _ _ _ _, rfl⟩
  | goesOn hphase => cases (Phase.isOfSweep_of_isRow hphase).symm.trans hsweep

theorem Begins.after (h : s.Begins a phase) (hsweep : a.phase.isOfSweep = true) :
    phase.After a.phase ∧ phase.isOfSweep = true := by
  cases h with
  | run hphase =>
    rw [hphase, runPhase]
    split
    · exact ⟨.loses _ _ _ _, rfl⟩
    · exact ⟨.runs _ _ _ _ _, rfl⟩
  | sweep outages hrow => cases (Phase.isOfSweep_of_isRow hrow).symm.trans hsweep

/-! ### What is left to do -/

/-- Those that go on after a step are those that stay and those that move or begin. -/
theorem step_perm (hs : s.IsOrderly) (ha : a ∈ s.activities) : ∃ others new,
    s.activities.Perm (a :: others) ∧ (s.step a).activities.Perm (others ++ new) ∧
      ∀ b ∈ new, (∃ turn, s.Onward a turn b.phase) ∨ s.Begins a b.phase := by
  obtain ⟨m, hm, hbecomes⟩ := step_moves hs ha
  -- those that stay are told by their ids from whoever acts and from those that begin
  let stays : Activity → Bool := fun b => b.id != a.id && decide (b.id < s.count)
  have hstays (b : Activity) : stays b = true ↔ b.id ≠ a.id ∧ b.id < s.count := by
    simp only [stays, Bool.and_eq_true, bne_iff_ne, decide_eq_true_eq]
  refine ⟨(s.step a).activities.filter stays, (s.step a).activities.filter fun b => !stays b, ?_,
    (List.filter_append_perm _ _).symm, fun b hb => ?_⟩
  · have hnodup := hs.single.of_map
    have hothers := hbecomes.orderly.single.of_map.filter stays
    have hself : a ∉ (s.step a).activities.filter stays :=
      fun hmem => ((hstays a).mp (List.mem_filter.mp hmem).2).1 rfl
    refine (List.perm_ext_iff_of_nodup hnodup (List.nodup_cons.mpr ⟨hself, hothers⟩)).mpr fun b =>
      ?_
    rw [List.mem_cons, List.mem_filter, hstays]
    constructor
    · intro hb
      rcases Decidable.eq_or_ne b.id a.id with hid | hid
      · exact Or.inl (hs.unique ha hb hid)
      · exact Or.inr ⟨hbecomes.stay b hb hid, hid, hs.id_lt b hb⟩
    · rintro (rfl | ⟨hb, hid, hlt⟩)
      · exact ha
      · cases hbecomes.going b hb with
        | stays hgoing hother => exact hgoing
        | moves hfate hself => exact absurd hself hid
        | begins hbegun hnew hturn => omega
  · obtain ⟨hmem, hnew⟩ := List.mem_filter.mp hb
    cases hbecomes.going b hmem with
    | stays hgoing hother =>
      exact absurd ((hstays b).mpr ⟨hother, hs.id_lt b hgoing⟩) (by simpa using hnew)
    | moves hfate hid => exact Or.inl ⟨b.turn, hm.onward hfate⟩
    | begins hbegun hid hturn => exact Or.inr (hm.begins hbegun)

/-- A step leaves less to do if there is as much left for those that stay, and less for
those that move or begin than for whoever acts. -/
theorem cutExpand_step {α : Type} {less : α → α → Prop} {f g : Phase → α} (hs : s.IsOrderly)
    (ha : a ∈ s.activities) (hothers : ∀ b ∈ s.activities, b.id ≠ a.id → g b.phase = f b.phase)
    (hnew : ∀ b ∈ (s.step a).activities, ((∃ turn, s.Onward a turn b.phase) ∨ s.Begins a b.phase) →
      less (g b.phase) (f a.phase)) :
    CutExpand less ((s.step a).activities.map fun b => g b.phase : List α)
      (s.activities.map fun b => f b.phase : List α) := by
  obtain ⟨others, new, hperm, hperm', hkinds⟩ := step_perm hs ha
  have hsame : (others.map fun b => g b.phase) = others.map fun b => f b.phase := by
    refine List.map_congr_left fun b hb =>
      hothers b (hperm.mem_iff.mpr (List.mem_cons_of_mem _ hb)) fun hid => ?_
    have hnodup := (hperm.map (·.id)).nodup_iff.mp hs.single
    rw [List.map_cons, List.nodup_cons] at hnodup
    exact hnodup.1 (hid ▸ List.mem_map_of_mem hb)
  refine ⟨(new.map fun b => g b.phase : List α), f a.phase, fun p hp => ?_, ?_⟩
  · obtain ⟨b, hb, rfl⟩ := List.mem_map.mp (Multiset.mem_coe.mp hp)
    exact hnew b (hperm'.mem_iff.mpr (List.mem_append_right _ hb)) (hkinds b hb)
  · rw [Multiset.coe_eq_coe.mpr (hperm'.map _), Multiset.coe_eq_coe.mpr (hperm.map _),
      List.map_append, hsame,
      List.map_cons, ← Multiset.coe_add, ← Multiset.cons_coe, ← Multiset.singleton_add,
      Multiset.add_comm _ {_}, ← Multiset.add_assoc]

/-- The phases of the activities that are going on. -/
def phases (s : Engine) : Multiset Phase := (s.activities.map (·.phase) : List Phase)

/-- **A step puts phases that come after it in the place of the phase of whoever acts.** -/
theorem phases_step (hs : s.IsOrderly) (ha : a ∈ s.activities) (hsweep : a.phase.isOfSweep = true) :
    CutExpand Phase.After (s.step a).phases s.phases := by
  refine cutExpand_step (f := id) (g := id) hs ha (fun _ _ _ => rfl) fun b _ hkind => ?_
  rcases hkind with ⟨turn, honward⟩ | hbegins
  · exact (honward.after hsweep).1
  · exact (hbegins.after hsweep).1

/-! ### Whatever goes on comes to an end -/

/-- Only sweeps and their runs go on, and each of them waits for an instant or for others
that began after it. -/
structure Descends (s : Engine) : Prop where
  orderly : s.IsOrderly
  ofSweep : ∀ a ∈ s.activities, a.phase.isOfSweep = true
  turns : ∀ a ∈ s.activities, (∃ t, a.turn = .time t) ∨ ∃ others, a.turn = .after others ∧
    ∀ j ∈ others, a.id < j

theorem Descends.of_alone (hs : s.IsOrderly) (ha : s.activities = [a])
    (hsweep : a.phase.isOfSweep = true) (hturn : a.turn = .time t) : s.Descends := by
  refine ⟨hs, fun b hb => ?_, fun b hb => ?_⟩
  · rw [ha, List.mem_singleton] at hb
    exact hb ▸ hsweep
  · rw [ha, List.mem_singleton] at hb
    exact Or.inl ⟨t, hb ▸ hturn⟩

theorem Descends.waitUntil (h : s.Descends) (t : Instant) : (s.waitUntil t).Descends :=
  ⟨h.orderly.waitUntil t, h.ofSweep, h.turns⟩

/-- A sweep that waits for its runs waits for what it has just begun. -/
theorem Allows.waits_for (hm : s.Allows a m) (hsweep : a.phase.isOfSweep = true)
    (hknown : a.id < s.count)
    (hturns : (∃ t, a.turn = .time t) ∨ ∃ others, a.turn = .after others ∧ ∀ j ∈ others, a.id < j)
    (hfate : m.fate = .onward turn phase) :
    (∃ t, turn = .time t) ∨ ∃ others, turn = .after others ∧ ∀ j ∈ others, a.id < j := by
  cases hm.onward hfate with
  | waits hrun => exact Or.inl ⟨_, rfl⟩
  | @surveys now outages spawned runs hsurvey hrequest =>
    rcases hm.of_survey hsurvey with ⟨ending, rfl, _⟩ | ⟨due, _, _, hcollect, _⟩
    · cases hfate
    · obtain ⟨hturn, _⟩ := Fate.onward.inj (hfate.symm.trans hcollect)
      refine Or.inr ⟨_, hturn, fun j hj => ?_⟩
      obtain ⟨k, f, _, rfl⟩ := mem_runIds.mp hj
      exact Nat.lt_add_right k hknown
  | goesOn hrow => cases (Phase.isOfSweep_of_isRow hrow).symm.trans hsweep
  | _ => exact hturns

/-- **Whatever a sweep or a run does, only sweeps and runs go on after it, and each waits
for an instant or for others that began after it.** -/
theorem Descends.step (h : s.Descends) (ha : a ∈ s.activities) : (s.step a).Descends := by
  obtain ⟨m, hm, hbecomes⟩ := step_moves h.orderly ha
  have hsweep := h.ofSweep a ha
  refine ⟨hbecomes.orderly, fun b hb => ?_, fun b hb => ?_⟩
  · cases hbecomes.going b hb with
    | stays hgoing hother => exact h.ofSweep b hgoing
    | moves hfate hid => exact ((hm.onward hfate).after hsweep).2
    | begins hbegun hid hturn => exact ((hm.begins hbegun).after hsweep).2
  · cases hbecomes.going b hb with
    | stays hgoing hother => exact h.turns b hgoing
    | moves hfate hid => exact hid ▸ hm.waits_for hsweep (h.orderly.id_lt a ha) (h.turns a ha) hfate
    | begins hbegun hid hturn => exact Or.inl ⟨_, hturn⟩

/-- Who waits for an instant or for others that began later has a turn, or somebody who
began later goes on. -/
theorem turn_or_later (hturns : (∃ t, a.turn = .time t) ∨
      ∃ others, a.turn = .after others ∧ ∀ j ∈ others, s.isGoing j = true → a.id < j) :
    (∃ t, s.turnOf? a.turn = some t) ∨ ∃ b ∈ s.activities, a.id < b.id := by
  rcases hturns with ⟨t, hturn⟩ | ⟨others, hturn, hlater⟩
  · exact Or.inl ⟨t, by rw [hturn]; rfl⟩
  · cases hany : others.any s.isGoing with
    | false =>
      refine Or.inl ⟨s.clock, ?_⟩
      rw [hturn, turnOf?, hany]
      rfl
    | true =>
      obtain ⟨j, hj, hgoing⟩ := List.any_eq_true.mp hany
      obtain ⟨b, hb, hid⟩ := List.any_eq_true.mp hgoing
      obtain rfl := beq_iff_eq.mp hid
      exact Or.inr ⟨b, hb, hlater b.id hj hgoing⟩

/-- If nobody waits but for those that began later, it is somebody's turn at some instant. -/
theorem IsOrderly.exists_turn (hs : s.IsOrderly)
    (hwaits : ∀ a ∈ s.activities, (∃ t, s.turnOf? a.turn = some t) ∨
      ∃ b ∈ s.activities, a.id < b.id)
    (ha : a ∈ s.activities) : ∃ b ∈ s.activities, ∃ t, s.turnOf? b.turn = some t := by
  -- by induction on how many ids were given out later
  induction hleft : s.count - a.id using Nat.strongRecOn generalizing a with
  | _ left ih =>
    rcases hwaits a ha with hturn | ⟨b, hb, hlater⟩
    · exact ⟨a, ha, hturn⟩
    · have hlt := hs.id_lt b hb
      exact ih _ (by omega) hb rfl

/-- As long as anything goes on it is somebody's turn at some instant. -/
theorem Descends.exists_turn (h : s.Descends) (ha : a ∈ s.activities) :
    ∃ b ∈ s.activities, ∃ t, s.turnOf? b.turn = some t :=
  h.orderly.exists_turn
      (fun b hb => turn_or_later ((h.turns b hb).imp_right fun ⟨others, hturn, hlater⟩ =>
    ⟨others, hturn, fun j hj _ => hlater j hj⟩)) ha

/-- **Whatever is waited for comes to an end, by itself.** -/
theorem Descends.runFor_ends (h : s.Descends) (ids : List Nat) :
    ∃ fuel, ∀ i ∈ ids, (s.runFor ids fuel).isGoing i = false := by
  -- by induction on what is left to do
  induction hphases : s.phases using (Phase.after_wf.cutExpand).induction generalizing s with
  | h phases ih =>
    subst hphases
    cases hany : ids.any s.isGoing with
    | false => exact ⟨0, fun i hi => Bool.eq_false_iff.mpr (List.any_eq_false.mp hany i hi)⟩
    | true =>
      obtain ⟨i, hi, hgoing⟩ := List.any_eq_true.mp hany
      obtain ⟨b, hb, hid⟩ := List.any_eq_true.mp hgoing
      obtain ⟨c, hc, t, hturn⟩ := h.exists_turn hb
      obtain ⟨⟨u, a⟩, hnext⟩ := next?_isSome hc hturn
      have ha := (next?_spec hnext).1
      have hless := phases_step (h.waitUntil u).orderly ha (h.ofSweep a ha)
      obtain ⟨fuel, hends⟩ := ih _ hless ((h.waitUntil u).step ha) rfl
      refine ⟨fuel + 1, fun j hj => ?_⟩
      rw [runFor, if_pos hany, hnext]
      exact hends j hj

end Engine

theorem Course.descends {quiet : Engine → Prop} {trace : Trace} {s s' : Engine}
    (h : Course (fun _ => False) quiet s trace s') (hs : s.Descends) : s'.Descends := by
  induction h with
  | refl => exact hs
  | act _ hgoing _ _ ih => exact ih.step hgoing
  | pass _ _ _ _ ih => exact ih.waitUntil _
  | arrive _ harrives _ _ => exact harrives.elim

end Cadence
