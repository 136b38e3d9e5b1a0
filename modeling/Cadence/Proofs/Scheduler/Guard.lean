/-
At most one sweep is in flight.

* `Phase.due?` — the flow of a run that belongs to a sweep;
* `Engine.Guarded` — the invariant: a sweep is in flight only while the guard is held, the
  runs of sweeps are those that it collects, and no two of them are runs of the same flow;
* `Course.guarded` — it holds in every course.
-/
import Cadence.Proofs.Scheduler.Origin

namespace Cadence

open Calendar

/-! ### Sweeps and their runs -/

/-- The flow of a run that belongs to a sweep, from the goal of the run. -/
def Goal.due? : Goal → Option StoredFlow
  | .sweep f _ => some f
  | _ => none

/-- The flow of a run that belongs to a sweep. -/
def Phase.due? : Phase → Option StoredFlow
  | .run _ goal | .append _ goal => goal.due?
  | _ => none

theorem Phase.due?_of_isRow {phase : Phase} (h : phase.isRow = true) : phase.due? = none :=
  of_isRow h (fun _ => rfl) (fun _ => rfl) (fun _ => rfl) rfl

theorem Goal.due?_of_isSweep {goal : Goal} (h : goal.isSweep = false) : goal.due? = none := by
  cases goal with
  | sweep f refused => cases h
  | _ => rfl

/-- The runs that a sweep waits for. -/
def Phase.collected : Phase → List Nat
  | .collect runs => runs
  | _ => []

/-- What arrives is neither within a run nor a sweep that is in flight. -/
theorem Phase.IsArrival.idle {phase : Phase} (h : phase.IsArrival) :
    phase.isRun = false ∧ phase.holdsGuard = false ∧ phase.due? = none := by
  cases h with
  | _ => exact ⟨rfl, rfl, rfl⟩

/-- The guard is held as long as a sweep is in flight, at most one sweep is, it waits for
all runs of sweeps, and these are runs of different flows. -/
structure Engine.Guarded (s : Engine) : Prop where
  free : s.guard = false → ∀ a ∈ s.activities, a.phase.holdsGuard = false ∧ a.phase.due? = none
  single : ∀ a ∈ s.activities, ∀ b ∈ s.activities, a.phase.holdsGuard = true →
    b.phase.holdsGuard = true → b.id = a.id
  collected : ∀ a ∈ s.activities, a.phase.holdsGuard = true → ∀ b ∈ s.activities, ∀ f,
    b.phase.due? = some f → b.id ∈ a.phase.collected
  waits : ∀ a ∈ s.activities, ∀ runs, a.phase = .collect runs → a.turn = .after runs
  apart : ∀ a ∈ s.activities, ∀ b ∈ s.activities, ∀ f g, a.phase.due? = some f →
    b.phase.due? = some g → f.id = g.id → b.id = a.id

namespace Engine

variable {limit : Nat} {trace : Trace} {s u : Engine} {a : Activity} {m : Move} {t : Instant}

theorem start_guarded (world : Surroundings) (store : Store) (interpret : Interpreter) :
    (start world store interpret).Guarded where
  free := fun _ _ hb => by cases hb
  single := fun _ hb => by cases hb
  collected := fun _ hb => by cases hb
  waits := fun _ hb => by cases hb
  apart := fun _ hb => by cases hb

/-- Without sweeps and their runs there is nothing to guard. -/
theorem guarded_of_idle (h : ∀ b ∈ u.activities, b.phase.holdsGuard = false ∧ b.phase.due? = none) :
    u.Guarded where
  free := fun _ => h
  single := fun b hb _ _ hholds => by cases (h b hb).1.symm.trans hholds
  collected := fun b hb hholds => by cases (h b hb).1.symm.trans hholds
  waits := fun b hb runs hphase => by
    have hfree := (h b hb).1
    rw [hphase] at hfree
    cases hfree
  apart := fun b hb _ _ _ _ hdue => by cases (h b hb).2.symm.trans hdue

/-- Where the guard stays as it is, no sweep begins, and the runs of sweeps are some of
those before, the invariant is kept. -/
theorem Guarded.keep (h : s.Guarded) (hguard : u.guard = s.guard)
    (hgoing : ∀ b ∈ u.activities, b ∈ s.activities ∨ b.phase.holdsGuard = false ∧ ∀ f,
      b.phase.due? = some f → ∃ c ∈ s.activities, c.id = b.id ∧ c.phase.due? =
    some f) : u.Guarded := by
  have hholder : ∀ b ∈ u.activities, b.phase.holdsGuard = true → b ∈ s.activities := by
    intro b hb hholds
    rcases hgoing b hb with hold | ⟨hfree, _⟩
    · exact hold
    · cases hfree.symm.trans hholds
  have hrun : ∀ b ∈ u.activities, ∀ f, b.phase.due? = some f →
      ∃ c ∈ s.activities, c.id = b.id ∧ c.phase.due? = some f := by
    intro b hb f hdue
    rcases hgoing b hb with hold | ⟨_, hbefore⟩
    · exact ⟨b, hold, rfl, hdue⟩
    · exact hbefore f hdue
  exact {
    free := by
      intro hfree b hb
      have hidle := h.free (hguard ▸ hfree)
      refine ⟨?_, ?_⟩
      · rcases hgoing b hb with hold | ⟨hnot, _⟩
        · exact (hidle b hold).1
        · exact hnot
      · cases hdue : b.phase.due? with
        | none => rfl
        | some f =>
          obtain ⟨c, hc, _, hcdue⟩ := hrun b hb f hdue
          cases (hidle c hc).2.symm.trans hcdue
    single := fun b hb c hc hholds hholds' =>
      h.single b (hholder b hb hholds) c (hholder c hc hholds') hholds hholds'
    collected := by
      intro b hb hholds c hc f hdue
      obtain ⟨c', hc', hid, hdue'⟩ := hrun c hc f hdue
      exact hid ▸ h.collected b (hholder b hb hholds) hholds c' hc' f hdue'
    waits := by
      intro b hb runs hphase
      exact h.waits b (hholder b hb (by rw [hphase]; rfl)) runs hphase
    apart := by
      intro b hb c hc f g hf hg hid
      obtain ⟨b', hb', hbid, hbdue⟩ := hrun b hb f hf
      obtain ⟨c', hc', hcid, hcdue⟩ := hrun c hc g hg
      rw [← hbid, ← hcid]
      exact h.apart b' hb' c' hc' f g hbdue hcdue hid }

/-- Besides the sweep that is in flight there are only the runs that it collects. -/
theorem Guarded.others (h : s.Guarded) (ha : a ∈ s.activities) (hholds : a.phase.holdsGuard = true)
    {b : Activity} (hb : b ∈ s.activities) (hother : b.id ≠ a.id) :
    b.phase.holdsGuard = false ∧ ∀ f, b.phase.due? = some f → b.id ∈ a.phase.collected := by
  refine ⟨?_, fun f hdue => h.collected a ha hholds b hb f hdue⟩
  cases hbholds : b.phase.holdsGuard with
  | false => rfl
  | true => exact absurd (h.single a ha b hb hholds hbholds) hother

/-- What a sweep waits for has ended when its turn has come. -/
theorem not_mem_of_turn {runs : List Nat} (hturn : s.turnOf? (.after runs) = some t) {b : Activity}
    (hb : b ∈ s.activities) : b.id ∉ runs := by
  intro hmem
  have hgoing : runs.any s.isGoing = true :=
    List.any_eq_true.mpr ⟨b.id, hmem, List.any_eq_true.mpr ⟨b, hb, beq_self_eq_true _⟩⟩
  rw [turnOf?, if_pos hgoing] at hturn
  cases hturn

theorem runPhase_holdsGuard (s : Engine) (outages : Outages) (f : StoredFlow) :
    (s.runPhase outages f).holdsGuard = false := by
  unfold runPhase
  split <;> rfl

/-- The run of a due flow is one of this flow. -/
theorem runPhase_due? {outages : Outages} {f g : StoredFlow}
    (h : (s.runPhase outages f).due? = some g) :
    g = f := by
  unfold runPhase at h
  split at h
  · cases h
  · exact (Option.some_inj.mp h).symm

section

variable (h : s.Guarded) (hbecomes : s.Becomes a m (s.step a))

include h hbecomes

/-- A move that leaves the guard alone and begins no sweep keeps the invariant. -/
theorem Guarded.passive (ha : a ∈ s.activities)
    (hdue : ∀ turn phase, m.fate = .onward turn phase → ∀ f, phase.due? = some f →
      a.phase.due? = some f)
    (hguard : m.guard = s.guard)
    (hfree : ∀ turn phase, m.fate = .onward turn phase → phase.holdsGuard = false)
    (hbegun : ∀ p ∈ m.begun, p.holdsGuard = false ∧ p.due? = none) :
    (s.step a).Guarded := by
  refine h.keep (hbecomes.guard.trans hguard) fun b hb => ?_
  cases hbecomes.going b hb with
  | stays hgoing hother => exact Or.inl hgoing
  | moves hfate hid =>
    exact Or.inr ⟨hfree _ _ hfate, fun f hf => ⟨a, ha, hid.symm, hdue _ _ hfate f hf⟩⟩
  | begins hphase hid hturn =>
    obtain ⟨hidle, hnone⟩ := hbegun _ (List.mem_of_getElem? hphase)
    exact Or.inr ⟨hidle, fun f hf => by cases hnone.symm.trans hf⟩

/-- When a sweep ends whose runs have ended, nothing is left to guard. -/
theorem Guarded.conclude (ha : a ∈ s.activities) (hholds : a.phase.holdsGuard = true)
    {ending : Ending} (hfate : m.fate = .ended ending) (hbegun : m.begun = [])
    (hended : ∀ b ∈ s.activities, b.id ∉ a.phase.collected) : (s.step a).Guarded := by
  refine guarded_of_idle fun b hb => ?_
  cases hbecomes.going b hb with
  | stays hgoing hother =>
    -- a run of a sweep would be one of those that the sweep waited for
    obtain ⟨hfree, hdue⟩ := h.others ha hholds hgoing hother
    refine ⟨hfree, Option.eq_none_iff_forall_ne_some.mpr fun f hf => ?_⟩
    exact hended b hgoing (hdue f hf)
  | moves hfate' hid => cases hfate.symm.trans hfate'
  | begins hphase hid hturn =>
    rw [hbegun] at hphase
    cases hphase

/-- A sweep begins only when nothing is in flight. -/
theorem Guarded.begin (hfree : s.guard = false) (hheld : m.guard = true) {turn : Turn}
    {phase : Phase} (hfate : m.fate = .onward turn phase) (hbegun : m.begun = [])
    (hdue : phase.due? = none) (hcollect : ∀ runs, phase ≠ .collect runs) :
    (s.step a).Guarded := by
  have hgoing : ∀ b ∈ (s.step a).activities, b.phase.holdsGuard = false ∧ b.phase.due? = none ∨
      b.id = a.id ∧ b.phase = phase := by
    intro b hb
    cases hbecomes.going b hb with
    | stays hgoing hother => exact Or.inl (h.free hfree b hgoing)
    | moves hfate' hid => exact Or.inr ⟨hid, (Fate.onward.inj (hfate.symm.trans hfate')).2.symm⟩
    | begins hphase hid hturn =>
      rw [hbegun] at hphase
      cases hphase
  have hnone : ∀ b ∈ (s.step a).activities, b.phase.due? = none := by
    intro b hb
    rcases hgoing b hb with ⟨_, hidle⟩ | ⟨_, hphase⟩
    · exact hidle
    · exact hphase ▸ hdue
  have hsweep : ∀ b ∈ (s.step a).activities, b.phase.holdsGuard = true → b.id = a.id ∧
      b.phase = phase := by
    intro b hb hholds
    rcases hgoing b hb with ⟨hidle, _⟩ | hsame
    · cases hidle.symm.trans hholds
    · exact hsame
  exact {
    free := fun hguard => by cases (hbecomes.guard.trans hheld).symm.trans hguard
    single := fun b hb c hc hholds hholds' =>
      (hsweep c hc hholds').1.trans (hsweep b hb hholds).1.symm
    collected := fun b hb hholds c hc f hf => by cases (hnone c hc).symm.trans hf
    waits := fun b hb runs hphase =>
      absurd ((hsweep b hb (by rw [hphase]; rfl)).2.symm.trans hphase) (hcollect runs)
    apart := fun b hb c hc f g hf => by cases (hnone b hb).symm.trans hf }

/-- A sweep that finds due flows begins a run of each and waits for them. -/
theorem Guarded.spread (ha : a ∈ s.activities) {now : Option Moment} {outages : Outages}
    {spawned : Bool} (hphase : a.phase = .survey now outages spawned)
    {due : List StoredFlow} (hnodup : (due.map (·.id)).Nodup)
    (hfate : m.fate = .onward (.after ((List.range due.length).map (s.count + ·)))
      (.collect ((List.range due.length).map (s.count + ·))))
    (hbegun : m.begun = due.map (s.runPhase outages)) (hguard : m.guard = s.guard) :
    (s.step a).Guarded := by
  have hholds : a.phase.holdsGuard = true := by rw [hphase]; rfl
  -- besides the sweep there are only the runs that it begins and what belongs to no sweep
  have hgoing : ∀ b ∈ (s.step a).activities,
      (b.phase.holdsGuard = true → b.id = a.id ∧
        b.turn = .after ((List.range due.length).map (s.count + ·)) ∧
        b.phase = .collect ((List.range due.length).map (s.count + ·))) ∧
      ∀ f, b.phase.due? = some f → ∃ k, due[k]? = some f ∧ b.id = s.count + k := by
    intro b hb
    cases hbecomes.going b hb with
    | stays hgoing hother =>
      obtain ⟨hfree, hdue⟩ := h.others ha hholds hgoing hother
      refine ⟨fun hsweep => (by cases hfree.symm.trans hsweep), fun f hf => ?_⟩
      have hmem := hdue f hf
      rw [hphase] at hmem
      cases hmem
    | moves hfate' hid =>
      obtain ⟨hturn, hcollect⟩ := Fate.onward.inj (hfate.symm.trans hfate')
      exact ⟨fun _ => ⟨hid, hturn.symm, hcollect.symm⟩,
        fun f hf => by rw [← hcollect] at hf; cases hf⟩
    | @begins k hnew hid hturn =>
      rw [hbegun, List.getElem?_map] at hnew
      obtain ⟨f, hf, hrunphase⟩ := Option.map_eq_some_iff.mp hnew
      rw [← hrunphase]
      refine ⟨fun hsweep => (by cases (s.runPhase_holdsGuard outages f).symm.trans hsweep),
        fun g hg => ?_⟩
      exact ⟨k, runPhase_due? hg ▸ hf, hid⟩
  exact {
    free := by
      intro hfree
      cases (h.free ((hbecomes.guard.trans hguard).symm.trans hfree) a ha).1.symm.trans hholds
    single := fun b hb c hc hholds hholds' =>
      ((hgoing c hc).1 hholds').1.trans ((hgoing b hb).1 hholds).1.symm
    collected := by
      intro b hb hsweep c hc f hf
      obtain ⟨k, hk, hid⟩ := (hgoing c hc).2 f hf
      rw [((hgoing b hb).1 hsweep).2.2, hid]
      exact List.mem_map_of_mem (List.mem_range.mpr (List.getElem?_eq_some_iff.mp hk).1)
    waits := by
      intro b hb runs hcollect
      obtain ⟨_, hturn, hphase'⟩ := (hgoing b hb).1 (by rw [hcollect]; rfl)
      rw [hturn, ← Phase.collect.inj (hcollect.symm.trans hphase')]
    apart := by
      intro b hb c hc f g hf hg hid
      obtain ⟨k, hk, hbid⟩ := (hgoing b hb).2 f hf
      obtain ⟨k', hk', hcid⟩ := (hgoing c hc).2 g hg
      have hlt : k < (due.map (·.id)).length := by
        rw [List.length_map]
        exact (List.getElem?_eq_some_iff.mp hk).1
      -- no flow was listed twice
      have hsame : k = k' := by
        refine (List.getElem?_inj hlt hnodup).mp ?_
        rw [List.getElem?_map, List.getElem?_map, hk, hk', Option.map_some, Option.map_some, hid]
      rw [hbid, hcid, hsame] }

end

/-- An activity that goes on belongs to a sweep only if it did so before. -/
theorem due?_moves (hs : s.Traced limit trace) (ha : a ∈ s.activities) (hm : s.Allows a m)
    {turn : Turn} {phase : Phase} (hfate : m.fate = .onward turn phase) {f : StoredFlow}
    (hf : phase.due? = some f) :
    a.phase.due? = some f := by
  cases hm.onward hfate with
  | loads hphase hanswer =>
    have horigin := hs.going a ha
    rw [hphase] at horigin
    cases (Goal.due?_of_isSweep horigin.2).symm.trans hf
  | waits hphase =>
    rw [hphase]
    exact hf
  | asks hphase he =>
    rw [hphase]
    exact hf
  | finishes hphase hgoal =>
    rw [hphase]
    exact hf
  | sweeps hphase => cases hf
  | surveys hphase hrequest => cases hf
  | goesOn hphase hrow =>
    cases (Phase.due?_of_isRow hrow).symm.trans hf

/-- **A step of an activity whose turn has come keeps the invariant.** -/
theorem Guarded.step (h : s.Guarded) (hs : s.Traced limit trace) (ha : a ∈ s.activities)
    (hturn : s.turnOf? a.turn = some t) : (s.step a).Guarded := by
  obtain ⟨m, hm, hbecomes⟩ := step_moves hs.orderly ha
  have hpassive := h.passive hbecomes ha fun turn phase hfate f hf => due?_moves hs ha hm hfate hf
  cases hm with
  | quits hphase hblank hrefused =>
    exact hpassive rfl (fun _ _ hfate => by cases hfate) (fun _ hp => by cases hp)
  | loads hphase hanswer =>
    exact hpassive rfl (fun _ _ hfate => (Fate.onward.inj hfate).2 ▸ rfl) (fun _ hp => by cases hp)
  | waits hphase =>
    exact hpassive rfl (fun _ _ hfate => (Fate.onward.inj hfate).2 ▸ rfl) (fun _ hp => by cases hp)
  | asks hphase he =>
    exact hpassive rfl (fun _ _ hfate => (Fate.onward.inj hfate).2 ▸ rfl) (fun _ hp => by cases hp)
  | finishes hphase hgoal =>
    exact hpassive rfl (fun _ _ hfate => (Fate.onward.inj hfate).2 ▸ rfl) (fun _ hp => by cases hp)
  | looks hphase => exact hpassive rfl (fun _ _ hfate => by cases hfate) (fun _ hp => by cases hp)
  | appends hphase hrequest hanswer =>
    exact hpassive rfl (fun _ _ hfate => by cases hfate) (fun _ hp => by cases hp)
  | skips hphase hguard =>
    exact hpassive hguard.symm (fun _ _ hfate => by cases hfate) (fun _ hp => by cases hp)
  | goesOn hphase hrow hbegun =>
    refine hpassive rfl (fun _ _ hfate => ?_) (fun p hp => ?_)
    · obtain ⟨rfl, rfl⟩ := Fate.onward.inj hfate
      exact Phase.holdsGuard_of_isRow hrow
    · obtain ⟨outages, rfl⟩ := hbegun p hp
      exact ⟨rfl, rfl⟩
  | sweeps hphase hguard =>
    exact h.begin hbecomes hguard rfl rfl rfl rfl (fun _ hcollect => by cases hcollect)
  | rests hphase hblank hdue =>
    refine h.conclude hbecomes ha (by rw [hphase]; rfl) rfl rfl fun b _ hmem => ?_
    rw [hphase] at hmem
    cases hmem
  | @surveys now outages spawned ans t due hphase hrequest hanswer hnow hdue hsome =>
    obtain ⟨_, hlisted, _⟩ := hs.listed hanswer
    exact h.spread hbecomes ha hphase (hlisted.sublist ((judgeAll_sublist hdue).map _)) rfl rfl rfl
  | collects hphase =>
    refine h.conclude hbecomes ha (by rw [hphase]; rfl) rfl rfl fun b hb => ?_
    -- its turn has come, so none of its runs is going on
    rw [h.waits a ha _ hphase] at hturn
    rw [hphase]
    exact not_mem_of_turn hturn hb

end Engine

/-- **The invariant holds in every course.** -/
theorem Course.guarded {arrives : Phase → Prop} {quiet : Engine → Prop}
    (harrives : ∀ p, arrives p → p.IsArrival) {limit : Nat} {before trace : Trace}
    {s s' : Engine} (h : Course arrives quiet s trace s') (htraced : s.Traced limit before)
    (hs : s.Guarded) : s'.Guarded := by
  induction h with
  | refl => exact hs
  | act hcourse hgoing hturn _ ih => exact ih.step (hcourse.traced harrives htraced) hgoing hturn
  | pass _ _ _ _ ih => exact ih.keep rfl fun b hb => Or.inl hb
  | arrive _ hphase t ih =>
    refine ih.keep rfl fun b hb => ?_
    rcases List.mem_append.mp hb with hb | hb
    · exact Or.inl hb
    · obtain rfl := List.mem_singleton.mp hb
      obtain ⟨_, hfree, hnone⟩ := (harrives _ hphase).idle
      exact Or.inr ⟨hfree, fun f hf => by cases hnone.symm.trans hf⟩

end Cadence
