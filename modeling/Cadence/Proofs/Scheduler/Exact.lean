/-
Exact courses: everything goes on at its time.

In an exact course time stands still as long as it is somebody's turn, and it never passes
an instant for which somebody waits.  What an engine does by itself is such a course.

* `Engine.Unfolds` — the exact courses, with who acted and where;
* `Engine.runFor_unfolds` — what an engine does by itself is one;
* `Engine.Watched` — the guard is held just as long as a sweep is in flight, and at most one is;
* `Engine.step_flags` — only a row of sweeps says which sweep is its latest one, and only
  its end asks it to stop.
-/
import Cadence.Proofs.Scheduler.OneSweep

namespace Cadence

open Calendar

/-- What may arrive beside a row of sweeps: anything but another row, the request to end it,
and a sweep that is in flight already. -/
def Phase.isAside : Phase → Bool
  | .commence _ | .attempt _ | .rest _ | .wind | .stop | .survey _ _ _ | .collect _ => false
  | _ => true

theorem Phase.ne_row_of_isAside {phase : Phase} (h : phase.isAside = true) :
    phase.isRow = false ∧ phase ≠ .stop := by
  cases phase <;> simp_all [Phase.isAside, Phase.isRow]

theorem Phase.holdsGuard_of_isAside {phase : Phase} (h : phase.isAside = true) :
    phase.holdsGuard = false := by
  cases phase with
  | survey => cases h
  | collect => cases h
  | _ => rfl

/-- The exact courses from one engine to another one, with who acted and where. -/
inductive Engine.Unfolds (s : Engine) : List (Engine × Activity) → Engine → Prop where
  | refl : s.Unfolds [] s
  | act {acts : List (Engine × Activity)} {u : Engine} (h : s.Unfolds acts u)
      {a : Activity} {t : Instant}
      (hgoing : a ∈ u.activities) (hturn : u.turnOf? a.turn = some t) (htime : t ≤ u.clock) :
      s.Unfolds (acts ++ [(u, a)]) (u.step a)
  | pass {acts : List (Engine × Activity)} {u : Engine} (h : s.Unfolds acts u) {t : Instant}
      (hlater : u.clock ≤ t)
      (hfirst : ∀ a ∈ u.activities, ∀ v, u.turnOf? a.turn = some v → t ≤ v) :
        s.Unfolds acts (u.waitUntil t)
  | arrive {acts : List (Engine × Activity)} {u : Engine} (h : s.Unfolds acts u) {phase : Phase}
      (haside : phase.isAside = true) (t : Instant) : s.Unfolds acts (u.spawn (.time t) phase)

namespace Engine

variable {s u v : Engine} {a b : Activity} {m : Move}
  {acts acts' : List (Engine × Activity)} {turn : Turn} {phase : Phase}

theorem Unfolds.trans (h : s.Unfolds acts u) (h' : u.Unfolds acts' v) :
    s.Unfolds (acts ++ acts') v := by
  induction h' with
  | refl => rwa [List.append_nil]
  | act _ hgoing hturn htime ih =>
    rw [← List.append_assoc]
    exact ih.act hgoing hturn htime
  | pass _ hlater hfirst ih => exact ih.pass hlater hfirst
  | arrive _ haside t ih => exact ih.arrive haside t

/-- Whoever is next acts when time has passed up to the turn. -/
theorem next?_unfolds {t : Instant} (hnext : s.next? = some (t, a)) :
    a ∈ s.activities ∧ s.Unfolds [] (s.waitUntil t) ∧
    ∃ v, (s.waitUntil t).turnOf? a.turn = some v ∧ v ≤ (s.waitUntil t).clock := by
  obtain ⟨hgoing, hturn, hfirst⟩ := next?_spec hnext
  refine ⟨hgoing, ?_, turnOf?_waitUntil hturn (Int.le_refl _)⟩
  by_cases hle : t ≤ s.clock
  · rw [waitUntil_of_le hle]
    exact .refl
  · exact Unfolds.refl.pass (Int.le_of_lt (Int.not_le.mp hle)) hfirst

/-- **What an engine does by itself is an exact course.** -/
theorem runFor_unfolds (s : Engine) (ids : List Nat) (fuel : Nat) :
    ∃ acts, s.Unfolds acts (s.runFor ids fuel) := by
  induction fuel generalizing s with
  | zero => exact ⟨[], .refl⟩
  | succ fuel ih =>
    rcases s.runFor_succ ids fuel with ⟨heq, _⟩ | ⟨t, a, hnext, heq, _⟩
    · rw [heq]
      exact ⟨[], .refl⟩
    · obtain ⟨hgoing, hwait, v, hturn, htime⟩ := next?_unfolds hnext
      obtain ⟨acts, hacts⟩ := ih ((s.waitUntil t).step a)
      rw [heq]
      exact ⟨_, (hwait.act hgoing hturn htime).trans hacts⟩

/-! ### The guard -/

/-- The guard is held just as long as a sweep is in flight, and at most one is. -/
structure Watched (s : Engine) : Prop where
  held : s.Held
  free : s.guard = false → ∀ a ∈ s.activities, a.phase.holdsGuard = false
  single : ∀ a ∈ s.activities, ∀ b ∈ s.activities, a.phase.holdsGuard = true →
    b.phase.holdsGuard = true → b.id = a.id

/-- A sweep is in flight. -/
def InFlight (s : Engine) : Prop := ∃ a ∈ s.activities, a.phase.holdsGuard = true

theorem Watched.inFlight_iff (h : s.Watched) : s.InFlight ↔ s.guard = true := by
  refine ⟨fun ⟨a, ha, hholds⟩ => ?_, h.held⟩
  cases hguard : s.guard with
  | true => rfl
  | false => cases (h.free hguard a ha).symm.trans hholds

/-- Who goes on and then holds the guard has just taken it, or held it before. -/
theorem Allows.holds (hm : s.Allows a m) (hfate : m.fate = .onward turn phase)
    (hholds : phase.holdsGuard = true) :
    s.guard = false ∧ m.guard = true ∨ a.phase.holdsGuard = true ∧ m.guard = s.guard := by
  cases hm with
  | sweeps hphase hguard => exact Or.inl ⟨hguard, rfl⟩
  | surveys hphase => exact Or.inr ⟨by rw [hphase]; rfl, rfl⟩
  | goesOn hphase hrow =>
    obtain ⟨_, rfl⟩ := Fate.onward.inj hfate
    cases (Phase.holdsGuard_of_isRow hrow).symm.trans hholds
  | loads hphase =>
    obtain ⟨_, rfl⟩ := Fate.onward.inj hfate
    cases hholds
  | waits hphase =>
    obtain ⟨_, rfl⟩ := Fate.onward.inj hfate
    cases hholds
  | asks hphase =>
    obtain ⟨_, rfl⟩ := Fate.onward.inj hfate
    cases hholds
  | finishes hphase =>
    obtain ⟨_, rfl⟩ := Fate.onward.inj hfate
    cases hholds
  | _ => cases hfate

/-- The guard is free after a step if it was so before, or if who held it has ended. -/
theorem Allows.frees (hm : s.Allows a m) (hguard : m.guard = false) :
    s.guard = false ∨ a.phase.holdsGuard = true ∧ ∃ ending, m.fate = .ended ending := by
  cases hm with
  | skips hphase hheld => cases hguard
  | sweeps hphase hfree => exact Or.inl hfree
  | rests hphase => exact Or.inr ⟨by rw [hphase]; rfl, _, rfl⟩
  | collects hphase => exact Or.inr ⟨by rw [hphase]; rfl, _, rfl⟩
  | _ => exact Or.inl hguard

/-- **The guard stays with who is in flight.** -/
theorem Watched.step (h : s.Watched) (hs : s.IsOrderly) (ha : a ∈ s.activities) :
    (s.step a).Watched := by
  obtain ⟨m, hm, hbecomes⟩ := step_moves hs ha
  -- who holds the guard after the step
  have hholder : ∀ b ∈ (s.step a).activities, b.phase.holdsGuard = true →
      b ∈ s.activities ∧ b.id ≠ a.id ∨ b.id = a.id ∧ ∃ turn, m.fate = .onward turn b.phase := by
    intro b hb hholds
    cases hbecomes.going b hb with
    | stays hgoing hother => exact Or.inl ⟨hgoing, hother⟩
    | moves hfate hid => exact Or.inr ⟨hid, b.turn, hfate⟩
    | begins hbegun => cases (hm.begins hbegun).holdsGuard.symm.trans hholds
  refine ⟨h.held.step hs ha, fun hguard b hb => ?_, fun b hb c hc hbholds hcholds => ?_⟩
  · rw [hbecomes.guard] at hguard
    by_contra hholds
    rw [Bool.not_eq_false] at hholds
    rcases hholder b hb hholds with ⟨hgoing, hother⟩ | ⟨_, turn, hfate⟩
    · rcases hm.frees hguard with hfree | ⟨haholds, _⟩
      · cases (h.free hfree b hgoing).symm.trans hholds
      · exact hother (h.single a ha b hgoing haholds hholds)
    · rcases hm.holds hfate hholds with ⟨_, hheld⟩ | ⟨haholds, hsame⟩
      · cases hguard.symm.trans hheld
      · cases (h.free (hsame.symm.trans hguard) a ha).symm.trans haholds
  · -- a sweep takes the guard only when nobody holds it, and whoever held it before goes on
    -- holding it
    have hself : ∀ c ∈ (s.step a).activities, c.phase.holdsGuard = true →
        ∀ d ∈ s.activities, d.id ≠ a.id → d.phase.holdsGuard = true → c.id ≠ a.id := by
      intro c hc hcholds d hd hother hdholds hid
      rcases hholder c hc hcholds with ⟨_, hne⟩ | ⟨_, turn, hfate⟩
      · exact hne hid
      · rcases hm.holds hfate hcholds with ⟨hfree, _⟩ | ⟨haholds, _⟩
        · cases (h.free hfree d hd).symm.trans hdholds
        · exact hother (h.single a ha d hd haholds hdholds)
    rcases hholder b hb hbholds with ⟨hbgoing, hbother⟩ | ⟨hbid, _⟩
    · rcases hholder c hc hcholds with ⟨hcgoing, _⟩ | ⟨hcid, _⟩
      · exact h.single b hbgoing c hcgoing hbholds hcholds
      · exact absurd hcid (hself c hc hcholds b hbgoing hbother hbholds)
    · rcases hholder c hc hcholds with ⟨hcgoing, hcother⟩ | ⟨hcid, _⟩
      · exact absurd hbid (hself b hb hbholds c hcgoing hcother hcholds)
      · exact hcid.trans hbid.symm

theorem Watched.waitUntil (h : s.Watched) (t : Instant) : (s.waitUntil t).Watched :=
  ⟨h.held, h.free, h.single⟩

/-- Who begins without the guard leaves it where it is. -/
theorem Watched.spawn (h : s.Watched) (hidle : phase.holdsGuard = false) (turn : Turn) :
    (s.spawn turn phase).Watched := by
  have hholder : ∀ b ∈ (s.spawn turn phase).activities, b.phase.holdsGuard = true →
      b ∈ s.activities := by
    intro b hb hholds
    rcases List.mem_append.mp hb with hb | hb
    · exact hb
    · rw [List.mem_singleton.mp hb] at hholds
      cases hidle.symm.trans hholds
  refine ⟨fun hguard => ?_, fun hguard b hb => ?_, fun b hb c hc hbholds hcholds => ?_⟩
  · obtain ⟨b, hb, hholds⟩ := h.held hguard
    exact ⟨b, List.mem_append_left _ hb, hholds⟩
  · rw [Bool.eq_false_iff]
    intro hholds
    cases (h.free hguard b (hholder b hb hholds)).symm.trans hholds
  · exact h.single b (hholder b hb hbholds) c (hholder c hc hcholds) hbholds hcholds

/-! ### What only rows do -/

/-- Which sweep is the latest one of a row, and whether the row is asked to end. -/
def flags (s : Engine) : Option Nat × Bool := (s.latest, s.stopping)

theorem flags_warn (s : Engine) (texts : List String) : (s.warn texts).flags = s.flags := by
  obtain ⟨w, heq, _⟩ := s.warn_eq texts
  rw [heq]
  rfl

theorem flags_ask (s : Engine) (op : Operation) : (s.ask op).2.flags = s.flags := flags_warn _ _

theorem flags_spawnAll (s : Engine) (begun : List Phase) : (s.spawnAll begun).flags = s.flags := by
  obtain ⟨new, heq, _⟩ := s.spawnAll_eq begun
  rw [heq]
  rfl

theorem flags_request (s : Engine) (a : Activity) (op : Operation) :
    (s.request a op).flags = s.flags := by
  have hask := s.flags_ask op
  unfold request
  split <;> · next heq => rw [heq] at hask; exact hask

theorem flags_judge (s : Engine) (a : Activity) (id : String) (now : Option Moment) :
    (s.judge a id now).flags = s.flags := by
  have hask := s.flags_ask (.find id)
  unfold judge
  split
  · next heq => rw [heq] at hask; exact hask
  · next heq =>
    rw [heq] at hask
    split
    · exact hask
    · exact hask
    · split
      · exact hask
      · exact (flags_warn _ _).trans hask

theorem flags_load (s : Engine) (a : Activity) (id : String) (trigger : Trigger)
    (interpret : Interpreter) (goal : Goal) :
    (s.load a id trigger interpret goal).flags = s.flags := by
  have hask := s.flags_ask (.find id)
  unfold load
  split
  · next heq => rw [heq] at hask; exact hask
  · next heq =>
    rw [heq] at hask
    split
    · exact hask
    · exact hask

theorem flags_run (s : Engine) (a : Activity) (goal : Goal) (task : Task RunRecord) :
    (s.run a goal task).flags = s.flags := by
  unfold run
  split
  · split <;> rfl
  · rfl
  · rfl

theorem flags_append (s : Engine) (a : Activity) (r : RunRecord) (goal : Goal) :
    (s.append a r goal).flags = s.flags := by
  have hask := s.flags_ask (.append r)
  cases hx : s.ask (.append r) with
  | mk answer w =>
    rw [hx] at hask
    unfold append
    rw [hx]
    cases goal with
    | look => cases answer <;> exact hask
    | keep => cases answer <;> exact hask
    | sweep f refused =>
      cases refused with
      | true => rfl
      | false => cases answer <;> exact hask

theorem flags_failSweep (s : Engine) (a : Activity) (spawned : Bool) (ending : Ending) :
    (s.failSweep a spawned ending).flags = s.flags := by
  unfold failSweep
  split <;> rfl

theorem flags_spawnRuns (s : Engine) (a : Activity) (outages : Outages) (due : List StoredFlow) :
    (s.spawnRuns a outages due).flags = s.flags := by
  unfold spawnRuns
  split
  · rfl
  · rw [foldl_spawnRun]
    exact s.flags_spawnAll _

theorem flags_survey (s : Engine) (a : Activity) (now : Option Moment) (outages : Outages)
    (spawned : Bool) :
    (s.survey a now outages spawned).flags = s.flags := by
  have hfail (u : Engine) (hu : u.flags = s.flags) (fault : Ending) :
      (u.failSweep a spawned fault).flags = s.flags := (flags_failSweep _ _ _ _).trans hu
  unfold survey
  cases outages.list with
  | true => exact hfail s rfl _
  | false =>
    have hask := s.flags_ask .all
    simp only [Bool.false_eq_true, if_false]
    split
    · next heq => rw [heq] at hask; exact hfail _ hask _
    · next heq =>
      rw [heq] at hask
      split
      · exact hfail _ hask _
      · split
        · exact hfail _ ((flags_warn _ _).trans hask) _
        · exact (flags_spawnRuns _ _ _ _).trans ((flags_warn _ _).trans hask)

/-- **Only a row of sweeps says which sweep is its latest one, and only its end asks it to
stop.** -/
theorem step_flags (s : Engine) (hrow : a.phase.isRow = false) (hstop : a.phase ≠ .stop) :
    (s.step a).flags = s.flags := by
  unfold step
  cases hphase : a.phase with
  | request op => exact s.flags_request a op
  | judge id now => exact s.flags_judge a id now
  | load id trigger interpret goal => exact s.flags_load a id trigger interpret goal
  | run rest goal => exact s.flags_run a goal rest
  | append record goal => exact s.flags_append a record goal
  | lose f => rfl
  | sweep now outages spawned =>
    show (s.sweep a now outages spawned).flags = _
    unfold sweep
    split <;> rfl
  | survey now outages spawned => exact s.flags_survey a now outages spawned
  | collect runs => rfl
  | stop => exact absurd hphase hstop
  | close => rfl
  | _ => rw [hphase] at hrow; cases hrow

end Engine

end Cadence
