/-
The rhythm of a row of sweeps.

* `Row`, `Row.IsProper` — a row, and after how long its time is over;
* `Engine.attempts`, `Engine.sweeps` — what a row has attempted in a course, and what it has begun;
* `Row.Fits`, `Row.Closed` — that an attempt is made at its time, and that a row has ended
  when it was to;
* `Row.Stage` — where a row is;
* `Row.Paces` — the invariant: a row has made its attempts at their times, and it keeps
  track of its sweeps;
* `Row.Paces.aside`, `Row.Paces.stop` — others preserve it, and so does whoever asks the row to end.
-/
import Cadence.Proofs.Scheduler.Exact

namespace Cadence

open Calendar

/-! ### Rows -/

/-- A row of sweeps: who it is, its plan with the instant at which it began, after how long
it is asked to end, and after how long its time is over. -/
structure Row where
  id : Nat
  plan : Plan
  stop : Option Nat
  span : Int

namespace Row

/-- The time of a row is over when its lifespan is over or when it is asked to end,
whichever comes first, and it is not asked to end at the time of an attempt. -/
structure IsProper (r : Row) : Prop where
  interval : 0 < r.plan.interval
  positive : 0 < r.span
  lifespan : ∀ l, r.plan.lifespan = some l → r.span ≤ l
  stop : ∀ n : Nat, r.stop = some n → r.span ≤ n
  first : r.plan.lifespan = some r.span ∨ ∃ n : Nat, r.stop = some n ∧ r.span = n
  apart : ∀ n, r.stop = some n → ¬ r.plan.interval ∣ n

/-- How long a row has been going on. -/
def since (r : Row) (u : Engine) : Int := u.clock.micros - r.plan.start.micros

/-- The attempts that are due in the time of a row have been made. -/
def Made (r : Row) (n : Nat) : Prop := ∀ k : Nat, (k : Int) * r.plan.interval < r.span → k < n

/-- A row whose time is over before the next attempt has made its attempts. -/
theorem made_of_span_le {r : Row} {n : Nat} (h : r.span ≤ n * r.plan.interval) : r.Made n := by
  intro k hk
  have hlt : (k : Int) * r.plan.interval < n * r.plan.interval := Int.lt_of_lt_of_le hk h
  exact_mod_cast Int.lt_of_mul_lt_mul_right hlt (Int.natCast_nonneg _)

/-- A row is not asked to end at the time of an attempt. -/
theorem IsProper.ne_stop {r : Row} (hr : r.IsProper) {q : Nat} (hq : r.stop = some q) (n : Nat) :
    (n : Int) * r.plan.interval ≠ q := by
  intro heq
  refine hr.apart q hq ⟨n, ?_⟩
  rw [Nat.mul_comm]
  exact_mod_cast heq.symm

/-- When a row goes on after so many attempts: at the next one, or when its lifespan is over. -/
def pause (r : Row) (n : Nat) : Int :=
  match r.plan.lifespan with
  | none => n * r.plan.interval
  | some l => min (n * r.plan.interval) l

theorem pause_le (r : Row) (n : Nat) : r.pause n ≤ n * r.plan.interval := by
  unfold pause
  split
  · exact Int.le_refl _
  · exact Int.min_le_left _ _

end Row

/-- Whether an activity is a row that is to attempt a sweep. -/
def Phase.isAttempt : Phase → Bool
  | .attempt _ => true
  | _ => false

namespace Engine

/-- The attempts of a row, in order: it attempts a sweep unless it is asked to end. -/
def attempts (i : Nat) (acts : List (Engine × Activity)) : List (Engine × Activity) :=
  acts.filter fun x => x.2.id == i && x.2.phase.isAttempt && !x.1.stopping

/-- Who is begun by an act. -/
def begun (x : Engine × Activity) : List Nat :=
  ((x.1.step x.2).activities.map (·.id)).filter fun j => decide (x.1.count ≤ j)

/-- The sweeps that a row has begun. -/
def sweeps (i : Nat) (acts : List (Engine × Activity)) : List Nat := (attempts i acts).flatMap begun

variable {u v : Engine} {a b : Activity} {m : Move} {i j : Nat}

theorem isGoing_iff : u.isGoing j = true ↔ ∃ b ∈ u.activities, b.id = j := by
  simp only [isGoing, List.any_eq_true, beq_iff_eq]

theorem isGoing_eq_false : u.isGoing j = false ↔ ∀ b ∈ u.activities, b.id ≠ j := by
  simp only [isGoing, List.any_eq_false, beq_iff_eq]

/-- Who has ended does not go on again. -/
theorem Becomes.gone (h : u.Becomes a m v) (ha : a ∈ u.activities)
    (hgone : u.isGoing j = false) (hj : j < u.count) :
    v.isGoing j = false := by
  rw [isGoing_eq_false] at hgone ⊢
  intro b hb
  cases h.going b hb with
  | stays hgoing hother => exact hgone b hgoing
  | moves hfate hid => exact hid ▸ hgone a ha
  | begins hbegun hid hturn => omega

theorem Becomes.endings_mono (h : u.Becomes a m v) {e : Ended}
    (he : e ∈ u.endings) : e ∈ v.endings := by
  rw [h.endings]
  unfold endingsAfter
  split
  · exact List.mem_cons_of_mem _ he
  · exact he

/-- Who is a row stays one, and nobody else becomes one. -/
theorem Onward.isRow {turn : Turn} {phase : Phase} (h : u.Onward a turn phase) :
    phase.isRow = a.phase.isRow := by
  cases h with
  | goesOn hphase hrow => rw [hphase, hrow]
  | loads hphase => rw [hphase]; rfl
  | waits hphase => rw [hphase]; rfl
  | asks hphase => rw [hphase]; rfl
  | finishes hphase => rw [hphase]; rfl
  | sweeps hphase => rw [hphase]; rfl
  | surveys hphase => rw [hphase]; rfl

/-- A sweep that goes on is one that has looked at the guard. -/
theorem Onward.isSweep {turn : Turn} {phase : Phase} (h : u.Onward a turn phase)
    (hsweep : a.phase.isSweep = true) :
    phase.isSweep = true ∧ phase.seeksGuard = false := by
  cases h with
  | sweeps hphase => exact ⟨rfl, rfl⟩
  | surveys hphase => exact ⟨rfl, rfl⟩
  | goesOn hphase hrow =>
    cases (Phase.isSweep_of_isRow hphase).symm.trans hsweep
  | loads hphase => rw [hphase] at hsweep; cases hsweep
  | waits hphase => rw [hphase] at hsweep; cases hsweep
  | asks hphase => rw [hphase] at hsweep; cases hsweep
  | finishes hphase => rw [hphase] at hsweep; cases hsweep

theorem Onward.ne_stop {turn : Turn} {phase : Phase}
    (h : u.Onward a turn phase) : phase ≠ .stop := by
  rintro rfl
  cases h with
  | goesOn hphase hrow => cases hrow

theorem Begins.ne_row {phase : Phase} (h : u.Begins a phase) :
    phase.isRow = false ∧ phase ≠ .stop := by
  cases h with
  | sweep outages hphase => exact ⟨rfl, fun h => by cases h⟩
  | run hphase =>
    unfold runPhase
    split
    · exact ⟨rfl, fun h => by cases h⟩
    · exact ⟨rfl, fun h => by cases h⟩

end Engine

/-! ### What is around a row -/

namespace Row

open Engine

variable {r : Row} {u v : Engine} {a b : Activity} {m : Move} {n : Nat} {js : List Nat}
  {acts : List (Engine × Activity)}

/-- There is one row, and it is asked to end once. -/
structure Frames (r : Row) (u : Engine) : Prop where
  orderly : u.IsOrderly
  watched : u.Watched
  known : r.id < u.count
  row : ∀ b ∈ u.activities, b.phase.isRow = true ↔ b.id = r.id
  stops : ∀ b ∈ u.activities, b.phase = .stop → ∃ n : Nat, r.stop = some n ∧
    b.turn = .time (r.plan.start.after n)

theorem Frames.step (h : r.Frames u) (ha : a ∈ u.activities) : r.Frames (u.step a) := by
  obtain ⟨m, hm, hbecomes⟩ := step_moves h.orderly ha
  refine ⟨hbecomes.orderly, h.watched.step h.orderly ha, ?_, fun b hb => ?_, fun b hb hstop => ?_⟩
  · exact Nat.lt_of_lt_of_le h.known (Nat.le_trans (Nat.le_add_right _ _) hbecomes.count)
  · cases hbecomes.going b hb with
    | stays hgoing hother => exact h.row b hgoing
    | moves hfate hid => rw [(hm.onward hfate).isRow, h.row a ha, hid]
    | begins hbegun hid hturn =>
      have hknown := h.known
      rw [(hm.begins hbegun).ne_row.1]
      exact ⟨fun hrow => (by cases hrow), fun hid' => (by omega)⟩
  · cases hbecomes.going b hb with
    | stays hgoing hother => exact h.stops b hgoing hstop
    | moves hfate hid => exact absurd hstop (hm.onward hfate).ne_stop
    | begins hbegun hid hturn => exact absurd hstop (hm.begins hbegun).ne_row.2

/-- What has become of a sweep that a row has begun: it goes on, it is the latest one, and
it looks at the guard before time passes; or it has ended. -/
inductive Sweeping (r : Row) (n : Nat) (u : Engine) (j : Nat) : Prop where
  | going {b : Activity} (hb : b ∈ u.activities) (hid : b.id = j) (hsweep : b.phase.isSweep = true)
      (hlatest : u.latest = some j)
      (hnew : b.phase.seeksGuard = true → r.since u + r.plan.interval = n * r.plan.interval ∧
        ∃ t, b.turn = .time t ∧ t ≤ u.clock)
  | ended (hgone : u.isGoing j = false) {e : Ended} (he : e ∈ u.endings) (hid : e.id = j)
    (htime : e.time ≤ u.clock)

theorem since_step (hbecomes : u.Becomes a m v) : r.since v = r.since u := by
  rw [since, hbecomes.clock, since]

/-- A step of a sweep or of somebody else. -/
theorem Sweeping.step {j : Nat} (h : r.Sweeping n u j) (hs : u.IsOrderly)
    (ha : a ∈ u.activities) (hm : u.Allows a m) (hbecomes : u.Becomes a m v)
    (hlatest : v.latest = u.latest) (hj : j < u.count) :
    r.Sweeping n v j := by
  cases h with
  | @going b hb hid hsweep hlast hnew =>
    by_cases hself : b.id = a.id
    · obtain rfl := hs.unique ha hb hself
      cases hfate : m.fate with
      | onward turn phase =>
        obtain ⟨hsweep', hsought⟩ := (hm.onward hfate).isSweep hsweep
        obtain ⟨c, hc, hcid, hcturn, hcphase⟩ := hbecomes.onward turn phase hfate
        exact .going hc (hcid.trans hid) (hcphase ▸ hsweep') (hlatest.trans hlast) fun hseeks => by
          rw [hcphase, hsought] at hseeks
          cases hseeks
      | ended ending =>
        refine .ended (e := ⟨b.id, ending, u.clock⟩) (isGoing_eq_false.mpr fun c hc => ?_) ?_ hid ?_
        · cases hbecomes.going c hc with
          | stays hgoing hother => exact hid ▸ hother
          | moves hfate' hcid => cases hfate.symm.trans hfate'
          | begins hbegun hcid hturn => omega
        · rw [hbecomes.endings, hfate]
          exact List.mem_cons_self
        · rw [hbecomes.clock]
          exact Int.le_refl _
    · refine .going (hbecomes.stay b hb hself) hid hsweep (hlatest.trans hlast) ?_
      rw [since_step hbecomes, hbecomes.clock]
      exact hnew
  | ended hgone he hid htime =>
    exact .ended (hbecomes.gone ha hgone hj) (hbecomes.endings_mono he) hid (hbecomes.clock ▸ htime)

/-- A row has ended, with the sweeps that it has begun: when its time was over and all of
them had ended, and no later. -/
structure Closed (r : Row) (js : List Nat) (u : Engine) : Prop where
  gone : u.isGoing r.id = false
  sweeps : ∀ j ∈ js, u.isGoing j = false
  ending : ∃ e ∈ u.endings, e.id = r.id ∧ (∃ busy, e.ending = .stopped busy) ∧
    r.plan.start.after r.span ≤ e.time ∧
    (∀ j ∈ js, ∃ e' ∈ u.endings, e'.id = j ∧ e'.time ≤ e.time) ∧
    (e.time = r.plan.start.after r.span ∨ ∃ j ∈ js, ∃ e' ∈ u.endings, e'.id = j ∧ e'.time = e.time)

/-- Where a row is that has made so many attempts and has begun some sweeps. -/
inductive Stage (r : Row) (n : Nat) (js : List Nat) (u : Engine) : Prop where
  | commencing {b : Activity} {q : Plan} (hb : b ∈ u.activities) (hid : b.id = r.id)
      (hturn : b.turn = .time r.plan.start) (hphase : b.phase = .commence q)
      (hplan : { q with start := r.plan.start } = r.plan) (hsince : r.since u = 0) (hn : n = 0)
  /-- It is the time of the next attempt. -/
  | attempting {b : Activity} {t : Instant} (hb : b ∈ u.activities) (hid : b.id = r.id)
      (hphase : b.phase = .attempt r.plan) (hturn : b.turn = .time t ∨
        b.turn = .timeOrStop t) (htime : t ≤ u.clock)
      (hstopping : u.stopping = false) (hsince : r.since u = n * r.plan.interval)
      (hdue : (n : Int) * r.plan.interval < r.span)
  /-- Asked to end, it makes no further attempt. -/
  | stopped {b : Activity} {t : Instant} (hb : b ∈ u.activities) (hid : b.id = r.id)
      (hphase : b.phase = .attempt r.plan) (hturn : b.turn = .timeOrStop t)
        (hstopping : u.stopping = true)
      (hsince : r.since u = r.span) (hmade : r.Made n)
  | resting {b : Activity} (hb : b ∈ u.activities) (hid : b.id = r.id)
      (hphase : b.phase = .rest r.plan)
      (hturn : b.turn = .timeOrStop (r.plan.start.after (r.pause n)))
        (hstopping : u.stopping = false)
      (hle : r.since u ≤ r.pause n)
  /-- It is asked to end while it rests. -/
  | leaving {b : Activity} {t : Instant} (hb : b ∈ u.activities) (hid : b.id = r.id)
      (hphase : b.phase = .rest r.plan)
      (hturn : b.turn = .timeOrStop t) (hstopping : u.stopping = true) (hsince : r.since u = r.span)
      (hmade : r.Made n)
  /-- Its time is over, and it waits for its latest sweep. -/
  | winding {b : Activity} (hb : b ∈ u.activities) (hid : b.id = r.id) (hphase : b.phase = .wind)
      (hturn : b.turn = .after u.latest.toList) (hmade : r.Made n) (hover : r.span ≤ r.since u)
      (hend : r.since u = r.span ∨ ∃ j ∈ js, u.latest = some j ∧
        (u.isGoing j = true ∨ ∃ e ∈ u.endings, e.id = j ∧ e.time = u.clock))
  | ended (hmade : r.Made n) (hclosed : r.Closed js u)

/-- An attempt of a row is made at its time.  A sweep that the row has begun before and that
goes on is in flight then; if any sweep is, nothing is begun, and otherwise a sweep is. -/
structure Fits (r : Row) (k : Nat) (earlier : List Nat) (x : Engine × Activity) : Prop where
  time : r.since x.1 = k * r.plan.interval
  due : (k : Int) * r.plan.interval < r.span
  tracked : ∀ j ∈ earlier, x.1.isGoing j = true → x.1.InFlight
  skips : x.1.InFlight → begun x = []
  begins : ¬ x.1.InFlight → begun x = [x.1.count] ∧
    ⟨x.1.count, .time x.1.clock, x.1.count, .sweep none r.plan.outages true⟩ ∈
      (x.1.step x.2).activities

/-- The invariant: a row has made its attempts at their times, and it keeps track of its sweeps. -/
structure Paces (r : Row) (acts : List (Engine × Activity)) (u : Engine) : Prop where
  frames : r.Frames u
  stage : r.Stage (attempts r.id acts).length (sweeps r.id acts) u
  pending : ∀ n : Nat, r.stop = some n →
    (r.since u ≤ n ∧ ∃ b ∈ u.activities, b.phase = .stop) ∨ (u.stopping = true ∧ n ≤ r.since u)
  made : ∀ k x, (attempts r.id acts)[k]? = some x →
    r.Fits k (((attempts r.id acts).take k).flatMap begun) x
  swept : ∀ j ∈ sweeps r.id acts, r.id < j ∧ j < u.count ∧
    r.Sweeping (attempts r.id acts).length u j
  latest : ∀ j, u.latest = some j → j ∈ sweeps r.id acts ∨ u.isGoing j = false ∧ j < u.count

end Row

namespace Engine

/-- Who goes on either goes on after a step or has just ended. -/
theorem Becomes.going_or_ended {u v : Engine} {a : Activity} {m : Move} {j : Nat}
    (h : u.Becomes a m v) (hs : u.IsOrderly) (ha : a ∈ u.activities)
    (hgoing : u.isGoing j = true) :
    v.isGoing j = true ∨ ∃ e ∈ v.endings, e.id = j ∧ e.time = v.clock := by
  obtain ⟨b, hb, rfl⟩ := isGoing_iff.mp hgoing
  by_cases hself : b.id = a.id
  · obtain rfl := hs.unique ha hb hself
    cases hfate : m.fate with
    | onward turn phase =>
      obtain ⟨c, hc, hid, _⟩ := h.onward turn phase hfate
      exact Or.inl (isGoing_iff.mpr ⟨c, hc, hid⟩)
    | ended ending =>
      refine Or.inr ⟨⟨b.id, ending, u.clock⟩, ?_, rfl, h.clock.symm⟩
      rw [h.endings, hfate]
      exact List.mem_cons_self
  · exact Or.inl (isGoing_iff.mpr ⟨b, h.stay b hb hself, rfl⟩)

/-! How the attempts grow with an act. -/

variable {u : Engine} {a : Activity} {i : Nat} (acts : List (Engine × Activity))

theorem attempts_append (i : Nat) (x : Engine × Activity) : attempts i (acts ++ [x]) =
    attempts i acts ++ if x.2.id == i && x.2.phase.isAttempt && !x.1.stopping then [x] else [] := by
  rw [attempts, List.filter_append, ← attempts, List.filter_cons, List.filter_nil]

theorem attempts_of_ne (hother : a.id ≠ i) : attempts i (acts ++ [(u, a)]) = attempts i acts := by
  have hid : (a.id == i) = false := beq_false_of_ne hother
  rw [attempts_append, hid, Bool.false_and, Bool.false_and, if_neg Bool.false_ne_true,
    List.append_nil]

theorem attempts_of_not_attempt (hno : (a.phase.isAttempt && !u.stopping) = false) :
    attempts i (acts ++ [(u, a)]) = attempts i acts := by
  rw [attempts_append, Bool.and_assoc, hno, Bool.and_false, if_neg Bool.false_ne_true,
    List.append_nil]

theorem attempts_of_attempt (hid : a.id = i)
    (hattempt : (a.phase.isAttempt && !u.stopping) = true) :
    attempts i (acts ++ [(u, a)]) = attempts i acts ++ [(u, a)] := by
  rw [attempts_append, Bool.and_assoc, hattempt, Bool.and_true, hid, beq_self_eq_true, if_pos rfl]

end Engine

namespace Row

open Engine

variable {r : Row} {u v : Engine} {a b : Activity} {m : Move} {n : Nat} {js : List Nat}
  {acts : List (Engine × Activity)}

/-- What others do leaves a row where it is. -/
theorem Stage.others (h : r.Stage n js u) (hs : u.IsOrderly) (ha : a ∈ u.activities)
    (hother : a.id ≠ r.id) (hbecomes : u.Becomes a m v) (hlatest : v.latest = u.latest)
    (hstopping : v.stopping = u.stopping) (hknown : r.id < u.count)
    (hjs : ∀ j ∈ js, j < u.count) : r.Stage n js v := by
  have hstay {b : Activity} (hb : b ∈ u.activities) (hid : b.id = r.id) : b ∈ v.activities :=
    hbecomes.stay b hb fun hself => hother (hself.symm.trans hid)
  have hsince := since_step (r := r) hbecomes
  cases h with
  | commencing hb hid hturn hphase hplan htime hn =>
    exact .commencing (hstay hb hid) hid hturn hphase hplan (hsince.trans htime) hn
  | attempting hb hid hphase hturn htime hstop htimes hdue =>
    exact .attempting (hstay hb hid) hid hphase hturn (hbecomes.clock ▸ htime)
      (hstopping.trans hstop)
      (hsince.trans htimes) hdue
  | stopped hb hid hphase hturn hstop htimes hmade =>
    exact .stopped (hstay hb hid) hid hphase hturn (hstopping.trans hstop)
      (hsince.trans htimes) hmade
  | resting hb hid hphase hturn hstop hle =>
    exact .resting (hstay hb hid) hid hphase hturn (hstopping.trans hstop) (hsince.symm ▸ hle)
  | leaving hb hid hphase hturn hstop htimes hmade =>
    exact .leaving (hstay hb hid) hid hphase hturn (hstopping.trans hstop)
      (hsince.trans htimes) hmade
  | winding hb hid hphase hturn hmade hover hend =>
    refine .winding (hstay hb hid) hid hphase (hlatest.symm ▸ hturn) hmade (hsince.symm ▸ hover) ?_
    rcases hend with htime | ⟨j, hj, hlast, hgoing | ⟨e, he, heid, hetime⟩⟩
    · exact Or.inl (hsince.trans htime)
    · exact Or.inr ⟨j, hj, hlatest.trans hlast, hbecomes.going_or_ended hs ha hgoing⟩
    · exact Or.inr ⟨j, hj, hlatest.trans hlast, Or.inr ⟨e, hbecomes.endings_mono he, heid,
        hetime.trans hbecomes.clock.symm⟩⟩
  | ended hmade hclosed =>
    obtain ⟨e, he, hid, hbusy, hle, hends, htime⟩ := hclosed.ending
    refine .ended hmade ⟨hbecomes.gone ha hclosed.gone hknown,
      fun j hj => hbecomes.gone ha (hclosed.sweeps j hj) (hjs j hj), e,
      hbecomes.endings_mono he, hid, hbusy, hle, fun j hj => ?_,
      htime.imp_right fun ⟨j, hj, e', he', hrest⟩ => ⟨j, hj, e', hbecomes.endings_mono he', hrest⟩⟩
    obtain ⟨e', he', hrest⟩ := hends j hj
    exact ⟨e', hbecomes.endings_mono he', hrest⟩

/-- A row that is not asked to end yet is to be asked later. -/
theorem Paces.before (h : r.Paces acts u) (hstopping : u.stopping = false) {q : Nat}
    (hq : r.stop = some q) :
    r.since u ≤ q := by
  rcases h.pending q hq with ⟨hle, _⟩ | ⟨hasked, _⟩
  · exact hle
  · cases hstopping.symm.trans hasked

/-- Asked to end at its time, a row makes no further attempt. -/
theorem Stage.ask (h : r.Stage n js u) (hr : r.IsProper) {q : Nat} (hq : r.stop = some q)
    (hsince : r.since u = q) :
    r.Stage n js { u with stopping := true } := by
  have hspan := hr.stop q hq
  have hpos := hr.positive
  cases h with
  | commencing hb hid hturn hphase hplan htime hn => omega
  | attempting hb hid hphase hturn htime hstop htimes hdue =>
    exact absurd (htimes.symm.trans hsince) (hr.ne_stop hq n)
  | stopped hb hid hphase hturn hstop htimes hmade =>
    exact .stopped hb hid hphase hturn rfl htimes hmade
  | @resting b hb hid hphase hturn hstop hle =>
    have hend : r.since u = r.span := by
      rcases hr.first with hlife | ⟨q', hq', hspan'⟩
      · rw [pause, hlife] at hle
        simp only at hle
        omega
      · rw [hq] at hq'
        obtain rfl := Option.some_inj.mp hq'
        omega
    exact .leaving hb hid hphase hturn rfl hend
      (made_of_span_le (hend ▸ Int.le_trans hle (r.pause_le n)))
  | leaving hb hid hphase hturn hstop htimes hmade =>
    exact .leaving hb hid hphase hturn rfl htimes hmade
  | winding hb hid hphase hturn hmade hover hend =>
    exact .winding hb hid hphase hturn hmade hover hend
  | ended hmade hclosed => exact .ended hmade ⟨hclosed.gone, hclosed.sweeps, hclosed.ending⟩

/-- A step that is no attempt of the row. -/
theorem Paces.goes (h : r.Paces acts u) (ha : a ∈ u.activities)
    (hsame : attempts r.id (acts ++ [(u, a)]) = attempts r.id acts)
    (hlatest : (u.step a).latest = u.latest)
    (hstage : r.Stage (attempts r.id acts).length (sweeps r.id acts) (u.step a))
    (hpending : ∀ n : Nat, r.stop = some n →
      (r.since (u.step a) ≤ n ∧ ∃ b ∈ (u.step a).activities, b.phase = .stop) ∨
      ((u.step a).stopping = true ∧ n ≤ r.since (u.step a))) :
    r.Paces (acts ++ [(u, a)]) (u.step a) := by
  obtain ⟨m, hm, hbecomes⟩ := step_moves h.frames.orderly ha
  have hcount : u.count ≤ (u.step a).count := Nat.le_trans (Nat.le_add_right _ _) hbecomes.count
  have hsweeps : sweeps r.id (acts ++ [(u, a)]) = sweeps r.id acts := by rw [sweeps, hsame, sweeps]
  refine ⟨h.frames.step ha, ?_, hpending, ?_, fun j hj => ?_, fun j hj => ?_⟩
  · rw [hsame, hsweeps]
    exact hstage
  · rw [hsame]
    exact h.made
  · rw [hsame]
    obtain ⟨hlater, hknown, hswept⟩ := h.swept j (hsweeps ▸ hj)
    exact ⟨hlater, by omega, hswept.step h.frames.orderly ha hm hbecomes hlatest hknown⟩
  · rw [hsweeps]
    refine (h.latest j (hlatest.symm.trans hj)).imp_right fun ⟨hgone, hknown⟩ => ?_
    exact ⟨hbecomes.gone ha hgone hknown, by omega⟩

/-- **Whatever others do, a row keeps its pace.** -/
theorem Paces.aside (h : r.Paces acts u) (ha : a ∈ u.activities) (hrow : a.phase.isRow = false)
    (hstop : a.phase ≠ .stop) : r.Paces (acts ++ [(u, a)]) (u.step a) := by
  obtain ⟨m, hm, hbecomes⟩ := step_moves h.frames.orderly ha
  obtain ⟨hlatest, hstopping⟩ := Prod.mk.inj (u.step_flags hrow hstop)
  have hother : a.id ≠ r.id := fun hid => by
    rw [(h.frames.row a ha).mpr hid] at hrow
    cases hrow
  refine h.goes ha (attempts_of_ne acts hother) hlatest ?_ fun n hn => ?_
  · exact h.stage.others h.frames.orderly ha hother hbecomes hlatest hstopping
        h.frames.known fun j hj =>
      (h.swept j hj).2.1
  · rw [since_step hbecomes, hstopping]
    refine (h.pending n hn).imp_left fun ⟨hle, b, hb, hphase⟩ =>
      ⟨hle, b, hbecomes.stay b hb fun hid => ?_, hphase⟩
    exact hstop (h.frames.orderly.unique ha hb hid ▸ hphase)

/-- A row that is asked to end keeps its pace until then. -/
theorem Paces.stop (h : r.Paces acts u) (hr : r.IsProper) (ha : a ∈ u.activities)
    (hphase : a.phase = .stop) {t : Instant} (hturn : u.turnOf? a.turn = some t)
    (htime : t ≤ u.clock) :
    r.Paces (acts ++ [(u, a)]) (u.step a) := by
  obtain ⟨q, hq, haturn⟩ := h.frames.stops a ha hphase
  have hrow : a.phase.isRow = false := by rw [hphase]; rfl
  have hother : a.id ≠ r.id := fun hid => by
    rw [(h.frames.row a ha).mpr hid] at hrow
    cases hrow
  have hstep : u.step a = { u.finish a .closed with stopping := true } := by
    unfold step
    rw [hphase]
    rfl
  have hbecomes : u.Becomes a ⟨.ended .closed, [], u.guard⟩ (u.finish a .closed) :=
    becomes_finish h.frames.orderly (.refl u) (storeAfter_none (by rw [hphase]; rfl)).symm .closed
  have hjs : ∀ j ∈ sweeps r.id acts, j < u.count := fun j hj => (h.swept j hj).2.1
  have hstage := h.stage.others h.frames.orderly ha hother hbecomes rfl rfl h.frames.known hjs
  -- its turn has come
  have hcome : (q : Int) ≤ r.since u := by
    rw [haturn] at hturn
    obtain rfl := Option.some_inj.mp hturn
    have hmicros : r.plan.start.micros + q ≤ u.clock.micros := htime
    rw [since]
    omega
  refine h.goes ha (attempts_of_ne acts hother) (by rw [hstep]; rfl) ?_ fun n hn => ?_
  · rw [hstep]
    cases hstopping : u.stopping with
    | true =>
      rw [show u.finish a .closed = { u.finish a .closed with stopping := true } by
        rw [← hstopping]; rfl] at hstage
      exact hstage
    | false =>
      exact hstage.ask hr hq (Int.le_antisymm (h.before hstopping hq) hcome)
  · rw [hstep]
    rw [hq] at hn
    obtain rfl := Option.some_inj.mp hn
    exact Or.inr ⟨rfl, hcome⟩

end Row

end Cadence
