/-
A row of sweeps keeps its pace.

Whatever a row does, whatever is done beside it and however long it takes, the invariant is
preserved: the attempts are made at their times, and the row ends when its time is over and
its sweeps have ended.

* `Row.Paces.commence`, `rested`, `leaves`, `winds`, `ends` — a row begins, goes on and ends;
* `Row.Paces.attempt` — it attempts a sweep, which is skipped if one is in flight;
* `Row.Paces.step`, `pass`, `arrive` — each act, the passage of time, and whoever arrives;
* `Row.Paces.unfolds` — every exact course;
* `Row.Paces.caught_up`, `closed` — what the invariant comes to.
-/
import Cadence.Proofs.Scheduler.Row

namespace Cadence

open Calendar

/-! ### Who goes on, waits or begins -/

namespace Engine

variable {u : Engine} {a b : Activity}

theorem mem_enter (ha : a ∈ u.activities) (phase : Phase) :
    { a with phase := phase } ∈ (u.enter a phase).activities :=
  List.mem_map.mpr ⟨a, ha, if_pos rfl⟩

theorem mem_wait (ha : a ∈ u.activities) (turn : Turn) (phase : Phase) :
    { a with turn := turn, rank := u.count, phase := phase } ∈ (u.wait a turn phase).activities :=
  List.mem_map.mpr ⟨a, ha, if_pos rfl⟩

/-- Who waits is the only one to change. -/
theorem mem_wait_of_ne {turn : Turn} {phase : Phase} (hb : b ∈ u.activities)
    (hother : b.id ≠ a.id) :
    b ∈ (u.wait a turn phase).activities := List.mem_map.mpr ⟨b, hb, if_neg hother⟩

/-- Changing one activity but for its id keeps the ids. -/
theorem ids_change {f : Activity → Activity} (hf : ∀ b, (f b).id = b.id)
    (as : List Activity) (i : Nat) :
    (as.map fun b => if b.id = i then f b else b).map (·.id) = as.map (·.id) := by
  rw [List.map_map]
  refine List.map_congr_left fun b _ => ?_
  show (if b.id = i then f b else b).id = b.id
  split
  · exact hf b
  · rfl

theorem ids_wait (u : Engine) (a : Activity) (turn : Turn) (phase : Phase) :
    (u.wait a turn phase).activities.map (·.id) = u.activities.map (·.id) :=
  ids_change (f := fun b => { b with turn := turn, rank := u.count, phase := phase })
    (fun _ => rfl) _ _

theorem ids_enter (u : Engine) (a : Activity) (phase : Phase) :
    (u.enter a phase).activities.map (·.id) = u.activities.map (·.id) :=
  ids_change (f := fun b => { b with phase := phase }) (fun _ => rfl) _ _

/-- Who has the id of the one that is changed is that one. -/
theorem of_mem_change {f : Activity → Activity} {as : List Activity} {i : Nat}
    (hb : b ∈ as.map fun b => if b.id = i then f b else b) (hid : b.id = i) : ∃ c, b = f c := by
  obtain ⟨c, _, rfl⟩ := List.mem_map.mp hb
  by_cases hself : c.id = i
  · exact ⟨c, if_pos hself⟩
  · rw [if_neg hself] at hid
    exact absurd hid hself

theorem phase_enter {phase : Phase} (hb : b ∈ (u.enter a phase).activities)
    (hid : b.id = a.id) : b.phase = phase := by
  obtain ⟨c, rfl⟩ := of_mem_change hb hid
  rfl

theorem phase_wait {turn : Turn} {phase : Phase} (hb : b ∈ (u.wait a turn phase).activities)
    (hid : b.id = a.id) :
    b.phase = phase := by
  obtain ⟨c, rfl⟩ := of_mem_change hb hid
  rfl

theorem turnOf?_unasked (hstopping : u.stopping = false) (t : Instant) :
    u.turnOf? (.timeOrStop t) = some t := by
  rw [turnOf?, if_neg (by rw [hstopping]; exact Bool.false_ne_true)]

theorem turnOf?_asked (hstopping : u.stopping = true) (t : Instant) :
    u.turnOf? (.timeOrStop t) = some u.clock := by
  rw [turnOf?, if_pos hstopping]

/-- Who waits for the latest sweep has a turn when it has ended. -/
theorem turnOf?_latest (h : (u.turnOf? (.after u.latest.toList)).isSome = true) {j : Nat}
    (hj : u.latest = some j) :
    u.isGoing j = false := by
  rw [Bool.eq_false_iff]
  intro hgoing
  have hany : u.latest.toList.any u.isGoing = true := by rw [hj]; simpa using hgoing
  rw [turnOf?, if_pos hany] at h
  cases h

theorem isGoing_spawn (turn : Turn) (phase : Phase) {j : Nat} (hj : j < u.count) :
    (u.spawn turn phase).isGoing j = u.isGoing j := by
  have hne : (u.count == j) = false := beq_false_of_ne (Nat.ne_of_gt hj)
  show (u.activities ++ [_]).any _ = _
  rw [List.any_append, List.any_cons, List.any_nil, hne, Bool.or_false]
  exact Bool.or_false _

end Engine

namespace Row

open Engine

variable {r : Row} {u v : Engine} {a b : Activity} {m : Move} {n : Nat} {js : List Nat}
  {acts : List (Engine × Activity)} {turn : Turn} {phase : Phase}

/-! ### What a row does between its attempts -/

/-- While a row goes on, whoever is to ask it to end stays until then. -/
theorem Paces.pending_row (h : r.Paces acts u) (ha : a ∈ u.activities)
    (hrow : a.phase.isRow = true) (hbecomes : u.Becomes a m v)
    (hstopping : v.stopping = u.stopping) (n : Nat) (hn : r.stop = some n) :
    (r.since v ≤ n ∧ ∃ b ∈ v.activities, b.phase = .stop) ∨
      (v.stopping = true ∧ n ≤ r.since v) := by
  rw [since_step hbecomes, hstopping]
  refine (h.pending n hn).imp_left fun ⟨hle, b, hb, hphase⟩ =>
    ⟨hle, b, hbecomes.stay b hb fun hid => ?_, hphase⟩
  rw [← h.frames.orderly.unique ha hb hid, hphase] at hrow
  cases hrow

/-- A row begins at its start, and its first attempt comes at once. -/
theorem Paces.commence (h : r.Paces acts u) (hr : r.IsProper) (ha : a ∈ u.activities)
    {q : Plan} (hphase : a.phase = .commence q)
    (hplan : { q with start := r.plan.start } = r.plan) (hid : a.id = r.id)
    (hturn : a.turn = .time r.plan.start) (hsince : r.since u = 0)
    (hn : (attempts r.id acts).length = 0) :
    r.Paces (acts ++ [(u, a)]) (u.step a) := by
  have hstart : u.clock = r.plan.start := by
    have hmicros : u.clock.micros = r.plan.start.micros := by
      rw [since] at hsince
      omega
    cases hclock : u.clock
    cases hbegin : r.plan.start
    simp_all
  have hstep : u.step a = { u with stopping := false }.enter a (.attempt r.plan) := by
    unfold step
    rw [hphase]
    simp only
    rw [hstart, hplan]
  have hno : (a.phase.isAttempt && !u.stopping) = false := by rw [hphase]; rfl
  have hspan := hr.positive
  refine h.goes ha (attempts_of_not_attempt acts hno) (by rw [hstep]; rfl) ?_ fun n hn => ?_
  · rw [hstep, hn]
    have hmem : { a with phase := .attempt r.plan } ∈
        (Engine.enter { u with stopping := false } a (.attempt r.plan)).activities := mem_enter ha _
    refine .attempting hmem hid rfl (Or.inl hturn) ?_ rfl ?_ ?_
    · show r.plan.start ≤ u.clock
      rw [hstart]
      exact Int.le_refl _
    · show r.since u = _
      rw [hsince]
      simp
    · simpa using hspan
  · have hbecomes : u.Becomes a ⟨.onward a.turn (.attempt r.plan), [], u.guard⟩ (u.step a) := by
      rw [hstep]
      exact becomes_enter h.frames.orderly (u := { u with stopping := false })
        ⟨rfl, rfl, rfl, rfl, rfl⟩
        (storeAfter_none (by rw [hphase]; rfl)).symm ha _
    rcases h.pending n hn with ⟨hle, b, hb, hbstop⟩ | ⟨_, hle⟩
    · left
      rw [since_step hbecomes]
      refine ⟨hle, b, hbecomes.stay b hb fun heq => ?_, hbstop⟩
      rw [h.frames.orderly.unique ha hb heq, hphase] at hbstop
      cases hbstop
    · have hlater := hr.stop n hn
      omega

/-- The time of a row is over. -/
theorem Paces.winds (h : r.Paces acts u) (ha : a ∈ u.activities)
    (hrow : a.phase.isRow = true) (hid : a.id = r.id)
    (hno : (a.phase.isAttempt && !u.stopping) = false) (hstep : u.step a = u.wind a)
    (hmade : r.Made (attempts r.id acts).length) (hsince : r.since u = r.span) :
    r.Paces (acts ++ [(u, a)]) (u.step a) := by
  have hbecomes : u.Becomes a ⟨.onward (.after u.latest.toList) .wind, [], u.guard⟩ (u.step a) := by
    rw [hstep]
    exact becomes_wait h.frames.orderly (.refl u)
      (storeAfter_none (Phase.request?_of_isRow hrow)).symm ha _ _ []
  refine h.goes ha (attempts_of_not_attempt acts hno) (by rw [hstep]; rfl) ?_ fun n hn => ?_
  · rw [hstep]
    exact .winding (mem_wait ha _ _) hid rfl rfl hmade (Int.le_of_eq hsince.symm) (Or.inl hsince)
  · exact h.pending_row ha hrow hbecomes (by rw [hstep]; rfl) n hn

/-- A row that goes over to an attempt. -/
theorem Paces.enters (h : r.Paces acts u) (ha : a ∈ u.activities)
    (hphase : a.phase = .rest r.plan) (hstep : u.step a = u.enter a (.attempt r.plan))
    (hstage : r.Stage (attempts r.id acts).length (sweeps r.id acts)
      (u.enter a (.attempt r.plan))) :
    r.Paces (acts ++ [(u, a)]) (u.step a) := by
  have hrow : a.phase.isRow = true := by rw [hphase]; rfl
  have hbecomes : u.Becomes a ⟨.onward a.turn (.attempt r.plan), [], u.guard⟩ (u.step a) := by
    rw [hstep]
    exact becomes_enter h.frames.orderly (.refl u) (storeAfter_none (by rw [hphase]; rfl)).symm ha _
  have hno : (a.phase.isAttempt && !u.stopping) = false := by rw [hphase]; rfl
  refine h.goes ha (attempts_of_not_attempt acts hno) (by rw [hstep]; rfl) (hstep ▸ hstage)
    fun n hn => ?_
  exact h.pending_row ha hrow hbecomes (by rw [hstep]; rfl) n hn

/-- After a pause a row attempts the next sweep, unless its lifespan is over. -/
theorem Paces.rested (h : r.Paces acts u) (hr : r.IsProper) (ha : a ∈ u.activities)
    (hphase : a.phase = .rest r.plan) (hid : a.id = r.id)
    (hturn : a.turn = .timeOrStop (r.plan.start.after (r.pause (attempts r.id acts).length)))
    (hstopping : u.stopping = false)
    (hsince : r.since u = r.pause (attempts r.id acts).length) :
    r.Paces (acts ++ [(u, a)]) (u.step a) := by
  have hrow : a.phase.isRow = true := by rw [hphase]; rfl
  have hstep : u.step a = u.rested a r.plan := by
    unfold step
    rw [hphase]
  have hnext (hdue : r.since u = (attempts r.id acts).length * r.plan.interval)
      (hlife : ∀ l, r.plan.lifespan = some l → r.since u < l)
        (hgo : u.rested a r.plan = u.enter a (.attempt r.plan)) :
      r.Paces (acts ++ [(u, a)]) (u.step a) := by
    have hmem : { a with phase := .attempt r.plan } ∈ (u.enter a (.attempt r.plan)).activities :=
      mem_enter ha _
    refine h.enters ha hphase (hstep.trans hgo)
      (.attempting hmem hid rfl (Or.inr hturn) ?_ hstopping hdue ?_)
    · show r.plan.start.micros + r.pause _ ≤ u.clock.micros
      rw [since] at hsince
      omega
    · rw [← hdue]
      rcases hr.first with hspan | ⟨q, hq, hspan⟩
      · exact hlife _ hspan
      · -- it is to be asked to end, but not at the time of an attempt
        have hle := h.before hstopping hq
        have hne := hr.ne_stop hq (attempts r.id acts).length
        omega
  cases hlifespan : r.plan.lifespan with
  | none =>
    rw [pause, hlifespan] at hsince
    refine hnext hsince (fun l hl => by cases hlifespan.symm.trans hl) ?_
    rw [Engine.rested, left?, hlifespan]
    rfl
  | some l =>
    have hleft : u.left? r.plan = some (l - r.since u) := by rw [left?, hlifespan]; rfl
    rw [pause, hlifespan] at hsince
    simp only at hsince
    by_cases hover : l - r.since u ≤ 0
    · have hwind : u.rested a r.plan = u.wind a := by
        rw [Engine.rested, hleft, if_pos (by simpa using hover)]
      have hspan := hr.lifespan l hlifespan
      have hend : r.since u = r.span := by
        rcases hr.first with hfirst | ⟨q, hq, hspan'⟩
        · rw [hlifespan] at hfirst
          obtain rfl := Option.some_inj.mp hfirst
          omega
        · have hle := h.before hstopping hq
          omega
      exact h.winds ha hrow hid (by rw [hphase]; rfl) (hstep.trans hwind)
        (made_of_span_le (by omega)) hend
    · refine hnext (by omega) (fun l' hl' => ?_) ?_
      · obtain rfl := Option.some_inj.mp (hlifespan.symm.trans hl')
        omega
      · rw [Engine.rested, hleft, if_neg (by simpa using hover)]

/-- A row that is asked to end while it rests goes over to its end. -/
theorem Paces.leaves (h : r.Paces acts u) (ha : a ∈ u.activities)
    (hphase : a.phase = .rest r.plan) (hid : a.id = r.id) {t : Instant}
    (hturn : a.turn = .timeOrStop t) (hstopping : u.stopping = true)
    (hsince : r.since u = r.span) (hmade : r.Made (attempts r.id acts).length) :
    r.Paces (acts ++ [(u, a)]) (u.step a) := by
  have hstep : u.step a = u.rested a r.plan := by
    unfold step
    rw [hphase]
  by_cases hover : (u.left? r.plan).any (· ≤ 0) = true
  · refine h.winds ha (by rw [hphase]; rfl) hid (by rw [hphase]; rfl) (hstep.trans ?_) hmade hsince
    rw [Engine.rested, if_pos hover]
  · have hgo : u.rested a r.plan = u.enter a (.attempt r.plan) := by
      rw [Engine.rested, if_neg hover]
    have hmem : { a with phase := .attempt r.plan } ∈ (u.enter a (.attempt r.plan)).activities :=
      mem_enter ha _
    exact h.enters ha hphase (hstep.trans hgo) (.stopped hmem hid rfl hturn hstopping hsince hmade)

/-- A sweep that a row has begun and that goes on has ended when the row waits for it no longer. -/
theorem Paces.gone_of_latest (h : r.Paces acts u)
    (hlatest : ∀ j, u.latest = some j → u.isGoing j = false) :
    ∀ j ∈ sweeps r.id acts, u.isGoing j = false ∧ ∃ e ∈ u.endings, e.id = j ∧ e.time ≤ u.clock := by
  intro j hj
  cases (h.swept j hj).2.2 with
  | going hb hid hsweep hlast hnew => cases (isGoing_eq_false.mp (hlatest j hlast) _ hb) hid
  | ended hgone he hid htime => exact ⟨hgone, _, he, hid, htime⟩

/-- A row ends when its latest sweep has ended. -/
theorem Paces.ends (h : r.Paces acts u) (ha : a ∈ u.activities) (hphase : a.phase = .wind)
    (hid : a.id = r.id) (hlatest : ∀ j, u.latest = some j → u.isGoing j = false)
    (hmade : r.Made (attempts r.id acts).length) (hover : r.span ≤ r.since u)
    (hend : r.since u = r.span ∨ ∃ j ∈ sweeps r.id acts, ∃ e ∈ u.endings, e.id = j ∧
      e.time = u.clock) :
    r.Paces (acts ++ [(u, a)]) (u.step a) := by
  have hstep : u.step a = u.finish a (.stopped u.guard) := by
    unfold step
    rw [hphase]
  have hrow : a.phase.isRow = true := by rw [hphase]; rfl
  have hbecomes : u.Becomes a ⟨.ended (.stopped u.guard), [], u.guard⟩ (u.step a) := by
    rw [hstep]
    exact becomes_finish h.frames.orderly (.refl u) (storeAfter_none (by rw [hphase]; rfl)).symm _
  have hno : (a.phase.isAttempt && !u.stopping) = false := by rw [hphase]; rfl
  have hall := h.gone_of_latest hlatest
  refine h.goes ha (attempts_of_not_attempt acts hno) (by rw [hstep]; rfl)
    (.ended hmade ⟨?_, fun j hj => ?_, ?_⟩)
    fun n hn => ?_
  · rw [isGoing_eq_false]
    intro b hb
    cases hbecomes.going b hb with
    | stays hgoing hother => exact hid ▸ hother
    | moves hfate => cases hfate
    | begins hbegun => cases hbegun
  · exact hbecomes.gone ha (hall j hj).1 (h.swept j hj).2.1
  · refine ⟨⟨r.id, .stopped u.guard, u.clock⟩, ?_, rfl, ⟨_, rfl⟩, ?_, fun j hj => ?_, ?_⟩
    · rw [hbecomes.endings, ← hid]
      exact List.mem_cons_self
    · show r.plan.start.micros + r.span ≤ u.clock.micros
      rw [since] at hover
      omega
    · obtain ⟨_, e, he, heid, htime⟩ := hall j hj
      exact ⟨e, hbecomes.endings_mono he, heid, htime⟩
    · rcases hend with htime | ⟨j, hj, e, he, heid, htime⟩
      · left
        have hmicros : u.clock.micros = r.plan.start.micros + r.span := by
          rw [since] at htime
          omega
        exact congrArg Instant.mk hmicros
      · exact Or.inr ⟨j, hj, e, hbecomes.endings_mono he, heid, htime⟩
  · exact h.pending_row ha hrow hbecomes (by rw [hstep]; rfl) n hn

end Row

/-! ### An attempt -/

namespace Engine

variable {u : Engine} {b : Activity}

/-- What an attempt begins: a sweep, unless one is in flight. -/
def attempted (u : Engine) (p : Plan) : Engine :=
  if u.guard then u.report .warning "Previous scheduler tick still running; skipping interval"
  else { u with latest := some u.count }.spawnNow (.sweep none p.outages true)

theorem attempted_clock (u : Engine) (p : Plan) : (u.attempted p).clock = u.clock := by
  unfold attempted
  split <;> rfl

theorem attempted_stopping (u : Engine) (p : Plan) : (u.attempted p).stopping = u.stopping := by
  unfold attempted
  split <;> rfl

theorem attempted_latest (u : Engine) (p : Plan) :
    (u.attempted p).latest = if u.guard then u.latest else some u.count := by
  unfold attempted
  split <;> rfl

theorem le_attempted_count (u : Engine) (p : Plan) : u.count ≤ (u.attempted p).count := by
  unfold attempted
  split
  · exact Nat.le_refl _
  · exact Nat.le_succ _

theorem attempted_going {p : Plan} (hb : b ∈ u.activities) : b ∈ (u.attempted p).activities := by
  unfold attempted
  split
  · exact hb
  · exact List.mem_append_left _ hb

theorem attempted_new {p : Plan} (hguard : u.guard = false) :
    ⟨u.count, .time u.clock, u.count, .sweep none p.outages true⟩ ∈ (u.attempted p).activities := by
  unfold attempted
  rw [hguard]
  exact List.mem_append_right _ List.mem_cons_self

end Engine

namespace Row

open Engine

variable {r : Row} {u v : Engine} {a b : Activity} {m : Move} {n : Nat} {js : List Nat}
  {acts : List (Engine × Activity)} {turn : Turn} {phase : Phase}

/-- A sweep that a row has begun earlier is in flight when the row attempts another one, if
it goes on. -/
theorem Sweeping.inFlight {j : Nat} (h : r.Sweeping n u j) (hr : r.IsProper)
    (hsince : r.since u = n * r.plan.interval) (hgoing : u.isGoing j = true) : u.InFlight := by
  cases h with
  | ended hgone => cases hgone.symm.trans hgoing
  | @going b hb hid hsweep hlatest hnew =>
    refine ⟨b, hb, ?_⟩
    have hsought : b.phase.seeksGuard = false := by
      rw [Bool.eq_false_iff]
      intro hseeks
      obtain ⟨htime, _⟩ := hnew hseeks
      have hpos := hr.interval
      omega
    unfold Phase.isSweep at hsweep
    split at hsweep <;> simp_all [Phase.seeksGuard, Phase.holdsGuard]

/-- After an attempt a row rests until the next one, or until its lifespan is over. -/
theorem attempt_eq (hr : r.IsProper) (hstopping : u.stopping = false)
    (hsince : r.since u = n * r.plan.interval) (hdue : (n : Int) * r.plan.interval < r.span) :
    u.attempt a r.plan =
      (u.attempted r.plan).wait a (.timeOrStop (r.plan.start.after (r.pause (n + 1))))
        (.rest r.plan) := by
  have hclock := u.attempted_clock r.plan
  have hmicros : u.clock.micros = r.plan.start.micros + n * r.plan.interval := by
    rw [since] at hsince
    omega
  have hdef : (if u.guard
      then u.report .warning "Previous scheduler tick still running; skipping interval"
      else { u with latest := some u.count }.spawnNow (.sweep none r.plan.outages true)) =
        u.attempted r.plan := rfl
  have hnext : u.clock.micros + r.plan.interval = r.plan.start.micros + (n + 1 : Nat) *
      r.plan.interval := by
    rw [hmicros]
    push_cast
    rw [Int.add_mul]
    omega
  rw [Engine.attempt, if_neg (by rw [hstopping]; exact Bool.false_ne_true)]
  simp only [hdef]
  rw [left?, hclock, pause]
  cases hlife : r.plan.lifespan with
  | none =>
    have htime : u.clock.after r.plan.interval =
        r.plan.start.after ((n + 1 : Nat) * r.plan.interval) :=
      congrArg Instant.mk hnext
    simp only [Option.map_none]
    rw [htime]
  | some l =>
    have hlater := hr.lifespan l hlife
    have hleft : l - (u.clock.micros - r.plan.start.micros) = l - n * r.plan.interval := by omega
    have htime : u.clock.after (min (r.plan.interval : Int) (l - n * r.plan.interval)) =
        r.plan.start.after (min ((n + 1 : Nat) * r.plan.interval) l) := by
      refine congrArg Instant.mk ?_
      omega
    simp only [Option.map_some]
    rw [hleft, if_neg (by omega), htime]

/-- Who begins in an attempt: nobody if a sweep is in flight, and a sweep otherwise. -/
theorem begun_attempt (hs : u.IsOrderly) {turn : Turn} {phase : Phase}
    (hstep : u.step a = (u.attempted r.plan).wait a turn phase) :
    begun (u, a) = if u.guard then [] else [u.count] := by
  have hold : (u.activities.map (·.id)).filter (fun j => decide (u.count ≤ j)) = [] := by
    refine List.filter_eq_nil_iff.mpr fun j hj => ?_
    obtain ⟨b, hb, rfl⟩ := List.mem_map.mp hj
    have hlt := hs.id_lt b hb
    simpa using hlt
  rw [begun]
  simp only
  rw [hstep, ids_wait, attempted]
  split
  · exact hold
  · show ((u.activities ++ [_]).map Activity.id).filter _ = _
    rw [List.map_append, List.filter_append, hold]
    simp

/-- An attempt is made at its time, and it begins a sweep unless one is in flight. -/
theorem fits_attempt (hs : u.IsOrderly) (hw : u.Watched) (ha : a ∈ u.activities)
    {turn : Turn} {phase : Phase}
    (hstep : u.step a = (u.attempted r.plan).wait a turn phase)
    (hsince : r.since u = n * r.plan.interval) (hdue : (n : Int) * r.plan.interval < r.span)
    (htracked : ∀ j ∈ js, u.isGoing j = true → u.InFlight) :
    r.Fits n js (u, a) where
  time := hsince
  due := hdue
  tracked := htracked
  skips hin := by rw [begun_attempt hs hstep, if_pos (hw.inFlight_iff.mp hin)]
  begins hfree := by
    have hguard : u.guard = false := Bool.eq_false_iff.mpr fun hheld =>
      hfree (hw.inFlight_iff.mpr hheld)
    refine ⟨by rw [begun_attempt hs hstep, hguard]; rfl, ?_⟩
    show _ ∈ (u.step a).activities
    rw [hstep]
    exact mem_wait_of_ne (attempted_new hguard) (Nat.ne_of_gt (hs.id_lt a ha))

/-- One more attempt that fits. -/
theorem fits_append {xs : List (Engine × Activity)} {y : Engine × Activity}
    (hxs : ∀ k x, xs[k]? = some x → r.Fits k ((xs.take k).flatMap begun) x)
    (hy : r.Fits xs.length (xs.flatMap begun) y) (k : Nat) (x : Engine × Activity)
    (hx : (xs ++ [y])[k]? = some x) :
    r.Fits k (((xs ++ [y]).take k).flatMap begun) x := by
  rcases Nat.lt_or_ge k xs.length with hlt | hle
  · rw [List.getElem?_append_left hlt] at hx
    rw [List.take_append_of_le_length (Nat.le_of_lt hlt)]
    exact hxs k x hx
  · have hk : k = xs.length := by
      have hlt := (List.getElem?_eq_some_iff.mp hx).1
      rw [List.length_append, List.length_singleton] at hlt
      omega
    subst hk
    rw [List.getElem?_append_right (Nat.le_refl _), Nat.sub_self] at hx
    obtain rfl := Option.some_inj.mp hx
    rw [List.take_left]
    exact hy

/-- After an attempt a row rests until the next one. -/
theorem stage_attempt (hr : r.IsProper) (ha : a ∈ u.activities) (hid : a.id = r.id)
    (hstopping : u.stopping = false) (hsince : r.since u = n * r.plan.interval)
    (hdue : (n : Int) * r.plan.interval < r.span) :
    r.Stage (n + 1) js
      ((u.attempted r.plan).wait a (.timeOrStop (r.plan.start.after (r.pause (n + 1))))
      (.rest r.plan)) := by
  refine .resting (mem_wait (attempted_going ha) _ _) hid rfl rfl
    ((attempted_stopping _ _).trans hstopping) ?_
  have hsame (turn : Turn) (phase : Phase) :
      r.since ((u.attempted r.plan).wait a turn phase) = r.since u :=
    congrArg (fun t : Instant => t.micros - r.plan.start.micros) (attempted_clock u r.plan)
  have hnext : (n : Int) * r.plan.interval ≤ (n + 1 : Nat) * r.plan.interval := by
    push_cast
    rw [Int.add_mul]
    omega
  rw [hsame, hsince, pause]
  split
  · exact hnext
  · next l hl =>
    have hlater := hr.lifespan l hl
    omega

/-- While a sweep that a row has begun goes on, it stays the latest one, as the next
attempts are skipped. -/
theorem Sweeping.attempt {j : Nat} (h : r.Sweeping n u j) (hr : r.IsProper)
    (hs : u.IsOrderly) (hw : u.Watched) (ha : a ∈ u.activities)
    (hrow : a.phase.isRow = true) {turn : Turn} {phase : Phase}
    (hstep : u.step a = (u.attempted r.plan).wait a turn phase)
    (hbecomes : u.Becomes a m (u.step a)) (hsince : r.since u = n * r.plan.interval)
    (hj : j < u.count) : r.Sweeping (n + 1) (u.step a) j := by
  have hflight := h.inFlight hr hsince
  cases h with
  | ended hgone he heid htime =>
    exact .ended (hbecomes.gone ha hgone hj) (hbecomes.endings_mono he) heid
      (hbecomes.clock ▸ htime)
  | @going b hb hbid hsweep hlast hnew =>
    have hguard := hw.inFlight_iff.mp (hflight (isGoing_iff.mpr ⟨b, hb, hbid⟩))
    have hother : b.id ≠ a.id := fun heq => by
      rw [hs.unique ha hb heq] at hsweep
      cases (Phase.isSweep_of_isRow hrow).symm.trans hsweep
    have hlatest : (u.step a).latest = u.latest := by
      rw [hstep]
      exact (attempted_latest _ _).trans (if_pos hguard)
    refine .going (hbecomes.stay b hb hother) hbid hsweep (hlatest.trans hlast) fun hseeks => ?_
    -- it has looked at the guard before time passed
    obtain ⟨htime, _⟩ := hnew hseeks
    have hpos := hr.interval
    omega

/-- The sweep that an attempt begins looks at the guard at once. -/
theorem sweeping_new (hs : u.IsOrderly) (ha : a ∈ u.activities) {turn : Turn}
    {phase : Phase} (hstep : u.step a = (u.attempted r.plan).wait a turn phase)
    (hbecomes : u.Becomes a m (u.step a)) (hsince : r.since u = n * r.plan.interval)
    (hguard : u.guard = false) : r.Sweeping (n + 1) (u.step a) u.count := by
  have hmem : ⟨u.count, .time u.clock, u.count, .sweep none r.plan.outages true⟩ ∈
      (u.step a).activities := by
    rw [hstep]
    exact mem_wait_of_ne (attempted_new hguard) (Nat.ne_of_gt (hs.id_lt a ha))
  have hlatest : (u.step a).latest = some u.count := by
    rw [hstep]
    refine (attempted_latest _ _).trans ?_
    rw [hguard]
    rfl
  refine .going hmem rfl rfl hlatest fun _ =>
    ⟨?_, u.clock, rfl, Int.le_of_eq (congrArg _ hbecomes.clock.symm)⟩
  rw [since_step hbecomes, hsince]
  push_cast
  rw [Int.add_mul, Int.one_mul]

/-- **An attempt keeps the pace.** -/
theorem Paces.attempt (h : r.Paces acts u) (hr : r.IsProper) (ha : a ∈ u.activities)
    (hphase : a.phase = .attempt r.plan) (hid : a.id = r.id) (hstopping : u.stopping = false)
    (hsince : r.since u = (attempts r.id acts).length * r.plan.interval)
    (hdue : ((attempts r.id acts).length : Int) * r.plan.interval < r.span) :
    r.Paces (acts ++ [(u, a)]) (u.step a) := by
  have horderly := h.frames.orderly
  have hwatched := h.frames.watched
  have hstep : u.step a = (u.attempted r.plan).wait a
      (.timeOrStop (r.plan.start.after (r.pause ((attempts r.id acts).length + 1))))
        (.rest r.plan) := by
    rw [← attempt_eq hr hstopping hsince hdue, step, hphase]
  have hrow : a.phase.isRow = true := by rw [hphase]; rfl
  obtain ⟨m, hm, hbecomes⟩ := step_moves horderly ha
  have hcount : u.count < (u.step a).count := by
    rw [hstep]
    exact Nat.lt_succ_of_le (le_attempted_count u r.plan)
  have hflags : (u.step a).stopping = u.stopping := by
    rw [hstep]
    exact attempted_stopping u r.plan
  have hattempts : attempts r.id (acts ++ [(u, a)]) = attempts r.id acts ++ [(u, a)] := by
    refine attempts_of_attempt acts hid ?_
    rw [hphase, hstopping]
    rfl
  have hlength : (attempts r.id (acts ++ [(u, a)])).length = (attempts r.id acts).length + 1 := by
    rw [hattempts, List.length_append, List.length_singleton]
  have hbegun := begun_attempt horderly hstep
  have hsweeps : sweeps r.id (acts ++ [(u, a)]) = sweeps r.id acts ++ begun (u, a) := by
    rw [sweeps, hattempts, List.flatMap_append, ← sweeps, List.flatMap_singleton]
  refine ⟨h.frames.step ha, ?_, fun n hn => h.pending_row ha hrow hbecomes hflags n hn, ?_,
    fun j hj => ?_, fun j hj => ?_⟩
  · rw [hlength, hstep]
    exact stage_attempt hr ha hid hstopping hsince hdue
  · rw [hattempts]
    exact fits_append h.made (fits_attempt horderly hwatched ha hstep hsince hdue
      fun j hj => (h.swept j hj).2.2.inFlight hr hsince)
  · rw [hlength]
    rw [hsweeps] at hj
    rcases List.mem_append.mp hj with hj | hj
    · obtain ⟨hlater, hold, hswept⟩ := h.swept j hj
      exact ⟨hlater, Nat.lt_trans hold hcount,
        hswept.attempt hr horderly hwatched ha hrow hstep hbecomes hsince hold⟩
    · cases hguard : u.guard with
      | true =>
        rw [hbegun, if_pos hguard] at hj
        cases hj
      | false =>
        rw [hbegun, hguard] at hj
        obtain rfl := List.mem_singleton.mp hj
        exact ⟨h.frames.known, hcount, sweeping_new horderly ha hstep hbecomes hsince hguard⟩
  · rw [hsweeps]
    rw [hstep] at hj
    replace hj := (attempted_latest u r.plan).symm.trans hj
    cases hguard : u.guard with
    | true =>
      rw [hguard, if_pos rfl] at hj
      rcases h.latest j hj with hmem | ⟨hgone, hold⟩
      · exact Or.inl (List.mem_append_left _ hmem)
      · exact Or.inr ⟨hbecomes.gone ha hgone hold, Nat.lt_trans hold hcount⟩
    | false =>
      rw [hguard] at hj
      obtain rfl := Option.some_inj.mp hj
      left
      rw [hbegun, hguard]
      exact List.mem_append_right _ List.mem_cons_self

/-! ### Exact courses -/

/-- **A row keeps its pace with each step.** -/
theorem Paces.step (h : r.Paces acts u) (hr : r.IsProper) (ha : a ∈ u.activities)
    {t : Instant} (hturn : u.turnOf? a.turn = some t) (htime : t ≤ u.clock) :
    r.Paces (acts ++ [(u, a)]) (u.step a) := by
  cases hrow : a.phase.isRow with
  | false =>
    by_cases hstop : a.phase = .stop
    · exact h.stop hr ha hstop hturn htime
    · exact h.aside ha hrow hstop
  | true =>
    have hid := (h.frames.row a ha).mp hrow
    have hself {b : Activity} (hb : b ∈ u.activities) (hbid : b.id = r.id) : b = a :=
      h.frames.orderly.unique ha hb (hbid.trans hid.symm)
    cases h.stage with
    | commencing hb hbid hbturn hphase hplan hsince hn =>
      obtain rfl := hself hb hbid
      exact h.commence hr ha hphase hplan hid hbturn hsince hn
    | attempting hb hbid hphase hbturn hbtime hstopping hsince hdue =>
      obtain rfl := hself hb hbid
      exact h.attempt hr ha hphase hid hstopping hsince hdue
    | stopped hb hbid hphase hbturn hstopping hsince hmade =>
      obtain rfl := hself hb hbid
      refine h.winds ha hrow hid (by rw [hstopping, Bool.not_true, Bool.and_false]) ?_ hmade hsince
      rw [Engine.step, hphase]
      exact if_pos hstopping
    | resting hb hbid hphase hbturn hstopping hle =>
      obtain rfl := hself hb hbid
      refine h.rested hr ha hphase hid hbturn hstopping (Int.le_antisymm hle ?_)
      -- its turn has come
      rw [hbturn, turnOf?_unasked hstopping] at hturn
      obtain rfl := Option.some_inj.mp hturn
      have hcome : r.plan.start.micros + r.pause _ ≤ u.clock.micros := htime
      rw [since]
      omega
    | leaving hb hbid hphase hbturn hstopping hsince hmade =>
      obtain rfl := hself hb hbid
      exact h.leaves ha hphase hid hbturn hstopping hsince hmade
    | winding hb hbid hphase hbturn hmade hover hend =>
      obtain rfl := hself hb hbid
      have hlatest : ∀ j, u.latest = some j → u.isGoing j = false := fun j hj =>
        turnOf?_latest (by rw [← hbturn, hturn]; rfl) hj
      refine h.ends ha hphase hid hlatest hmade hover (hend.imp_right ?_)
      rintro ⟨j, hj, hlast, hgoing | hended⟩
      · cases (hlatest j hlast).symm.trans hgoing
      · exact ⟨j, hj, hended⟩
    | ended hmade hclosed => exact absurd hid (isGoing_eq_false.mp hclosed.gone a ha)

section

variable {t : Instant} (hlater : u.clock < t)
  (hfirst : ∀ a ∈ u.activities, ∀ v, u.turnOf? a.turn = some v → t ≤ v)

include hlater hfirst

/-- When time passes, it is nobody's turn. -/
theorem nobodys_turn (hb : b ∈ u.activities) {w : Instant}
    (hturn : u.turnOf? b.turn = some w) : ¬ w ≤ u.clock :=
  fun hle => absurd (Int.le_trans (hfirst b hb w hturn) hle) (Int.not_le.mpr hlater)

/-- Time leaves a row where it is only while the row rests or waits for its latest sweep. -/
theorem Stage.pass (h : r.Stage n js u)
    (hlatest : ∀ j, u.latest = some j → u.isGoing j = true → j ∈ js) :
    r.Stage n js (u.waitUntil t) := by
  have hclock : (u.waitUntil t).clock = t := waitUntil_clock (Int.le_of_lt hlater)
  have hturn {b : Activity} (hb : b ∈ u.activities) {w : Instant} (hw : u.turnOf? b.turn = some w) :
      ¬ w ≤ u.clock :=
    nobodys_turn hlater hfirst hb hw
  cases h with
  | commencing hb hid hbturn hphase hplan hsince hn =>
    refine absurd ?_ (hturn hb (congrArg u.turnOf? hbturn))
    show r.plan.start.micros ≤ u.clock.micros
    rw [since] at hsince
    omega
  | attempting hb hid hphase hbturn htime hstopping hsince hdue =>
    rcases hbturn with hbturn | hbturn
    · exact absurd htime (hturn hb (congrArg u.turnOf? hbturn))
    · exact absurd htime (hturn hb (hbturn ▸ turnOf?_unasked hstopping _))
  | stopped hb hid hphase hbturn hstopping hsince hmade =>
    exact absurd (Int.le_refl _) (hturn hb (hbturn ▸ turnOf?_asked hstopping _))
  | leaving hb hid hphase hbturn hstopping hsince hmade =>
    exact absurd (Int.le_refl _) (hturn hb (hbturn ▸ turnOf?_asked hstopping _))
  | @resting b hb hid hphase hbturn hstopping hle =>
    refine .resting hb hid hphase hbturn hstopping ?_
    have hbound : t.micros ≤ r.plan.start.micros + r.pause n :=
      hfirst b hb _ (hbturn ▸ turnOf?_unasked hstopping _)
    rw [since, hclock]
    omega
  | winding hb hid hphase hbturn hmade hover hend =>
    have hmicros : u.clock.micros < t.micros := hlater
    refine .winding hb hid hphase hbturn hmade ?_ (Or.inr ?_)
    · rw [since] at hover ⊢
      rw [hclock]
      omega
    · -- it waits for its latest sweep, which is one that it has begun
      cases hany : u.latest.toList.any u.isGoing with
      | false =>
        refine absurd (Int.le_refl _) (hturn hb (w := u.clock) ?_)
        rw [hbturn, turnOf?, if_neg (by rw [hany]; exact Bool.false_ne_true)]
      | true =>
        obtain ⟨j, hj, hgoing⟩ := List.any_eq_true.mp hany
        have hlast := Option.mem_toList.mp hj
        exact ⟨j, hlatest j hlast hgoing, hlast, Or.inl hgoing⟩
  | ended hmade hclosed => exact .ended hmade ⟨hclosed.gone, hclosed.sweeps, hclosed.ending⟩

/-- A sweep has looked at the guard before time passes. -/
theorem Sweeping.pass {j : Nat} (h : r.Sweeping n u j) : r.Sweeping n (u.waitUntil t) j := by
  cases h with
  | going hb hid hsweep hlatest hnew =>
    refine .going hb hid hsweep hlatest fun hseeks => ?_
    obtain ⟨_, w, hturn, htime⟩ := hnew hseeks
    exact absurd htime (nobodys_turn hlater hfirst hb (congrArg u.turnOf? hturn))
  | ended hgone he hid htime =>
    refine .ended hgone he hid (Int.le_trans htime ?_)
    rw [waitUntil_clock (Int.le_of_lt hlater)]
    exact Int.le_of_lt hlater

end

/-- Time passes a row no faster than the row goes on. -/
theorem Paces.pass (h : r.Paces acts u) {t : Instant} (hlater : u.clock ≤ t)
    (hfirst : ∀ a ∈ u.activities, ∀ v, u.turnOf? a.turn = some v → t ≤ v) :
    r.Paces acts (u.waitUntil t) := by
  by_cases hle : t ≤ u.clock
  · rw [waitUntil_of_le hle]
    exact h
  have hlt : u.clock < t := Int.not_le.mp hle
  have hclock : (u.waitUntil t).clock = t := waitUntil_clock hlater
  have hframes := h.frames
  refine ⟨⟨hframes.orderly.waitUntil t, hframes.watched.waitUntil t, hframes.known,
    hframes.row, hframes.stops⟩,
    h.stage.pass hlt hfirst fun j hj hgoing => ?_, fun n hn => ?_, h.made, fun j hj => ?_, h.latest⟩
  · rcases h.latest j hj with hmem | ⟨hgone, _⟩
    · exact hmem
    · cases hgone.symm.trans hgoing
  · have hmicros : u.clock.micros ≤ t.micros := hlater
    rw [since, hclock]
    rcases h.pending n hn with ⟨_, b, hb, hphase⟩ | ⟨hstopping, hasked⟩
    · obtain ⟨n', hn', hturn⟩ := hframes.stops b hb hphase
      obtain rfl := Option.some_inj.mp (hn.symm.trans hn')
      have hbound : t.micros ≤ r.plan.start.micros + n := hfirst b hb _ (congrArg u.turnOf? hturn)
      exact Or.inl ⟨by omega, b, hb, hphase⟩
    · rw [since] at hasked
      exact Or.inr ⟨hstopping, by omega⟩
  · obtain ⟨hafter, hknown, hswept⟩ := h.swept j hj
    exact ⟨hafter, hknown, hswept.pass hlt hfirst⟩

/-- Who arrives does not move a row. -/
theorem Stage.spawn (h : r.Stage n js u) (hknown : r.id < u.count)
    (hjs : ∀ j ∈ js, j < u.count) (turn : Turn) (phase : Phase) :
    r.Stage n js (u.spawn turn phase) := by
  have hstay {b : Activity} (hb : b ∈ u.activities) : b ∈ (u.spawn turn phase).activities :=
    List.mem_append_left _ hb
  cases h with
  | commencing hb hid hturn hphase hplan htime hn =>
    exact .commencing (hstay hb) hid hturn hphase hplan htime hn
  | attempting hb hid hphase hturn htime hstop htimes hdue =>
    exact .attempting (hstay hb) hid hphase hturn htime hstop htimes hdue
  | stopped hb hid hphase hturn hstop htimes hmade =>
    exact .stopped (hstay hb) hid hphase hturn hstop htimes hmade
  | resting hb hid hphase hturn hstop hle => exact .resting (hstay hb) hid hphase hturn hstop hle
  | leaving hb hid hphase hturn hstop htimes hmade =>
    exact .leaving (hstay hb) hid hphase hturn hstop htimes hmade
  | winding hb hid hphase hturn hmade hover hend =>
    refine .winding (hstay hb) hid hphase hturn hmade hover (hend.imp_right ?_)
    rintro ⟨j, hj, hlatest, hgoing | hended⟩
    · exact ⟨j, hj, hlatest, Or.inl ((isGoing_spawn turn phase (hjs j hj)).trans hgoing)⟩
    · exact ⟨j, hj, hlatest, Or.inr hended⟩
  | ended hmade hclosed =>
    exact .ended hmade ⟨(isGoing_spawn turn phase hknown).trans hclosed.gone,
      fun j hj => (isGoing_spawn turn phase (hjs j hj)).trans (hclosed.sweeps j hj), hclosed.ending⟩

theorem Sweeping.spawn {j : Nat} (h : r.Sweeping n u j) (hj : j < u.count) (turn : Turn)
    (phase : Phase) :
    r.Sweeping n (u.spawn turn phase) j := by
  cases h with
  | going hb hid hsweep hlatest hnew =>
    exact .going (List.mem_append_left _ hb) hid hsweep hlatest hnew
  | ended hgone he hid htime => exact .ended ((isGoing_spawn _ _ hj).trans hgone) he hid htime

theorem Frames.arrive (h : r.Frames u) (haside : phase.isAside = true) (turn : Turn) :
    r.Frames (u.spawn turn phase) := by
  obtain ⟨hrow, hstop⟩ := Phase.ne_row_of_isAside haside
  refine ⟨h.orderly.spawn _ _, h.watched.spawn (Phase.holdsGuard_of_isAside haside) _,
    Nat.lt_succ_of_lt h.known, fun b hb => ?_, fun b hb hbstop => ?_⟩
  · rcases List.mem_append.mp hb with hb | hb
    · exact h.row b hb
    · obtain rfl := List.mem_singleton.mp hb
      exact ⟨fun hb => (by cases hrow.symm.trans hb), fun hid => absurd hid (Nat.ne_of_gt h.known)⟩
  · rcases List.mem_append.mp hb with hb | hb
    · exact h.stops b hb hbstop
    · obtain rfl := List.mem_singleton.mp hb
      exact absurd hbstop hstop

/-- Whatever arrives beside a row, the row keeps its pace. -/
theorem Paces.arrive (h : r.Paces acts u) (haside : phase.isAside = true) (t : Instant) :
    r.Paces acts (u.spawn (.time t) phase) := by
  refine ⟨h.frames.arrive haside _,
    h.stage.spawn h.frames.known (fun j hj => (h.swept j hj).2.1) _ _, fun n hn => ?_,
    h.made, fun j hj => ?_, fun j hj => ?_⟩
  · exact (h.pending n hn).imp_left fun ⟨hle, b, hb, hphase⟩ =>
      ⟨hle, b, List.mem_append_left _ hb, hphase⟩
  · obtain ⟨hafter, hold, hswept⟩ := h.swept j hj
    exact ⟨hafter, Nat.lt_succ_of_lt hold, hswept.spawn hold _ _⟩
  · exact (h.latest j hj).imp_right fun ⟨hgone, hold⟩ =>
      ⟨(isGoing_spawn _ _ hold).trans hgone, Nat.lt_succ_of_lt hold⟩

/-- **A row keeps its pace in every exact course.** -/
theorem Paces.unfolds {s : Engine} (h : s.Unfolds acts u) (hr : r.IsProper)
    (hs : r.Paces [] s) : r.Paces acts u := by
  induction h with
  | refl => exact hs
  | act _ hgoing hturn htime ih => exact ih.step hr hgoing hturn htime
  | pass _ hlater hfirst ih => exact ih.pass hlater hfirst
  | arrive _ haside t ih => exact ih.arrive haside t

/-- The attempts whose time has gone by have been made. -/
theorem Paces.caught_up (h : r.Paces acts u) {k : Nat} (hdue : (k : Int) * r.plan.interval < r.span)
    (hpast : (k : Int) * r.plan.interval < r.since u) : k < (attempts r.id acts).length := by
  have hbound (hle : r.since u ≤ (attempts r.id acts).length * r.plan.interval) :
      k < (attempts r.id acts).length := by
    have hlt : (k : Int) * r.plan.interval < (attempts r.id acts).length *
        r.plan.interval := by omega
    exact_mod_cast Int.lt_of_mul_lt_mul_right hlt (Int.natCast_nonneg _)
  cases h.stage with
  | commencing hb hid hturn hphase hplan hsince hn =>
    refine hbound ?_
    rw [hsince]
    exact Int.mul_nonneg (Int.natCast_nonneg _) (Int.natCast_nonneg _)
  | attempting hb hid hphase hturn htime hstopping hsince hnext =>
    exact hbound (Int.le_of_eq hsince)
  | resting hb hid hphase hturn hstopping hle => exact hbound (Int.le_trans hle (r.pause_le _))
  | stopped hb hid hphase hturn hstopping hsince hmade => exact hmade k hdue
  | leaving hb hid hphase hturn hstopping hsince hmade => exact hmade k hdue
  | winding hb hid hphase hturn hmade hover hend => exact hmade k hdue
  | ended hmade hclosed => exact hmade k hdue

/-- When a row has ended, it has made all its attempts, and it ended in time. -/
theorem Paces.closed (h : r.Paces acts u) (hgone : u.isGoing r.id = false) :
    r.Made (attempts r.id acts).length ∧ r.Closed (sweeps r.id acts) u := by
  rw [isGoing_eq_false] at hgone
  cases h.stage with
  | commencing hb hid => exact absurd hid (hgone _ hb)
  | attempting hb hid => exact absurd hid (hgone _ hb)
  | stopped hb hid => exact absurd hid (hgone _ hb)
  | resting hb hid => exact absurd hid (hgone _ hb)
  | leaving hb hid => exact absurd hid (hgone _ hb)
  | winding hb hid => exact absurd hid (hgone _ hb)
  | ended hmade hclosed => exact ⟨hmade, hclosed⟩

end Row

end Cadence
