/-
A row of sweeps keeps its time.

A row attempts a sweep at its start and after each interval, as long as its lifespan lasts
and until it is asked to end.  A sweep that is in flight then makes it skip the attempt, and
nothing else does: what the sweeps do and how long they take shifts nothing.  The row ends
when its time is over and its sweeps have ended.

* `Engine.Rowless`, `Engine.launch` — before a row, and how it begins;
* `Plan.span?` — after how long its time is over;
* `Row.Punctual` — what it is to keep the time;
* `Engine.row_keeps_time` — every row does, and it ends.
-/
import Cadence.Proofs.Scheduler.Shutdown

namespace Cadence

open Calendar

/-! ### Before a row -/

namespace Engine

variable {s u : Engine} {a b : Activity} {acts : List (Engine × Activity)}

/-- No row of sweeps goes on or is to be asked to end, and the latest sweep of an earlier
row has ended. -/
structure Rowless (s : Engine) : Prop where
  orderly : s.IsOrderly
  watched : s.Watched
  row : ∀ a ∈ s.activities, a.phase.isRow = false
  stops : ∀ a ∈ s.activities, a.phase ≠ .stop
  latest : ∀ j, s.latest = some j → s.isGoing j = false ∧ j < s.count

theorem Rowless.start (world : Surroundings) (store : Store) (interpret : Interpreter) :
    (Engine.start world store interpret).Rowless where
  orderly := ⟨List.nodup_nil, fun _ hb => (by cases hb)⟩
  watched := ⟨start_held _ _ _, fun _ _ hb => (by cases hb), fun _ hb => (by cases hb)⟩
  row _ hb := by cases hb
  stops _ hb := by cases hb
  latest _ hj := by cases hj

/-- An engine stays without a row until one begins. -/
theorem Rowless.unfolds (hs : s.Rowless) (h : s.Unfolds acts u) : u.Rowless := by
  induction h with
  | refl => exact hs
  | @act acts u h a t ha hturn htime ih =>
    obtain ⟨m, hm, hbecomes⟩ := step_moves ih.orderly ha
    have hkinds : ∀ b ∈ (u.step a).activities, b.phase.isRow = false ∧ b.phase ≠ .stop := by
      intro b hb
      cases hbecomes.going b hb with
      | stays hgoing hother => exact ⟨ih.row b hgoing, ih.stops b hgoing⟩
      | moves hfate hid =>
        exact ⟨(hm.onward hfate).isRow.trans (ih.row a ha), (hm.onward hfate).ne_stop⟩
      | begins hbegun hid hturn => exact (hm.begins hbegun).ne_row
    refine ⟨hbecomes.orderly, ih.watched.step ih.orderly ha, fun b hb => (hkinds b hb).1,
      fun b hb => (hkinds b hb).2, fun j hj => ?_⟩
    obtain ⟨hlatest, _⟩ := Prod.mk.inj (u.step_flags (ih.row a ha) (ih.stops a ha))
    obtain ⟨hgone, hknown⟩ := ih.latest j (hlatest.symm.trans hj)
    have hcount : u.count ≤ (u.step a).count := Nat.le_trans (Nat.le_add_right _ _) hbecomes.count
    exact ⟨hbecomes.gone ha hgone hknown, Nat.lt_of_lt_of_le hknown hcount⟩
  | pass _ hlater hfirst ih =>
    exact ⟨ih.orderly.waitUntil _, ih.watched.waitUntil _, ih.row, ih.stops, ih.latest⟩
  | @arrive acts u h phase haside t ih =>
    have hkinds : ∀ b ∈ (u.spawn (.time t) phase).activities, b.phase.isRow = false ∧
        b.phase ≠ .stop := by
      intro b hb
      rcases List.mem_append.mp hb with hb | hb
      · exact ⟨ih.row b hb, ih.stops b hb⟩
      · obtain rfl := List.mem_singleton.mp hb
        exact Phase.ne_row_of_isAside haside
    refine ⟨ih.orderly.spawn _ _, ih.watched.spawn (Phase.holdsGuard_of_isAside haside) _,
      fun b hb => (hkinds b hb).1, fun b hb => (hkinds b hb).2, fun j hj => ?_⟩
    obtain ⟨hgone, hknown⟩ := ih.latest j hj
    exact ⟨(isGoing_spawn _ _ hknown).trans hgone, Nat.lt_succ_of_lt hknown⟩

/-- Begins a row of sweeps, and has somebody ask it to end after some microseconds. -/
def launch (s : Engine) (plan : Plan) : Option Nat → Engine
  | none => s.spawnNow (.commence plan)
  | some n => (s.spawnNow (.commence plan)).spawn (.time (s.clock.after n)) .stop

theorem launch_clock (s : Engine) (plan : Plan) (stop : Option Nat) :
    (s.launch plan stop).clock = s.clock := by
  cases stop <;> rfl

theorem launch_latest (s : Engine) (plan : Plan) (stop : Option Nat) :
    (s.launch plan stop).latest = s.latest := by
  cases stop <;> rfl

theorem mem_launch {plan : Plan} {stop : Option Nat} : b ∈ (s.launch plan stop).activities ↔
    b ∈ s.activities ∨ b = ⟨s.count, .time s.clock, s.count, .commence plan⟩ ∨
      ∃ n, stop = some n ∧ b = ⟨s.count + 1, .time (s.clock.after n), s.count + 1, .stop⟩ := by
  cases stop with
  | none => simp [launch, spawnNow, spawn]
  | some n => simp [launch, spawnNow, spawn]

end Engine

/-! ### The time of a row -/

/-- After how long the time of a row is over, if it ever is: when its lifespan is over or
when it is asked to end, whichever comes first. -/
def Plan.span? (p : Plan) (stop : Option Nat) : Option Int :=
  match p.lifespan, stop with
  | none, none => none
  | some l, none => some l
  | none, some n => some n
  | some l, some n => some (min l n)

theorem Plan.span?_spec {p : Plan} {stop : Option Nat} {span : Int} (h : p.span? stop = some span) :
    (∀ l, p.lifespan = some l → span ≤ l) ∧ (∀ n : Nat, stop = some n → span ≤ n) ∧
      (p.lifespan = some span ∨ ∃ n : Nat, stop = some n ∧ span = n) := by
  unfold Plan.span? at h
  split at h
  · cases h
  · next l hl =>
    obtain rfl := Option.some_inj.mp h
    refine ⟨fun m hm => ?_, fun m hm => (by cases hm), Or.inl hl⟩
    exact Int.le_of_eq (Option.some_inj.mp (hl.symm.trans hm))
  · next n hl =>
    obtain rfl := Option.some_inj.mp h
    refine ⟨fun m hm => (by cases hl.symm.trans hm), fun m hm => ?_, Or.inr ⟨n, rfl, rfl⟩⟩
    rw [Option.some_inj.mp hm]
  · next l n hl =>
    obtain rfl := Option.some_inj.mp h
    refine ⟨fun m hm => ?_, fun m hm => ?_, ?_⟩
    · rw [← Option.some_inj.mp (hl.symm.trans hm)]
      exact Int.min_le_left _ _
    · rw [← Option.some_inj.mp hm]
      exact Int.min_le_right _ _
    · rcases Int.le_total l n with hle | hle
      · exact Or.inl (hl.trans (congrArg some (Int.min_eq_left hle).symm))
      · exact Or.inr ⟨n, rfl, Int.min_eq_right hle⟩

/-- The row that begins with a plan. -/
def Engine.row (s : Engine) (plan : Plan) (stop : Option Nat) (span : Int) : Row :=
  ⟨s.count, { plan with start := s.clock }, stop, span⟩

namespace Row

open Engine

variable {r : Row} {s u : Engine} {a b : Activity} {acts : List (Engine × Activity)}
  {plan : Plan} {stop : Option Nat} {span : Int}

theorem isProper_row (s : Engine) (hinterval : 0 < plan.interval)
    (hlifespan : ∀ l, plan.lifespan = some l → 0 < l)
    (hstop : ∀ n, stop = some n → ¬ plan.interval ∣ n) (hspan : plan.span? stop = some span) :
    (s.row plan stop span).IsProper := by
  obtain ⟨hlife, hasked, hfirst⟩ := Plan.span?_spec hspan
  refine ⟨hinterval, ?_, hlife, hasked, hfirst, hstop⟩
  rcases hfirst with hl | ⟨n, hn, rfl⟩
  · exact hlifespan span hl
  · -- a row is not asked to end at its first attempt
    refine Int.natCast_pos.mpr (Nat.pos_of_ne_zero fun hzero => hstop n hn ?_)
    rw [hzero]
    exact Nat.dvd_zero _

/-- A row begins in step. -/
theorem paces_launch (hs : s.Rowless) (hr : (s.row plan stop span).IsProper) :
    (s.row plan stop span).Paces [] (s.launch plan stop) := by
  have hsince : (s.row plan stop span).since (s.launch plan stop) = 0 := by
    rw [since, launch_clock]
    exact Int.sub_self _
  have hcommence : ⟨s.count, .time s.clock, s.count, .commence plan⟩ ∈
      (s.launch plan stop).activities :=
    mem_launch.mpr (Or.inr (Or.inl rfl))
  have horderly : (s.launch plan stop).IsOrderly := by
    cases stop with
    | none => exact hs.orderly.spawn _ _
    | some n => exact (hs.orderly.spawn _ _).spawn _ _
  have hwatched : (s.launch plan stop).Watched := by
    cases stop with
    | none => exact hs.watched.spawn rfl _
    | some n => exact (hs.watched.spawn rfl _).spawn rfl _
  have hcount : s.count < (s.launch plan stop).count := horderly.id_lt _ hcommence
  have hgone {j : Nat} (hj : j < s.count) (hgone : s.isGoing j = false) :
      (s.launch plan stop).isGoing j = false := by
    rw [isGoing_eq_false] at hgone ⊢
    intro b hb
    rcases mem_launch.mp hb with hb | rfl | ⟨n, _, rfl⟩
    · exact hgone b hb
    · exact Nat.ne_of_gt hj
    · exact Nat.ne_of_gt (Nat.lt_succ_of_lt hj)
  refine ⟨⟨horderly, hwatched, hcount, fun b hb => ?_, fun b hb hbstop => ?_⟩,
    .commencing hcommence rfl rfl rfl rfl hsince rfl, fun n hn => ?_, fun k x hx => (by cases hx),
    fun j hj => (by cases hj), fun j hj => ?_⟩
  · rcases mem_launch.mp hb with hb | rfl | ⟨n, _, rfl⟩
    · have hlt := hs.orderly.id_lt b hb
      exact ⟨fun hrow => (by cases (hs.row b hb).symm.trans hrow),
        fun hid => absurd hid (Nat.ne_of_lt hlt)⟩
    · exact ⟨fun _ => rfl, fun _ => rfl⟩
    · exact ⟨fun hrow => (by cases hrow), fun hid => absurd hid (Nat.succ_ne_self _)⟩
  · rcases mem_launch.mp hb with hb | rfl | ⟨n, hn, rfl⟩
    · exact absurd hbstop (hs.stops b hb)
    · cases hbstop
    · exact ⟨n, hn, rfl⟩
  · refine Or.inl ⟨?_, _, mem_launch.mpr (Or.inr (Or.inr ⟨n, hn, rfl⟩)), rfl⟩
    rw [hsince]
    exact Int.natCast_nonneg n
  · rw [launch_latest] at hj
    obtain ⟨hover, hknown⟩ := hs.latest j hj
    exact Or.inr ⟨hgone hknown hover, Nat.lt_trans hknown hcount⟩

end Row

/-! ### A row keeps its time -/

namespace Engine

variable {u : Engine} {a : Activity}

/-- A row begins nobody but in an attempt. -/
theorem begun_of_row (hs : u.IsOrderly) (hrow : a.phase.isRow = true)
    (hno : (a.phase.isAttempt && !u.stopping) = false) : begun (u, a) = [] := by
  have hids : ∀ j ∈ (u.step a).activities.map (·.id), j ∈ u.activities.map (·.id) := by
    intro j hj
    unfold step at hj
    cases hphase : a.phase with
    | commence p =>
      rw [hphase] at hj
      simp only at hj
      rwa [ids_enter] at hj
    | attempt p =>
      rw [hphase] at hj hno
      have hstopping : u.stopping = true := by simpa [Phase.isAttempt] using hno
      simp only [attempt, if_pos hstopping, wind] at hj
      rwa [ids_wait] at hj
    | rest p =>
      rw [hphase] at hj
      simp only [rested, wind] at hj
      split at hj
      · rwa [ids_wait] at hj
      · rwa [ids_enter] at hj
    | wind =>
      rw [hphase] at hj
      exact (List.filter_sublist.map _).subset hj
    | _ => rw [hphase] at hrow; cases hrow
  refine List.filter_eq_nil_iff.mpr fun j hj => ?_
  obtain ⟨b, hb, rfl⟩ := List.mem_map.mp (hids j hj)
  simpa using hs.id_lt b hb

end Engine

namespace Row

open Engine

variable {r : Row} {s u : Engine} {a b : Activity} {acts : List (Engine × Activity)}
  {plan : Plan} {stop : Option Nat} {span : Int}

/-- A row has kept its time so far. -/
structure Punctual (r : Row) (acts : List (Engine × Activity)) (u : Engine) : Prop where
  /-- Its attempts are made at their times, and each begins a sweep unless one is in flight. -/
  fits : ∀ k x, (attempts r.id acts)[k]? = some x →
    r.Fits k (((attempts r.id acts).take k).flatMap begun) x
  /-- It has made each attempt whose time has gone by. -/
  caughtUp : ∀ k : Nat, (k : Int) * r.plan.interval < r.span →
    (k : Int) * r.plan.interval < r.since u → k < (attempts r.id acts).length
  /-- It has begun nobody but in an attempt. -/
  only : ∀ x ∈ acts, x.2.id = r.id → begun x ≠ [] → x ∈ attempts r.id acts
  /-- It has ended if its time was over and its sweeps had ended some time ago. -/
  gone : r.span < r.since u →
    (∀ j ∈ sweeps r.id acts, u.isGoing j = false ∧ ∀ e ∈ u.endings, e.id = j → e.time < u.clock) →
    u.isGoing r.id = false
  /-- If it has ended, it has made all its attempts, and it ended when it was to. -/
  closed : u.isGoing r.id = false → r.Made (attempts r.id acts).length ∧
    r.Closed (sweeps r.id acts) u

/-- A row ends as soon as its time is over and its sweeps have ended. -/
theorem Paces.gone (h : r.Paces acts u) (hr : r.IsProper) (hover : r.span < r.since u)
    (hsweeps : ∀ j ∈ sweeps r.id acts, u.isGoing j = false ∧ ∀ e ∈ u.endings, e.id = j →
      e.time < u.clock) :
    u.isGoing r.id = false := by
  have hpos := hr.positive
  cases h.stage with
  | commencing hb hid hturn hphase hplan hsince => omega
  | attempting hb hid hphase hturn htime hstopping hsince hdue => omega
  | stopped hb hid hphase hturn hstopping hsince => omega
  | leaving hb hid hphase hturn hstopping hsince => omega
  | ended hmade hclosed => exact hclosed.gone
  | resting hb hid hphase hturn hstopping hle =>
    -- its pause is over at the latest when its time is
    rcases hr.first with hlife | ⟨q, hq, hspan⟩
    · rw [pause, hlife] at hle
      simp only at hle
      omega
    · have hle' := h.before hstopping hq
      omega
  | winding hb hid hphase hturn hmade hpast hend =>
    -- its latest sweep went on or had just ended
    rcases hend with hsince | ⟨j, hj, _, hgoing | ⟨e, he, heid, htime⟩⟩
    · omega
    · cases (hsweeps j hj).1.symm.trans hgoing
    · exact absurd (congrArg Instant.micros htime) (Int.ne_of_lt ((hsweeps j hj).2 e he heid))

theorem only_attempts (h : s.Unfolds acts u) (hr : r.IsProper) (hs : r.Paces [] s) :
    ∀ x ∈ acts, x.2.id = r.id → begun x ≠ [] → x ∈ attempts r.id acts := by
  induction h with
  | refl => exact fun x hx => (by cases hx)
  | pass _ _ _ ih => exact ih
  | arrive _ _ _ ih => exact ih
  | @act acts u h a t ha hturn htime ih =>
    intro x hx hid hbegun
    rcases List.mem_append.mp hx with hx | hx
    · rw [attempts_append]
      exact List.mem_append_left _ (ih x hx hid hbegun)
    · obtain rfl := List.mem_singleton.mp hx
      have hframes := (Paces.unfolds h hr hs).frames
      have hattempt : (a.phase.isAttempt && !u.stopping) = true := by
        rw [← Bool.not_eq_false]
        exact fun hno => hbegun (begun_of_row hframes.orderly ((hframes.row a ha).mpr hid) hno)
      rw [attempts_of_attempt acts hid hattempt]
      exact List.mem_append_right _ List.mem_cons_self

theorem Paces.punctual (hs : r.Paces [] s) (hr : r.IsProper) (h : s.Unfolds acts u) :
    r.Punctual acts u where
  fits := (Paces.unfolds h hr hs).made
  caughtUp _ hdue hpast := (Paces.unfolds h hr hs).caught_up hdue hpast
  only := only_attempts h hr hs
  gone hover hsweeps := (Paces.unfolds h hr hs).gone hr hover hsweeps
  closed hgone := (Paces.unfolds h hr hs).closed hgone

end Row

namespace Engine

variable {s u : Engine} {a b : Activity} {plan : Plan} {stop : Option Nat} {span : Int}

theorem Descends.launch (h : s.Descends) : (s.launch plan stop).DescendsBeside where
  kinds b hb := by
    rcases mem_launch.mp hb with hb | rfl | ⟨n, _, rfl⟩
    · exact Or.inr (Or.inr (h.ofSweep b hb))
    · exact Or.inl rfl
    · exact Or.inr (Or.inl rfl)
  turns b hb hrow := by
    rcases mem_launch.mp hb with hb | rfl | ⟨n, _, rfl⟩
    · exact h.turns b hb
    · cases hrow
    · exact Or.inl ⟨_, rfl⟩

/-- **A row of sweeps keeps its time.**  Let a row begin with any interval and any lifespan,
or none, to be asked to end some time later, or never, but not at the time of an attempt,
and let requests, runs and sweeps go on and arrive beside it.  Whatever they do and however
long they take, in every exact course the `k`-th attempt is made `k` intervals after the
start, for just those `k` for which this is in the time of the row.  An attempt begins a
sweep unless one is in flight; then it begins nothing, and nothing is begun for it later.
When the row has ended, its sweeps have ended, and it ended when its time was over or, if
one of its sweeps took longer, together with the last one.  And if nothing but sweeps and
runs goes on when the row begins, then by itself the engine comes to the end of the row. -/
theorem row_keeps_time (hs : s.Rowless) (hinterval : 0 < plan.interval)
    (hlifespan : ∀ l, plan.lifespan = some l → 0 < l)
    (hstop : ∀ n, stop = some n → ¬ plan.interval ∣ n) (hspan : plan.span? stop = some span) :
    (∀ acts u, (s.launch plan stop).Unfolds acts u → (s.row plan stop span).Punctual acts u) ∧
      (s.Descends → ∃ fuel acts, (s.launch plan stop).Unfolds acts
        ((s.launch plan stop).runFor [s.count] fuel) ∧
        ((s.launch plan stop).runFor [s.count] fuel).isGoing s.count = false) := by
  have hr := Row.isProper_row s hinterval hlifespan hstop hspan
  have hpaces := Row.paces_launch hs hr
  refine ⟨fun acts u h => hpaces.punctual hr h, fun hdescends => ?_⟩
  obtain ⟨fuel, hgone⟩ := hpaces.runFor_ends hr .refl hdescends.launch
  obtain ⟨acts, hacts⟩ := runFor_unfolds (s.launch plan stop) [s.count] fuel
  exact ⟨fuel, acts, hacts, hgone⟩

/-- A sweep that takes longer than the time between two attempts: the row attempts three
sweeps, of which it skips the second one, and it ends when the third one has ended. -/
theorem row_keeps_time_slowSweep :
    let noon : Instant := ⟨63871329600000000⟩
    let slow : Flow := ⟨"a", "* * * * *", true, [.delay "100s"]⟩
    let start : Engine := .start (.start noon (fun _ _ => ⟨0, .ok default⟩) fun _ => "run")
      (.memory (.empty (2 : Nat)))
      (interpreter default)
    let s := (start.spawn (.time noon) (.request (.create slow))).runFor [0] 10
    let plan : Plan := ⟨60000000, none, noon, .none⟩
    let u := (s.launch plan (some 170000000)).runFor [s.count] 40
    (∃ acts, (s.launch plan (some 170000000)).Unfolds acts u ∧ (attempts s.count acts).length = 3 ∧
      (s.row plan (some 170000000) 170000000).Closed (sweeps s.count acts) u) ∧
    (u.ended? s.count).map (·.time) = some (noon.after 220000000) ∧
    ∃ fuel, ((s.launch plan (some 170000000)).runFor [s.count] fuel).isGoing s.count = false := by
  intro noon slow start s plan u
  have hbegun : start.Unfolds [] (start.spawn (.time noon) (.request (.create slow))) :=
    .arrive .refl rfl noon
  obtain ⟨acts, hacts⟩ := runFor_unfolds (start.spawn (.time noon) (.request (.create slow))) [0] 10
  have hs : s.Rowless := (Rowless.start _ _ _).unfolds (hbegun.trans hacts)
  have hidle : s.activities = [] := List.eq_nil_of_length_eq_zero (by decide +kernel)
  have hdescends : s.Descends :=
    ⟨hs.orderly, fun a ha => (by rw [hidle] at ha; cases ha),
      fun a ha => (by rw [hidle] at ha; cases ha)⟩
  have hspan : plan.span? (some 170000000) = some 170000000 := rfl
  obtain ⟨hpunctual, hends⟩ := row_keeps_time hs (by decide) (fun l hl => by cases hl)
    (fun n hn => by cases hn; decide)
    hspan
  obtain ⟨fuel, _, _, hgone⟩ := hends hdescends
  obtain ⟨acts, hacts⟩ := runFor_unfolds (s.launch plan (some 170000000)) [s.count] 40
  have hrow := hpunctual acts u hacts
  obtain ⟨hmade, hclosed⟩ := hrow.closed (by decide +kernel)
  refine ⟨⟨acts, hacts, Nat.le_antisymm ?_ (hmade 2 (by decide)), hclosed⟩, by
    decide +kernel, fuel, hgone⟩
  -- a fourth attempt would have been made after the row was asked to end
  refine Nat.le_of_not_lt fun hlt => ?_
  have hdue := (hrow.fits 3 _ (List.getElem?_eq_getElem hlt)).due
  exact absurd hdue (by decide)

end Engine

end Cadence
