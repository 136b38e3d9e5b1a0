/-
A row of sweeps comes to its end.

A row makes only so many attempts, and each attempt begins at most one sweep, which has an
end.  So if nothing but a row, sweeps and their runs goes on, each step leaves less to do,
and as long as the row goes on it is somebody's turn.

* `Engine.DescendsBeside` — the invariant beside a row;
* `Engine.Leads`, `Row.left` — what a row goes on to, and how much it has left to do;
* `Row.Paces.tasks_step` — each step leaves less to do;
* `Row.Paces.runFor_ends` — a row comes to its end by itself.
-/
import Cadence.Proofs.Scheduler.Pace
import Cadence.Proofs.Scheduler.Termination

namespace Cadence

open Calendar Relation

/-! ### Beside a row -/

namespace Engine

variable {s u : Engine} {a b : Activity} {m : Move} {turn : Turn} {phase : Phase}
  {acts : List (Engine × Activity)}

/-- Beside rows only sweeps, their runs and those who ask a row to end go on, and each of
them waits for an instant or for others that began after it. -/
structure DescendsBeside (s : Engine) : Prop where
  kinds : ∀ a ∈ s.activities, a.phase.isRow = true ∨ a.phase = .stop ∨ a.phase.isOfSweep = true
  turns : ∀ a ∈ s.activities, a.phase.isRow = false →
    (∃ t, a.turn = .time t) ∨ ∃ others, a.turn = .after others ∧ ∀ j ∈ others, a.id < j

/-- Who asks a row to end does not go on. -/
theorem Onward.source_ne_stop (h : s.Onward a turn phase) : a.phase ≠ .stop := by
  intro hstop
  cases h <;> simp_all [Phase.isRow]

/-- Who asks a row to end begins nothing. -/
theorem Begins.source_ne_stop (h : s.Begins a phase) : a.phase ≠ .stop := by
  intro hstop
  cases h <;> simp_all [Phase.isRow]

theorem Begins.isOfSweep (h : s.Begins a phase) : phase.isOfSweep = true := by
  cases h with
  | sweep outages hrow => rfl
  | run hphase =>
    unfold runPhase
    split <;> rfl

/-- Who is neither a row nor asks one to end is a sweep or a run. -/
theorem DescendsBeside.isOfSweep (h : s.DescendsBeside) (ha : a ∈ s.activities)
    (hrow : a.phase.isRow = false) (hstop : a.phase ≠ .stop) :
    a.phase.isOfSweep = true := by
  rcases h.kinds a ha with hisrow | hisstop | hsweep
  · cases hrow.symm.trans hisrow
  · exact absurd hisstop hstop
  · exact hsweep

theorem DescendsBeside.waitUntil (h : s.DescendsBeside) (t : Instant) :
    (s.waitUntil t).DescendsBeside :=
  ⟨h.kinds, h.turns⟩

/-- **Whatever is done in a row or beside it, it stays like that.** -/
theorem DescendsBeside.step (h : s.DescendsBeside) (hs : s.IsOrderly) (ha : a ∈ s.activities) :
    (s.step a).DescendsBeside := by
  obtain ⟨m, hm, hbecomes⟩ := step_moves hs ha
  refine ⟨fun b hb => ?_, fun b hb hrow => ?_⟩
  · cases hbecomes.going b hb with
    | stays hgoing hother => exact h.kinds b hgoing
    | moves hfate hid =>
      have honward := hm.onward hfate
      rcases h.kinds a ha with hrow | hstop | hsweep
      · exact Or.inl (honward.isRow.trans hrow)
      · exact absurd hstop honward.source_ne_stop
      · exact Or.inr (Or.inr (honward.after hsweep).2)
    | begins hbegun hid hturn => exact Or.inr (Or.inr (hm.begins hbegun).isOfSweep)
  · cases hbecomes.going b hb with
    | stays hgoing hother => exact h.turns b hgoing hrow
    | moves hfate hid =>
      have honward := hm.onward hfate
      have hself : a.phase.isRow = false := honward.isRow.symm.trans hrow
      have hsweep := h.isOfSweep ha hself honward.source_ne_stop
      exact hid ▸ hm.waits_for hsweep (hs.id_lt a ha) (h.turns a ha hself) hfate
    | begins hbegun hid hturn => exact Or.inl ⟨_, hturn⟩

/-- What a row goes on to: it begins with an attempt, rests after each one, and attempts
again after each rest, until it goes over to its end. -/
inductive Leads (stopping : Bool) : Phase → Phase → Prop where
  | begins (p q : Plan) : Leads stopping (.commence p) (.attempt q)
  | rests (p : Plan) (h : stopping = false) : Leads stopping (.attempt p) (.rest p)
  | attempts (p : Plan) : Leads stopping (.rest p) (.attempt p)
  | leaves (p : Plan) : Leads stopping (.rest p) .wind
  | stops (p : Plan) : Leads stopping (.attempt p) .wind

theorem step_leads (hrow : a.phase.isRow = true) (hb : b ∈ (s.step a).activities)
    (hid : b.id = a.id) :
    Leads s.stopping a.phase b.phase := by
  unfold step at hb
  cases hphase : a.phase with
  | commence p =>
    rw [hphase] at hb
    rw [phase_enter hb hid]
    exact .begins p _
  | attempt p =>
    rw [hphase] at hb
    simp only [Engine.attempt] at hb
    split at hb
    · rw [phase_wait hb hid]
      exact .stops p
    · next hstopping =>
      rw [Bool.not_eq_true] at hstopping
      split at hb
      · rw [phase_wait hb hid]
        exact .rests p hstopping
      · split at hb
        · rw [phase_wait hb hid]
          exact .stops p
        · rw [phase_wait hb hid]
          exact .rests p hstopping
  | rest p =>
    rw [hphase] at hb
    simp only [rested] at hb
    split at hb
    · rw [phase_wait hb hid]
      exact .leaves p
    · rw [phase_enter hb hid]
      exact .attempts p
  | wind =>
    rw [hphase] at hb
    exact absurd hid (by simpa using (List.mem_filter.mp hb).2)
  | _ => rw [hphase] at hrow; cases hrow

end Engine

namespace Row

open Engine

variable {r : Row} {s u : Engine} {a b : Activity} {acts : List (Engine × Activity)}

/-- How much a row that has made so many attempts has left to do itself; others have nothing
left to do in it. -/
def left (r : Row) (n : Nat) : Phase → Nat
  | .commence _ | .rest _ => 2 * (r.span.toNat - n) + 3
  | .attempt _ => 2 * (r.span.toNat - n) + 2
  | .wind => 1
  | _ => 0

theorem left_of_not_row {phase : Phase} (h : phase.isRow = false) (n : Nat) :
    r.left n phase = 0 := by
  cases phase with
  | commence => cases h
  | attempt => cases h
  | rest => cases h
  | wind => cases h
  | _ => rfl

/-- Whatever a row does, it has less left to do. -/
theorem Paces.left_step (h : r.Paces acts u) (hr : r.IsProper)
    (h' : r.Paces (acts ++ [(u, a)]) (u.step a)) (ha : a ∈ u.activities)
    (hrow : a.phase.isRow = true) (hb : b ∈ (u.step a).activities) (hid : b.id = a.id) :
    r.left (attempts r.id (acts ++ [(u, a)])).length b.phase <
      r.left (attempts r.id acts).length a.phase := by
  have hmono : (attempts r.id acts).length ≤ (attempts r.id (acts ++ [(u, a)])).length := by
    rw [attempts_append, List.length_append]
    exact Nat.le_add_right _ _
  have hleads := step_leads hrow hb hid
  generalize hphase : a.phase = phase at hleads
  generalize b.phase = phase' at hleads
  cases hleads with
  | begins p q => simp only [left]; omega
  | attempts p => simp only [left]; omega
  | leaves p => simp only [left]; omega
  | stops p => simp only [left]; omega
  | rests p hstopping =>
    -- the attempt has been made in the time of the row
    have hattempts : attempts r.id (acts ++ [(u, a)]) = attempts r.id acts ++ [(u, a)] := by
      refine attempts_of_attempt acts ((h.frames.row a ha).mp hrow) ?_
      rw [hphase, hstopping]
      rfl
    have hdue := (h'.made (attempts r.id acts).length (u, a) (by rw [hattempts]; simp)).due
    have hlt : ((attempts r.id acts).length : Int) * 1 ≤ (attempts r.id acts).length *
        r.plan.interval :=
      Int.mul_le_mul_of_nonneg_left (by have := hr.interval; omega) (Int.natCast_nonneg _)
    rw [hattempts, List.length_append, List.length_singleton]
    simp only [left]
    omega

/-- What is left to do in a row and beside it. -/
def tasks (r : Row) (acts : List (Engine × Activity)) (u : Engine) : Multiset (Nat × Phase) :=
  (u.activities.map fun b => (r.left (attempts r.id acts).length b.phase, b.phase) :
    List (Nat × Phase))

/-- **Each step leaves less to do, in a row and beside it.** -/
theorem Paces.tasks_step (h : r.Paces acts u) (hr : r.IsProper)
    (h' : r.Paces (acts ++ [(u, a)]) (u.step a)) (hd : u.DescendsBeside)
    (ha : a ∈ u.activities) :
    CutExpand (Prod.Lex (· < ·) Phase.After) (r.tasks (acts ++ [(u, a)]) (u.step a))
      (r.tasks acts u) := by
  refine cutExpand_step (f := fun phase => (r.left (attempts r.id acts).length phase, phase))
    (g := fun phase => (r.left (attempts r.id (acts ++ [(u, a)])).length phase, phase))
      h.frames.orderly ha
    (fun b hb hother => ?_) fun b hb hkind => ?_
  · -- others have nothing to do in the row, or nothing was attempted
    cases hrow : b.phase.isRow with
    | false => rw [left_of_not_row hrow, left_of_not_row hrow]
    | true =>
      have hid : a.id ≠ r.id := fun hid => hother (((h.frames.row b hb).mp hrow).trans hid.symm)
      rw [attempts_of_ne acts hid]
  · cases hrow : a.phase.isRow with
    | true =>
      -- a row comes closer to its end, and the sweep that it begins is no row
      have hid := (h.frames.row a ha).mp hrow
      refine Prod.Lex.left _ _ ?_
      rcases hkind with ⟨turn, honward⟩ | hbegins
      · have hself := (h'.frames.row b hb).mp (honward.isRow.trans hrow)
        exact h.left_step hr h' ha hrow hb (hself.trans hid.symm)
      · rw [left_of_not_row hbegins.ne_row.1]
        cases hphase : a.phase with
        | commence p => exact Nat.succ_pos _
        | attempt p => exact Nat.succ_pos _
        | rest p => exact Nat.succ_pos _
        | wind => exact Nat.succ_pos _
        | _ => rw [hphase] at hrow; cases hrow
    | false =>
      rcases hkind with ⟨turn, honward⟩ | hbegins
      · have hsweep := hd.isOfSweep ha hrow honward.source_ne_stop
        rw [left_of_not_row (honward.isRow.trans hrow), left_of_not_row hrow]
        exact Prod.Lex.right _ (honward.after hsweep).1
      · have hsweep := hd.isOfSweep ha hrow hbegins.source_ne_stop
        rw [left_of_not_row hbegins.ne_row.1, left_of_not_row hrow]
        exact Prod.Lex.right _ (hbegins.after hsweep).1

/-- A row that waits, waits for an instant or for a sweep that it has begun. -/
theorem Paces.turn_or_later (h : r.Paces acts u) (ha : a ∈ u.activities)
    (hrow : a.phase.isRow = true) :
    (∃ t, u.turnOf? a.turn = some t) ∨ ∃ b ∈ u.activities, a.id < b.id := by
  have hid := (h.frames.row a ha).mp hrow
  have hself {b : Activity} (hb : b ∈ u.activities) (hbid : b.id = r.id) : b = a :=
    h.frames.orderly.unique ha hb (hbid.trans hid.symm)
  cases h.stage with
  | commencing hb hbid hturn =>
    obtain rfl := hself hb hbid
    exact Or.inl ⟨_, by rw [hturn]; rfl⟩
  | attempting hb hbid hphase hturn =>
    obtain rfl := hself hb hbid
    rcases hturn with hturn | hturn
    · exact Or.inl ⟨_, by rw [hturn]; rfl⟩
    · exact Or.inl ⟨_, by rw [hturn]; rfl⟩
  | stopped hb hbid hphase hturn =>
    obtain rfl := hself hb hbid
    exact Or.inl ⟨_, by rw [hturn]; rfl⟩
  | resting hb hbid hphase hturn =>
    obtain rfl := hself hb hbid
    exact Or.inl ⟨_, by rw [hturn]; rfl⟩
  | leaving hb hbid hphase hturn =>
    obtain rfl := hself hb hbid
    exact Or.inl ⟨_, by rw [hturn]; rfl⟩
  | winding hb hbid hphase hturn =>
    obtain rfl := hself hb hbid
    refine Engine.turn_or_later (Or.inr ⟨_, hturn, fun j hj hgoing => ?_⟩)
    rcases h.latest j (Option.mem_toList.mp hj) with hmem | ⟨hgone, _⟩
    · exact hid ▸ (h.swept j hmem).1
    · cases hgone.symm.trans hgoing
  | ended hmade hclosed => exact absurd hid (isGoing_eq_false.mp hclosed.gone a ha)

/-- **A row comes to its end, by itself.** -/
theorem Paces.runFor_ends (hs : r.Paces [] s) (hr : r.IsProper) (h : s.Unfolds acts u)
    (hd : u.DescendsBeside) :
    ∃ fuel, (u.runFor [r.id] fuel).isGoing r.id = false := by
  -- by induction on what is left to do
  induction htasks : r.tasks acts u using
    ((WellFounded.prod_lex Nat.lt_wfRel.wf Phase.after_wf).cutExpand).induction
      generalizing acts u with
  | h tasks ih =>
    subst htasks
    have hpaces := Paces.unfolds h hr hs
    cases hgoing : u.isGoing r.id with
    | false => exact ⟨0, hgoing⟩
    | true =>
      obtain ⟨b, hb, _⟩ := isGoing_iff.mp hgoing
      obtain ⟨c, hc, t, hturn⟩ := hpaces.frames.orderly.exists_turn (fun a ha => by
        cases hrow : a.phase.isRow with
        | true => exact hpaces.turn_or_later ha hrow
        | false =>
          exact Engine.turn_or_later
            ((hd.turns a ha hrow).imp_right fun ⟨others, hturn, hlater⟩ =>
            ⟨others, hturn, fun j hj _ => hlater j hj⟩)) hb
      obtain ⟨⟨t, a⟩, hnext⟩ := next?_isSome hc hturn
      obtain ⟨ha, hwait, v, hturn, htime⟩ := next?_unfolds hnext
      have hwaited := h.trans hwait
      rw [List.append_nil] at hwaited
      have hstep := hwaited.act ha hturn htime
      have hless := (Paces.unfolds hwaited hr hs).tasks_step hr (Paces.unfolds hstep hr hs)
        (hd.waitUntil t) ha
      obtain ⟨fuel, hends⟩ :=
        ih _ hless hstep ((hd.waitUntil t).step (hpaces.frames.orderly.waitUntil t) ha) rfl
      refine ⟨fuel + 1, ?_⟩
      rw [runFor, if_pos (by simpa using hgoing), hnext]
      exact hends

end Row

end Cadence
