/-
Tasks under a time limit.

A task under a limit does what it does without one until it would wait until the limit or
beyond it.  Then it only waits until the limit and has no value.

* `Task.within` — a task under a limit, its value with what is left of the limit;
* `Task.sent_during` — a task sends requests while it runs;
* **`Task.run_within`** — a run under a limit is the run without one, or this run cut off at
  the limit.
-/
import Cadence.Proofs.Run.FirstError
import Cadence.Proofs.Task.Replies

namespace Cadence

open Calendar

/-! ### Effects -/

/-- How long an effect takes. -/
def Effect.span : Effect → Nat
  | .wait micros => micros
  | _ => 0

theorem Surroundings.clock_perform (w : Surroundings) (e : Effect) :
    (w.perform e).2.clock = w.clock.after e.span := by
  cases e with
  | wait micros => rfl
  | _ => exact w.clock.after_zero.symm

/-- What an effect sends, it sends at once. -/
theorem Surroundings.sent_perform (w : Surroundings) (e : Effect) :
    ∃ new : List Sent, (w.perform e).2.sent = new ++ w.sent ∧ ∀ s ∈ new, s.time = w.clock := by
  cases e with
  | exchange r => exact ⟨[⟨w.clock, r⟩], rfl, fun s hs => (List.mem_singleton.mp hs) ▸ rfl⟩
  | _ => exact ⟨[], rfl, fun _ hs => absurd hs List.not_mem_nil⟩

/-! ### Tasks -/

namespace Task

variable {α β : Type}

/-- A task sends requests while it runs. -/
theorem sent_during (t : Task α) (w : Surroundings) :
    ∃ new : List Sent, (t.run w).2.sent = new ++ w.sent ∧ ∀ s ∈ new, w.clock ≤ s.time := by
  induction t generalizing w with
  | done a => exact ⟨[], rfl, nofun⟩
  | ask e next ih =>
    obtain ⟨first, hfirst, htime⟩ := w.sent_perform e
    obtain ⟨later, hlater, hle⟩ := ih (w.perform e).1 (w.perform e).2
    refine ⟨later ++ first, by rw [run, hlater, hfirst, List.append_assoc], fun s hs => ?_⟩
    rcases List.mem_append.mp hs with hs | hs
    · have hclock : w.clock ≤ (w.perform e).2.clock := w.clock_perform e ▸ w.clock.le_after e.span
      exact Int.le_trans hclock (hle s hs)
    · rw [htime s hs]
      exact Int.le_refl _

/-- A task under a time limit, with what is left of the limit at its end. Where it would
wait until the limit, it has no value. -/
def within : Task α → Nat → Task (Option (α × Nat))
  | .done a, limit => .done (some (a, limit))
  | .ask e next, limit =>
    if limit ≤ e.span then .ask (.wait limit) fun _ => .done none
    else .ask e fun x => (next x).within (limit - e.span)

theorem within_bind (t : Task α) (f : α → Task β) (limit : Nat) :
    (t.bind f).within limit = (t.within limit).bind fun x => match x with
      | none => .done none
      | some (a, left) => (f a).within left := by
  induction t generalizing limit with
  | done a => rfl
  | ask e next ih =>
    show within (.ask e fun x => (next x).bind f) limit = _
    rw [within, within]
    split
    · rfl
    · exact congrArg (ask e) (funext fun x => ih x _)

/-- What follows a task under a limit matters only for what can be left of the limit. -/
theorem within_congr {t : Task α} {f g : Option (α × Nat) → Task β} {limit : Nat}
    (hlimit : 0 < limit) (hnone : f none = g none)
    (hsome : ∀ a left, 0 < left → left ≤ limit → f (some (a, left)) = g (some (a, left))) :
    (t.within limit).bind f = (t.within limit).bind g := by
  induction t generalizing limit with
  | done a => exact hsome a limit hlimit (Nat.le_refl _)
  | ask e next ih =>
    rw [within]
    split
    · exact congrArg (ask (.wait limit)) (funext fun _ => hnone)
    · next hspan =>
      refine congrArg (ask e) (funext fun x => ih x (Nat.sub_pos_of_lt (Nat.lt_of_not_le hspan)) ?_)
      exact fun a left hpos hle => hsome a left hpos (Nat.le_trans hle (Nat.sub_le _ _))

/-- An effect that takes no time is always within a limit. -/
theorem within_ask {e : Effect} (he : e.span = 0) {limit : Nat} (hlimit : 0 < limit)
    (next : e.Answer → Task α) :
    (ask e next).within limit = ask e fun x => (next x).within limit := by
  rw [within, he, if_neg (Nat.not_le.mpr hlimit), Nat.sub_zero]

theorem within_exchange {limit : Nat} (hlimit : 0 < limit) (r : Http.Request) :
    (exchange r).within limit = (exchange r).bind fun reply => .done (some (reply, limit)) :=
  within_ask rfl hlimit _

theorem within_wait {limit : Nat} (hlimit : 0 < limit) (n : Nat) :
    (wait n).within limit =
      if limit ≤ n then (wait limit).bind fun _ => .done none
      else (wait n).bind fun _ => .done (some ((), limit - n)) := by
  unfold wait
  rcases Nat.eq_zero_or_pos n with rfl | hn
  · rw [if_pos rfl, if_neg (Nat.not_le.mpr hlimit)]
    rfl
  · rw [if_neg (Nat.ne_of_gt hn), if_neg (Nat.ne_of_gt hlimit)]
    rfl

/-- A limit does not matter to a quiet task. -/
theorem IsQuiet.within {t : Task α} (h : t.IsQuiet) {limit : Nat} (hlimit : 0 < limit) :
    t.within limit = t.bind fun a => .done (some (a, limit)) := by
  induction t with
  | done a => rfl
  | ask e next ih =>
    have hspan : e.span = 0 := by
      cases e with
      | wait n => exact h.1.elim
      | _ => rfl
    rw [within_ask hspan hlimit]
    exact congrArg (ask e) (funext fun x => ih x (h.2 x))

/-- **A run under a limit is the run without one if that ends before the limit. Otherwise it
ends at the limit, without a value, and it has sent the requests that the run without a
limit has sent until then.** -/
theorem run_within (t : Task α) (w : Surroundings) {limit : Nat} (hlimit : 0 < limit) :
    if (t.run w).2.clock < w.clock.after limit then
      ((t.within limit).run w).1.map (·.1) = some (t.run w).1 ∧
      ((t.within limit).run w).2 = (t.run w).2
    else
      ((t.within limit).run w).1 = none ∧ ((t.within limit).run w).2.clock = w.clock.after limit ∧
        ∃ new, (t.run w).2.sent = new ++ w.sent ∧
          ((t.within limit).run w).2.sent =
            new.filter (·.time < w.clock.after limit) ++ w.sent := by
  induction t generalizing w limit with
  | done a =>
    have hnow : w.clock < w.clock.after limit :=
      Int.lt_add_of_pos_right _ (Int.natCast_pos.mpr hlimit)
    exact (if_pos hnow).mpr ⟨rfl, rfl⟩
  | ask e next ih =>
    rw [within]
    by_cases hspan : limit ≤ e.span
    · -- the limit passes in this effect, and what would be sent later is not sent
      rw [if_pos hspan]
      obtain ⟨new, hnew, hlater⟩ := sent_during (next (w.perform e).1) (w.perform e).2
      have hover : w.clock.after limit ≤ (w.perform e).2.clock := by
        rw [w.clock_perform]
        exact Int.add_le_add_left (Int.ofNat_le.mpr hspan) _
      have hlate : ¬((ask e next).run w).2.clock < w.clock.after limit :=
        Int.not_lt.mpr (Int.le_trans hover (clock_le_run _ _))
      have hquiet : (w.perform e).2.sent = w.sent := by
        cases e with
        | exchange r => exact absurd hspan (Nat.not_le.mpr hlimit)
        | _ => rfl
      rw [if_neg hlate]
      refine ⟨rfl, rfl, new, hquiet ▸ hnew, ?_⟩
      have hcut : new.filter (·.time < w.clock.after limit) = [] :=
        List.filter_eq_nil_iff.mpr fun s hs => by
          rw [decide_eq_true_eq]
          exact Int.not_lt.mpr (Int.le_trans hover (hlater s hs))
      rw [hcut]
      rfl
    · rw [if_neg hspan]
      obtain ⟨first, hfirst, htime⟩ := w.sent_perform e
      have hleft : 0 < limit - e.span := Nat.sub_pos_of_lt (Nat.lt_of_not_le hspan)
      have hdeadline : (w.perform e).2.clock.after (limit - e.span : Nat) =
          w.clock.after limit := by
        rw [w.clock_perform, Instant.after_after,
          Int.ofNat_sub (Nat.le_of_not_le hspan), Int.add_comm, Int.sub_add_cancel]
      have hrest := ih (w.perform e).1 (w.perform e).2 hleft
      rw [hdeadline] at hrest
      show if ((next _).run _).2.clock < _ then
          (((next _).within _).run _).1.map _ = _ ∧ (((next _).within _).run _).2 = _
        else (((next _).within _).run _).1 = _ ∧ (((next _).within _).run _).2.clock = _ ∧ _
      split
      · next hin => rwa [if_pos hin] at hrest
      · next hout =>
        rw [if_neg hout] at hrest
        obtain ⟨hnone, hclock, later, hlater, hcut⟩ := hrest
        have hkept : first.filter (·.time < w.clock.after limit) = first :=
          List.filter_eq_self.mpr fun s hs => by
            rw [decide_eq_true_eq, htime s hs]
            exact Int.lt_add_of_pos_right _ (Int.natCast_pos.mpr hlimit)
        refine ⟨hnone, hclock, later ++ first, ?_, ?_⟩
        · rw [List.append_assoc, ← hfirst]
          exact hlater
        · rw [List.filter_append, hkept, List.append_assoc, ← hfirst]
          exact hcut

end Task

end Cadence
