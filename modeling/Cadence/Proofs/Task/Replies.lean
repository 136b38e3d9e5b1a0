/-
Tasks and the replies that they wait for.

How a request ends depends on how long its replies take.  Where all of them are waited for,
more patience changes nothing, and time passes just for as long as they take.

* `Task.replies` — the replies that a task gets;
* `Task.IsQuiet` — a task that neither waits nor sends anything;
* `Task.Paces` — time passes only where replies are waited for;
* `Task.Settles` — from some patience on a task stays the same;
* `Task.Ends.run_replying` — what holds at the end of a task for replies of some kind.
-/
import Cadence.Proofs.Calendar.Instant
import Cadence.Proofs.Run.Steps

namespace Cadence

open Calendar

/-! ### Effects -/

/-- The reply that the answer to an effect is. -/
def Effect.reply? : (e : Effect) → e.Answer → Option Http.Reply
  | .exchange _, reply => some reply
  | _, _ => none

/-- An effect that neither waits nor sends anything. -/
def Effect.IsQuiet : Effect → Prop
  | .wait _ | .exchange _ => False
  | _ => True

theorem Surroundings.pass_zero (w : Surroundings) : w.pass 0 = w := by
  show { w with clock := w.clock.after 0 } = w
  rw [Instant.after_zero]

/-! ### Replies -/

namespace Task

variable {α β : Type}

/-- The replies that a task gets in some surroundings, in order. -/
def replies : Task α → Surroundings → List Http.Reply
  | .done _, _ => []
  | .ask e next, w =>
    (e.reply? (w.perform e).1).toList ++ (next (w.perform e).1).replies (w.perform e).2

theorem replies_bind (t : Task α) (f : α → Task β) (w : Surroundings) :
    (t.bind f).replies w = t.replies w ++ (f (t.run w).1).replies (t.run w).2 := by
  induction t generalizing w with
  | done a => rfl
  | ask e next ih =>
    show _ ++ ((next _).bind f).replies _ = (_ ++ (next _).replies _) ++ _
    rw [ih, List.append_assoc]
    rfl

theorem run_wait (n : Nat) (w : Surroundings) : (wait n).run w = ((), w.pass n) := by
  unfold wait
  split
  next h => rw [h, w.pass_zero]; rfl
  next => rfl

theorem replies_wait (n : Nat) (w : Surroundings) : (wait n).replies w = [] := by
  unfold wait
  split <;> rfl

/-! ### Quiet tasks -/

/-- A task that neither waits nor sends anything. -/
def IsQuiet : Task α → Prop
  | .done _ => True
  | .ask e next => e.IsQuiet ∧ ∀ x, (next x).IsQuiet

namespace IsQuiet

theorem bind {t : Task α} {f : α → Task β} (h : t.IsQuiet) (hf : ∀ a, (f a).IsQuiet) :
    (t.bind f).IsQuiet := by
  induction t with
  | done a => exact hf a
  | ask e next ih => exact ⟨h.1, fun x => ih x (h.2 x)⟩

theorem replies {t : Task α} (h : t.IsQuiet) (w : Surroundings) : t.replies w = [] := by
  induction t generalizing w with
  | done a => rfl
  | ask e next ih =>
    show (e.reply? (w.perform e).1).toList ++ (next _).replies _ = []
    rw [ih _ (h.2 _)]
    cases e with
    | exchange r => exact h.1.elim
    | _ => rfl

theorem clock {t : Task α} (h : t.IsQuiet) (w : Surroundings) : (t.run w).2.clock = w.clock := by
  induction t generalizing w with
  | done a => rfl
  | ask e next ih =>
    refine (ih _ (h.2 _) _).trans (w.perform_clock fun n hn => ?_)
    subst hn
    exact h.1.elim

theorem sent {t : Task α} (h : t.IsQuiet) (w : Surroundings) : (t.run w).2.sent = w.sent := by
  induction t generalizing w with
  | done a => rfl
  | ask e next ih =>
    refine (ih _ (h.2 _) _).trans ?_
    cases e with
    | exchange r => exact h.1.elim
    | _ => rfl

end IsQuiet

/-! ### Patience -/

/-- Time passes during a task just where it waits for replies, for each of them no longer
than the patience lasts. -/
def Paces (patience : Nat) (t : Task α) : Prop :=
  ∀ w, (t.run w).2.clock =
    w.clock.after (((t.replies w).map fun reply => min reply.delay patience).sum : Nat)

/-- With more and more patience a task comes to what it would without any timeout: from some
patience on, and with no smaller one, all replies are waited for, and then the run and the
replies stay the same. -/
def Settles (t : Nat → Task α) : Prop :=
  ∀ w, ∃ enough x replies, ∀ patience,
    (enough ≤ patience ↔ ∀ reply ∈ (t patience).replies w, reply.delay ≤ patience) ∧
    (enough ≤ patience → (t patience).run w = x ∧ (t patience).replies w = replies)

theorem Paces.bind {patience : Nat} {t : Task α} {f : α → Task β} (h : t.Paces patience)
    (hf : ∀ a, (f a).Paces patience) : (t.bind f).Paces patience := by
  intro w
  rw [run_bind, replies_bind, hf, h, Instant.after_after, List.map_append, List.sum_append,
    Int.natCast_add]

theorem IsQuiet.paces {patience : Nat} {t : Task α} (h : t.IsQuiet) : t.Paces patience := by
  intro w
  rw [h.clock, h.replies]
  exact w.clock.after_zero.symm

theorem Settles.bind {t : Nat → Task α} {f : Nat → α → Task β} (h : Settles t)
    (hf : ∀ a, Settles fun patience => f patience a) :
    Settles fun patience => (t patience).bind (f patience) := by
  intro w
  obtain ⟨enough, ⟨a, w'⟩, replies, hfirst⟩ := h w
  obtain ⟨enough', x, replies', hthen⟩ := hf a w'
  refine ⟨max enough enough', x, replies ++ replies', fun patience => ?_⟩
  obtain ⟨hiff, hsame⟩ := hfirst patience
  obtain ⟨hiff', hsame'⟩ := hthen patience
  simp only [run_bind, replies_bind, List.forall_mem_append, Nat.max_le, ← hiff]
  refine ⟨and_congr_right fun hle => ?_, fun hle => ?_⟩
  · rw [(hsame hle).1, hiff']
  · rw [(hsame hle.1).1, (hsame hle.1).2, (hsame' hle.2).2]
    exact ⟨(hsame' hle.2).1, rfl⟩

theorem IsQuiet.settles {t : Task α} (h : t.IsQuiet) : Settles fun _ => t := by
  refine fun w => ⟨0, t.run w, [], fun patience => ⟨?_, fun _ => ⟨rfl, h.replies w⟩⟩⟩
  rw [h.replies]
  exact iff_of_true (Nat.zero_le _) nofun

/-- Where all replies are waited for, more patience changes nothing. -/
theorem Settles.same {t : Nat → Task α} (h : Settles t) {w : Surroundings} {patience other : Nat}
    (hwaits : ∀ reply ∈ (t patience).replies w, reply.delay ≤ patience) (hle : patience ≤ other) :
    (t other).run w = (t patience).run w ∧ (t other).replies w = (t patience).replies w := by
  obtain ⟨enough, x, replies, hall⟩ := h w
  have henough : enough ≤ patience := (hall patience).1.mpr hwaits
  obtain ⟨hrun, hreplies⟩ := (hall patience).2 henough
  obtain ⟨hrun', hreplies'⟩ := (hall other).2 (Nat.le_trans henough hle)
  exact ⟨hrun'.trans hrun.symm, hreplies'.trans hreplies.symm⟩

/-- Time passes for as long as the replies take, where all of them are waited for. -/
theorem Paces.clock {patience : Nat} {t : Task α} (h : t.Paces patience) {w : Surroundings}
    (hwaits : ∀ reply ∈ t.replies w, reply.delay ≤ patience) :
    (t.run w).2.clock = w.clock.after (((t.replies w).map (·.delay)).sum : Nat) := by
  rw [h w, List.map_congr_left fun reply hreply => Nat.min_eq_left (hwaits reply hreply)]

/-- What holds at the end of a task whatever replies of some kind it gets holds of its run,
if it gets only such. -/
theorem Ends.run_replying {Q : Http.Reply → Prop} {P : α → Prop} {t : Task α}
    {w : Surroundings} {c : Instant} (h : t.Ends (.replying Q) (fun _ a => P a) c)
    (hw : ∀ reply ∈ t.replies w, Q reply) : P (t.run w).1 := by
  induction t generalizing w c with
  | done a => exact h
  | ask e next ih =>
    have hanswer : Timing.replying Q e c (w.perform e).1 c := by
      cases e with
      | exchange r => exact hw _ List.mem_cons_self
      | _ => trivial
    exact ih _ (h _ c hanswer) fun reply hreply => hw reply (List.mem_append_right _ hreply)

end Task

end Cadence
