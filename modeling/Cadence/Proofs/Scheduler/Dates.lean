/-
When runs begin and end.

A run looks at the clock when it begins and when it ends, and then its record goes into the
history of its flow.  Time may pass anywhere in between.

* `Phase.IsTimed` — a run that began no earlier than an instant notes down its beginning and
  its end, and the end that is noted down is not after the present instant;
* `Phase.IsTimed.moves`, `Phase.IsTimed.begins`, `Phase.IsTimed.pass` — what a step and what
  the passing of time keep of that.
-/
import Cadence.Proofs.Scheduler.Course

namespace Cadence

open Calendar

/-- A run that goes on comes to a record of when it began, no earlier than an instant, and
of when it ended, no later than it ends. -/
def Phase.IsTimed (since now : Instant) : Phase → Prop
  | .load _ _ _ _ => since ≤ now
  | .run task _ => ∀ c, now ≤ c →
      task.Ends .flowing (fun e r => ∃ b d, since ≤ b ∧ d ≤ e ∧ r.Spans b d) c
  | .append r _ => ∃ b d, since ≤ b ∧ d ≤ now ∧ r.Spans b d
  | _ => True

namespace Phase.IsTimed

variable {s : Engine} {a : Activity} {m : Move} {since now later : Instant} {turn : Turn}
  {phase : Phase}

theorem record (hsince : since ≤ now) (interpret : Interpreter) (f : StoredFlow) (trigger : Trigger)
    (goal : Goal) : (Phase.run (f.record interpret trigger) goal).IsTimed since now := by
  intro c hc
  refine (f.record_flowing interpret trigger c).mono fun e r hspans => ?_
  obtain ⟨b, d, hb, hd, hspans⟩ := hspans
  exact ⟨b, d, Int.le_trans hsince (Int.le_trans hc hb), hd, hspans⟩

theorem arrival (hrun : phase.isRun = false) : phase.IsTimed now now := by
  cases phase with
  | load id trigger interpret goal => exact Int.le_refl _
  | run task goal => cases hrun
  | append r goal => cases hrun
  | _ => exact True.intro

theorem pass (h : phase.IsTimed since now) (hle : now ≤ later) : phase.IsTimed since later := by
  cases phase with
  | load id trigger interpret goal => exact Int.le_trans h hle
  | run task goal => exact fun c hc => h c (Int.le_trans hle hc)
  | append r goal =>
    obtain ⟨b, d, hb, hd, hspans⟩ := h
    exact ⟨b, d, hb, Int.le_trans hd hle, hspans⟩
  | _ => exact True.intro

theorem moves (h : a.phase.IsTimed since s.clock) (hm : s.Allows a m)
    (hfate : m.fate = .onward turn phase) :
    phase.IsTimed since s.clock := by
  cases hm.onward hfate with
  | loads hphase hanswer =>
    rw [hphase] at h
    exact record h _ _ _ _
  | waits hphase =>
    rw [hphase] at h
    exact fun c hc => h s.clock (Int.le_refl _) () c hc
  | asks hphase he =>
    rw [hphase] at h
    exact fun c hc => h s.clock (Int.le_refl _) _ c (s.world.perform_flowing _ hc)
  | finishes hphase hgoal =>
    rw [hphase] at h
    exact h s.clock (Int.le_refl _)
  | sweeps hphase => exact True.intro
  | surveys hphase hrequest => exact True.intro
  | goesOn hphase hrow =>
    exact Phase.of_isRow hrow (fun _ => True.intro) (fun _ => True.intro)
      (fun _ => True.intro) True.intro

theorem begins (hsince : since ≤ s.clock) (hbegins : s.Begins a phase) :
    phase.IsTimed since s.clock := by
  cases hbegins with
  | run hphase hrequest hanswer hnow hdue hf =>
    unfold Engine.runPhase
    split
    · exact True.intro
    · exact record hsince _ _ _ _
  | sweep outages hphase => exact True.intro

end Phase.IsTimed

end Cadence
