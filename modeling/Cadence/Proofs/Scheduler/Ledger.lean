/-
The runs that are completed are those that are put into histories.

* `Trace.putBy` — the records that an activity put into histories;
* `Engine.Accounts` — the invariant: an activity that is going on has put nothing into a
  history, one that ended with a record has put in just this one or was asked only to look,
  and whatever a run has put in, it ended with;
* `Course.accounts` — it holds in every course.
-/
import Cadence.Proofs.Scheduler.Origin

namespace Cadence

open Calendar

/-! ### What is put into histories -/

namespace Trace

/-- The records that an activity put into histories, in order. -/
def putBy (trace : Trace) (i : Nat) : List RunRecord :=
  trace.filterMap fun d => if d.actor.id = i then d.entry.put? else none

/-- An activity was asked only to look at what its run comes to. -/
def Looks (trace : Trace) (i : Nat) : Prop := ∃ trigger f, trace.Loads i trigger .look f

theorem putBy_append (trace trace' : Trace) (i : Nat) :
    (trace ++ trace' : Trace).putBy i = trace.putBy i ++ trace'.putBy i := List.filterMap_append

theorem putBy_eq_nil {trace : Trace} {i : Nat} (h : ∀ d ∈ trace, d.actor.id ≠ i) :
    trace.putBy i = [] := by
  refine List.filterMap_eq_nil_iff.mpr fun d hd => ?_
  rw [if_neg (h d hd)]

end Trace

/-! ### The invariant -/

/-- Completed runs and the records in histories correspond to each other. -/
structure Engine.Accounts (trace : Trace) (s : Engine) : Prop where
  going : ∀ a ∈ s.activities, trace.putBy a.id = []
  ended : ∀ e ∈ s.endings, e.id < s.count ∧ ∀ a ∈ s.activities, a.id ≠ e.id
  recorded : ∀ e ∈ s.endings, ∀ r, e.ending = .record r → trace.putBy e.id = [r] ∨ trace.Looks e.id
  byRun : ∀ e ∈ s.endings, ∀ r, e.ending = .record r → ∀ d ∈ trace, d.actor.id = e.id →
    ∀ r', d.entry.put? = some r' → d.actor.phase.isRun = true
  actor_lt : ∀ d ∈ trace, d.actor.id < s.count
  completed : ∀ d ∈ trace, d.actor.phase.isRun = true → ∀ r, d.entry.put? = some r →
    ∃ e ∈ s.endings, e.id = d.actor.id ∧ e.ending = .record r

namespace Engine

variable {limit : Nat} {trace : Trace} {s : Engine} {a : Activity} {m : Move}

/-- The record that an activity puts into a history in its next step. -/
def puts? (s : Engine) (a : Activity) : Option RunRecord := (s.deed? a).bind (·.entry.put?)

theorem putBy_deed (s : Engine) (a : Activity) :
    Trace.putBy (s.deed? a).toList a.id = (s.puts? a).toList := by
  unfold puts? deed?
  cases a.phase.request? with
  | none => rfl
  | some op =>
    rw [Option.map_some, Option.toList_some, Option.bind_some, Trace.putBy,
      List.filterMap_cons, if_pos rfl]
    cases Entry.put? _ <;> rfl

theorem putBy_deed_ne {i : Nat} (h : a.id ≠ i) : Trace.putBy (s.deed? a).toList i = [] := by
  refine Trace.putBy_eq_nil fun d hd => ?_
  obtain ⟨op, _, rfl⟩ := Option.map_eq_some_iff.mp (Option.mem_toList.mp hd)
  exact h

/-- What an activity puts into a history is what it asked for. -/
theorem puts?_some {r : RunRecord} (h : s.puts? a = some r) :
    a.phase.request? = some (.append r) ∧ ∃ ans, s.answer (.append r) = .ok ans := by
  obtain ⟨d, hd, hput⟩ := Option.bind_eq_some_iff.mp h
  obtain ⟨op, hop, rfl⟩ := Option.map_eq_some_iff.mp hd
  obtain ⟨heq, hanswered⟩ := Entry.put?_some.mp hput
  obtain rfl : op = .append r := heq
  refine ⟨hop, ?_⟩
  cases hanswer : s.answer (.append r) with
  | ok ans => exact ⟨ans, rfl⟩
  | error e =>
    rw [Entry.isAnswered, hanswer] at hanswered
    cases hanswered

/-- An activity that goes on has put nothing into a history. -/
theorem puts?_onward {turn : Turn} {phase : Phase} (h : s.Onward a turn phase) :
    s.puts? a = none := by
  rw [Option.eq_none_iff_forall_ne_some]
  intro r hputs
  have hrequest := (puts?_some hputs).1
  cases h with
  | loads hphase hanswer => rw [hphase] at hrequest; cases hrequest
  | waits hphase => rw [hphase] at hrequest; cases hrequest
  | asks hphase he => rw [hphase] at hrequest; cases hrequest
  | finishes hphase hgoal => rw [hphase] at hrequest; cases hrequest
  | sweeps hphase => rw [hphase] at hrequest; cases hrequest
  | surveys hphase hall => cases hall.symm.trans hrequest
  | goesOn hphase hrow => rw [Phase.request?_of_isRow hphase] at hrequest; cases hrequest

/-- Nor has one that begins others. -/
theorem puts?_begins {phase : Phase} (h : s.Begins a phase) : s.puts? a = none := by
  rw [Option.eq_none_iff_forall_ne_some]
  intro r hputs
  have hrequest := (puts?_some hputs).1
  cases h with
  | run hphase hall hanswer hnow hdue hf => cases hall.symm.trans hrequest
  | sweep outages hphase => rw [Phase.request?_of_isRow hphase] at hrequest; cases hrequest

/-- Only a run ends with a record. It has put the record into a history or was asked only to
look. -/
theorem puts?_record (hm : s.Allows a m) {r : RunRecord} (hfate : m.fate = .ended (.record r)) :
    a.phase.isRun = true ∧ (s.puts? a = some r ∨ a.phase = .run (.done r) .look) := by
  cases hm with
  | looks hphase =>
    obtain rfl := Ending.record.inj (Fate.ended.inj hfate)
    exact ⟨by rw [hphase]; rfl, Or.inr hphase⟩
  | @appends r' goal ans hphase hrequest hanswer =>
    obtain rfl := Ending.record.inj (Fate.ended.inj hfate)
    refine ⟨by rw [hphase]; rfl, Or.inl ?_⟩
    rw [puts?, deed?_some hrequest, Option.bind_some]
    exact Entry.put?_some.mpr ⟨rfl, by rw [Entry.isAnswered, hanswer]; rfl⟩
  | quits hphase hblank hrefused =>
    rw [Fate.ended.inj hfate] at hblank
    cases hblank
  | rests hphase hblank hdue =>
    rw [Fate.ended.inj hfate] at hblank
    cases hblank
  | skips hphase hguard => cases Fate.ended.inj hfate
  | collects hphase => cases Fate.ended.inj hfate
  | _ => cases hfate

/-- A run that puts a record into a history ends with it. -/
theorem ended_of_puts? (hm : s.Allows a m) (hrun : a.phase.isRun = true) {r : RunRecord}
    (hputs : s.puts? a = some r) : m.fate = .ended (.record r) := by
  obtain ⟨hrequest, ans, hanswer⟩ := puts?_some hputs
  cases hm with
  | @appends r' goal ans' hphase hrequest' hanswer' =>
    obtain rfl := Operation.append.inj (Option.some_inj.mp (hrequest.symm.trans hrequest'))
    rfl
  | quits hphase hblank hrefused =>
    -- a record that is refused is not put into a history
    obtain ⟨r', goal, hphase', ⟨f, rfl⟩ | ⟨fault, hfault⟩⟩ := hrefused hrun
    · rw [hphase'] at hrequest
      cases hrequest
    · rw [hphase'] at hrequest
      cases Phase.append_request? hrequest
      cases hanswer.symm.trans hfault
  | looks hphase => rw [hphase] at hrequest; cases hrequest
  | skips hphase hguard => rw [hphase] at hrun; cases hrun
  | rests hphase hblank hdue => rw [hphase] at hrun; cases hrun
  | collects hphase => rw [hphase] at hrun; cases hrun
  | loads hphase hanswer => rw [hphase] at hrun; cases hrun
  | sweeps hphase hguard => rw [hphase] at hrun; cases hrun
  | surveys hphase hall hanswer hnow hdue hsome => rw [hphase] at hrun; cases hrun
  | waits hphase => rw [hphase] at hrequest; cases hrequest
  | asks hphase he => rw [hphase] at hrequest; cases hrequest
  | finishes hphase hgoal => rw [hphase] at hrequest; cases hrequest
  | goesOn hphase hrow hbegun => rw [Phase.request?_of_isRow hphase] at hrequest; cases hrequest

theorem start_accounts (world : Surroundings) (store : Store) (interpret : Interpreter) :
    (start world store interpret).Accounts [] where
  going := fun _ hb => by cases hb
  ended := fun _ he => by cases he
  recorded := fun _ he => by cases he
  byRun := fun _ he => by cases he
  actor_lt := fun _ hd => by cases hd
  completed := fun _ hd => by cases hd

/-- A deed is one of those before, or the one of this step. -/
theorem mem_trace_step {d : Deed} (h : d ∈ trace ++ (s.deed? a).toList) :
    d ∈ trace ∨ d.actor = a ∧ s.deed? a = some d := by
  rcases List.mem_append.mp h with h | h
  · exact Or.inl h
  · have hdeed : s.deed? a = some d := Option.mem_toList.mp h
    obtain ⟨op, _, rfl⟩ := Option.map_eq_some_iff.mp hdeed
    exact Or.inr ⟨rfl, hdeed⟩

section

variable (h : s.Accounts trace) (hs : s.Traced limit trace) (ha : a ∈ s.activities)
  (hm : s.Allows a m) (hbecomes : s.Becomes a m (s.step a))

include h hs ha hm hbecomes

theorem Accounts.going_step : ∀ b ∈ (s.step a).activities,
    Trace.putBy (trace ++ (s.deed? a).toList) b.id = [] := by
  intro b hb
  rw [Trace.putBy_append]
  cases hbecomes.going b hb with
  | stays hgoing hother =>
    rw [h.going b hgoing, putBy_deed_ne fun heq => hother heq.symm]
    rfl
  | moves hfate hid =>
    rw [hid, h.going a ha, putBy_deed, puts?_onward (hm.onward hfate)]
    rfl
  | begins hbegun hid hturn =>
    -- the id was not given out before
    have hlt := hs.orderly.id_lt a ha
    rw [Trace.putBy_eq_nil (fun d hd => by have := h.actor_lt d hd; omega),
      putBy_deed_ne (by omega)]
    rfl

omit hs hm in
theorem Accounts.mem_endings {e : Ended} (he : e ∈ (s.step a).endings) :
    e ∈ s.endings ∧ e.id ≠ a.id ∨ m.fate = .ended e.ending ∧ e.id = a.id := by
  rw [hbecomes.endings] at he
  cases hfate : m.fate with
  | onward turn phase =>
    rw [hfate] at he
    exact Or.inl ⟨he, fun heq => (h.ended e he).2 a ha heq.symm⟩
  | ended ending =>
    rw [hfate] at he
    rcases List.mem_cons.mp he with rfl | he
    · exact Or.inr ⟨rfl, rfl⟩
    · exact Or.inl ⟨he, fun heq => (h.ended e he).2 a ha heq.symm⟩

omit hm in
theorem Accounts.ended_step : ∀ e ∈ (s.step a).endings,
    e.id < (s.step a).count ∧ ∀ b ∈ (s.step a).activities, b.id ≠ e.id := by
  intro e he
  have hcount : s.count ≤ (s.step a).count := Nat.le_trans (Nat.le_add_right _ _) hbecomes.count
  have hlt := hs.orderly.id_lt a ha
  rcases h.mem_endings ha hbecomes he with ⟨hold, hne⟩ | ⟨hfate, hid⟩
  · have hbound := (h.ended e hold).1
    refine ⟨by omega, fun b hb => ?_⟩
    cases hbecomes.going b hb with
    | stays hgoing hother => exact (h.ended e hold).2 b hgoing
    | moves hfate hid => exact hid ▸ fun heq => hne heq.symm
    | begins hbegun hid hturn => omega
  · refine ⟨by omega, fun b hb => ?_⟩
    cases hbecomes.going b hb with
    | stays hgoing hother => exact hid ▸ hother
    | moves hfate' hid' => cases hfate.symm.trans hfate'
    | begins hbegun hid' hturn => omega

theorem Accounts.recorded_step : ∀ e ∈ (s.step a).endings, ∀ r, e.ending = .record r →
    Trace.putBy (trace ++ (s.deed? a).toList) e.id = [r] ∨
      Trace.Looks (trace ++ (s.deed? a).toList) e.id := by
  intro e he r hr
  rw [Trace.putBy_append]
  rcases h.mem_endings ha hbecomes he with ⟨hold, hne⟩ | ⟨hfate, hid⟩
  · rcases h.recorded e hold r hr with hput | ⟨trigger, f, hloads⟩
    · refine Or.inl ?_
      rw [hput, putBy_deed_ne fun heq => hne heq.symm]
      rfl
    · exact Or.inr ⟨trigger, f, hloads.append _⟩
  -- the activity ends now, and it had put nothing into a history before
  · rcases (puts?_record hm (hr ▸ hfate)).2 with hputs | hlook
    · refine Or.inl ?_
      rw [hid, h.going a ha, putBy_deed, hputs]
      rfl
    · have horigin := hs.going a ha
      rw [hlook] at horigin
      obtain ⟨f, trigger, hloads, _⟩ := horigin
      exact Or.inr ⟨trigger, f, hid ▸ hloads.append _⟩

omit hs in
theorem Accounts.byRun_step : ∀ e ∈ (s.step a).endings, ∀ r, e.ending = .record r →
    ∀ d ∈ trace ++ (s.deed? a).toList, d.actor.id = e.id → ∀ r', d.entry.put? = some r' →
      d.actor.phase.isRun = true := by
  intro e he r hr d hd hactor r' hput
  rcases h.mem_endings ha hbecomes he with ⟨hold, hne⟩ | ⟨hfate, hid⟩
  · rcases mem_trace_step hd with hd | ⟨rfl, _⟩
    · exact h.byRun e hold r hr d hd hactor r' hput
    · exact absurd hactor.symm hne
  -- the activity ends now, and it had put nothing into a history before
  · rcases mem_trace_step hd with hd | ⟨rfl, _⟩
    · have hnone := List.filterMap_eq_nil_iff.mp (h.going a ha) d hd
      rw [if_pos (hactor.trans hid), hput] at hnone
      cases hnone
    · exact (puts?_record hm (hr ▸ hfate)).1

/-- **A step keeps the invariant.** -/
theorem Accounts.step : (s.step a).Accounts (trace ++ (s.deed? a).toList) where
  going := h.going_step hs ha hm hbecomes
  ended := h.ended_step hs ha hbecomes
  recorded := h.recorded_step hs ha hm hbecomes
  byRun := h.byRun_step ha hm hbecomes
  actor_lt := by
    intro d hd
    have hcount : s.count ≤ (s.step a).count := Nat.le_trans (Nat.le_add_right _ _) hbecomes.count
    rcases mem_trace_step hd with hd | ⟨rfl, _⟩
    · exact Nat.lt_of_lt_of_le (h.actor_lt d hd) hcount
    · exact Nat.lt_of_lt_of_le (hs.orderly.id_lt _ ha) hcount
  completed := by
    intro d hd hrun r hput
    rw [hbecomes.endings]
    rcases mem_trace_step hd with hd | ⟨rfl, hdeed⟩
    · obtain ⟨e, he, hid, hending⟩ := h.completed d hd hrun r hput
      refine ⟨e, ?_, hid, hending⟩
      cases m.fate with
      | ended ending => exact List.mem_cons_of_mem _ he
      | onward turn phase => exact he
    -- whoever puts in its record in this step ends with it
    · have hputs : s.puts? d.actor = some r := by rw [puts?, hdeed]; exact hput
      rw [ended_of_puts? hm hrun hputs]
      exact ⟨_, List.mem_cons_self, rfl, rfl⟩

end

end Engine

/-- **The invariant holds in every course.** -/
theorem Course.accounts {arrives : Phase → Prop} {quiet : Engine → Prop}
    (harrives : ∀ p, arrives p → p.IsArrival) {limit : Nat} {before trace : Trace}
    {s s' : Engine} (h : Course arrives quiet s trace s') (htraced : s.Traced limit before)
    (hs : s.Accounts before) :
    s'.Accounts (before ++ trace) := by
  induction h with
  | refl => rwa [List.append_nil]
  | act hcourse hgoing _ _ ih =>
    have hs' := hcourse.traced harrives htraced
    obtain ⟨m, hm, hbecomes⟩ := Engine.step_moves hs'.orderly hgoing
    rw [← List.append_assoc]
    exact ih.step hs' hgoing hm hbecomes
  | pass _ _ _ _ ih => exact ⟨ih.going, ih.ended, ih.recorded, ih.byRun, ih.actor_lt, ih.completed⟩
  | @arrive trace s' hcourse phase hphase t ih =>
    have hid {b : Activity} (hb : b ∈ (s'.spawn (.time t) phase).activities) :
        b ∈ s'.activities ∨ b.id = s'.count := by
      rcases List.mem_append.mp hb with hb | hb
      · exact Or.inl hb
      · exact Or.inr (by rw [List.mem_singleton.mp hb])
    refine ⟨fun b hb => ?_, fun e he =>
      ⟨Nat.lt_succ_of_lt (ih.ended e he).1, fun b hb => ?_⟩, ih.recorded,
      ih.byRun, fun d hd => Nat.lt_succ_of_lt (ih.actor_lt d hd), ih.completed⟩
    · rcases hid hb with hgoing | hnew
      · exact ih.going b hgoing
      · refine Trace.putBy_eq_nil fun d hd => ?_
        have hlt := ih.actor_lt d hd
        omega
    · rcases hid hb with hgoing | hnew
      · exact (ih.ended e he).2 b hgoing
      · have hlt := (ih.ended e he).1
        omega

end Cadence
