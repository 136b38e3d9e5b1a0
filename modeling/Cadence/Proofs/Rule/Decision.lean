/-
Rules that are decided.

Over plain paths a rule is decided, whatever the results hold, with two exceptions: an
integer beyond the range of floating-point numbers, as the value found or as the target, is
refused, and so is a list or an object with an integer that has too many digits to be
written.  No integer that was read from text has.

* `Json.Exceeds`, `number?_answered_iff` — the values that are refused;
* `Comparison.values_answered_iff`, `Rule.holds_answered_iff`, `Step.decision_answered_iff`
  — what is decided: two values, a rule, and all rules of a step;
* `Step.perform_of_decided`, `Step.perform_of_refused` — what a step comes to;
* **`Step.decision_reached`** — what becomes of a run that gets to such a step.
-/
import Cadence.Proofs.Rule.Operators
import Cadence.Proofs.Run.Reached
import Cadence.Proofs.Run.ShortResults
import Cadence.Proofs.Template.Refusal

namespace Cadence

open Decimal

/-! ### Values -/

/-- An integer beyond the range of floating-point numbers. -/
def Json.Exceeds (v : Json) : Prop := ∃ n, v = .int n ∧ floatBound ≤ n.natAbs

/-- Only an integer beyond the range is refused, and everything else reads as a number or as
none. -/
theorem number?_cases (v : Json) :
    (v.Exceeds ∧ number? v = .error .tooLarge) ∨ (¬v.Exceeds ∧ ∃ x, number? v = .ok x) := by
  cases v with
  | int n =>
    unfold number?
    by_cases hinf : (nearestInt n).isInf = true
    · exact Or.inl ⟨⟨n, rfl, nearestInt_isInf_iff.mp hinf⟩, if_pos hinf⟩
    · refine Or.inr ⟨?_, _, if_neg hinf⟩
      rintro ⟨m, hm, hlarge⟩
      obtain rfl := Json.int.inj hm
      exact hinf (nearestInt_isInf_iff.mpr hlarge)
  | _ => exact Or.inr ⟨fun ⟨_, h⟩ => (nomatch h.1), _, rfl⟩

theorem number?_answered_iff {v : Json} : (∃ x, number? v = .ok x) ↔ ¬v.Exceeds := by
  rcases number?_cases v with ⟨hexceeds, hrefused⟩ | ⟨hin, hread⟩
  · exact iff_of_false (fun ⟨_, hx⟩ => nomatch hx.symm.trans hrefused) fun h => h hexceeds
  · exact iff_of_true hread hin

theorem number?_fault {v : Json} {fault : RuleFault} (h : number? v = .error fault) :
    fault = .tooLarge := by
  rcases number?_cases v with ⟨-, hrefused⟩ | ⟨-, x, hx⟩
  · exact Except.error.inj (h.symm.trans hrefused)
  · cases h.symm.trans hx

namespace Comparison

variable {op : Comparison} {value : Json} {target : Scalar}

/-- Two values are compared just if none of them is beyond the range and the value can be
written. -/
theorem values_answered_iff : (∃ b, op.values value target.toJson = .ok b) ↔
    (¬value.Exceeds ∧ ¬target.toJson.Exceeds) ∧ value.isShort = true := by
  rw [← number?_answered_iff, ← number?_answered_iff]
  constructor
  · rintro ⟨b, hb⟩
    obtain ⟨x, hx, hrest⟩ := bind_eq_ok.mp hb
    obtain ⟨y, hy, -⟩ := bind_eq_ok.mp hrest
    refine ⟨⟨⟨x, hx⟩, y, hy⟩, ?_⟩
    by_contra hlong
    cases hb.symm.trans
      (values_long hx hy (Scalar.isShort_of_number? hy) (Bool.eq_false_iff.mpr hlong) op)
  · rintro ⟨⟨⟨x, hx⟩, y, hy⟩, hshort⟩
    obtain ⟨answers, hanswers, -⟩ := exists_answers hx hy (Scalar.isShort_of_number? hy) hshort
    exact ⟨_, hanswers op⟩

/-- What is wrong with a comparison is an integer beyond the range, or one in the value that
cannot be written. -/
theorem values_fault {fault : RuleFault} (h : op.values value target.toJson = .error fault) :
    fault = .tooLarge ∨ fault = .text .unwritable ∧ value.isShort = false := by
  cases hx : number? value with
  | error e =>
    simp only [values, hx, error_bind] at h
    exact Or.inl ((Except.error.inj h).symm.trans (number?_fault hx))
  | ok x =>
    cases hy : number? target.toJson with
    | error e =>
      simp only [values, hx, hy, ok_bind, error_bind] at h
      exact Or.inl ((Except.error.inj h).symm.trans (number?_fault hy))
    | ok y =>
      have htarget := Scalar.isShort_of_number? hy
      cases hshort : value.isShort with
      | true =>
        obtain ⟨answers, hanswers, -⟩ := exists_answers hx hy htarget hshort
        cases h.symm.trans (hanswers op)
      | false =>
        have hlong := values_long hx hy htarget hshort op
        exact Or.inr ⟨Except.error.inj (h.symm.trans hlong), rfl⟩

end Comparison

/-! ### Rules -/

namespace Rule

/-- The target of a rule, or the value that it finds, is beyond the range. -/
def Exceeds (rule : Rule) (results : Results) : Prop :=
  rule.target.toJson.Exceeds ∨ ∃ value, (Json.obj results).lookupOrNull rule.input =
    .ok value ∧ value.Exceeds

/-- An integer in the value that a rule finds has too many digits to be written. -/
def FindsLong (rule : Rule) (results : Results) : Prop :=
  ∃ value, (Json.obj results).lookupOrNull rule.input = .ok value ∧ value.isShort = false

variable {rule : Rule} {results : Results}

/-- No rule finds such an integer in results that can be written. -/
theorem not_findsLong (hshort : (Json.obj results).isShort = true) : ¬rule.FindsLong results := by
  rintro ⟨value, hlooked, hlong⟩
  cases hlong.symm.trans (Json.isShort_lookupOrNull hlooked hshort)

/-- **A rule over a plain path is decided just if nothing in it is beyond the range or too
long to be written.** -/
theorem holds_answered_iff (hplain : IsPlain rule.input) :
    (∃ b, rule.holds results = .ok b) ↔ ¬rule.Exceeds results ∧ ¬rule.FindsLong results := by
  obtain ⟨value, hlooked⟩ := Json.lookupOrNull_answered_iff.mpr (hplain.not_refuses (.obj results))
  rw [holds_of_looked hlooked, Comparison.values_answered_iff]
  simp only [Exceeds, FindsLong, hlooked, Except.ok.injEq]
  rw [not_or, and_comm (a := ¬value.Exceeds)]
  simp

theorem holds_fault (hplain : IsPlain rule.input) {fault : RuleFault}
    (h : rule.holds results = .error fault) :
    fault = .tooLarge ∨ fault = .text .unwritable ∧ rule.FindsLong results := by
  obtain ⟨value, hlooked⟩ := Json.lookupOrNull_answered_iff.mpr (hplain.not_refuses (.obj results))
  rw [holds_of_looked hlooked] at h
  exact (Comparison.values_fault h).imp_right fun ⟨hfault, hlong⟩ => ⟨hfault, value, hlooked, hlong⟩

end Rule

/-! ### Steps -/

namespace Step

/-- The rules of a step. -/
def rules : Step → List Rule
  | .condition rule => [rule]
  | .logic _ rules => rules
  | _ => []

/-- The decision of a step over some results; a step without rules decides nothing and lets
the run go on. -/
def decision (results : Results) : Step → Except RuleFault Bool
  | .condition rule => rule.holds results
  | .logic mode rules => mode.holds rules results
  | _ => .ok true

variable {s : Step} {results : Results} {c : Context} {client : Http.Client}

/-- **A step over plain paths decides just if none of its rules meets something beyond the
range or too long.** -/
theorem decision_answered_iff (hplain : ∀ rule ∈ s.rules, IsPlain rule.input) :
    (∃ b, s.decision results = .ok b) ↔ ∀ rule ∈ s.rules, ¬rule.Exceeds results ∧
      ¬rule.FindsLong results := by
  cases s with
  | condition rule =>
    rw [decision, Rule.holds_answered_iff (hplain rule (List.mem_singleton_self rule))]
    simp [rules]
  | logic mode rs =>
    have hrules : (∃ b, mode.holds rs results = .ok b) ↔
        ∃ bs, rs.mapM (fun rule : Rule => rule.holds results) = .ok bs := by
      unfold Mode.holds
      cases rs.mapM fun rule : Rule => rule.holds results <;> simp [pure, Except.pure]
    rw [decision, hrules, exists_mapM_eq_ok]
    exact forall₂_congr fun rule hrule => Rule.holds_answered_iff (hplain rule hrule)
  | _ => exact iff_of_true ⟨true, rfl⟩ nofun

theorem decision_fault (hplain : ∀ rule ∈ s.rules, IsPlain rule.input) {fault : RuleFault}
    (h : s.decision results = .error fault) :
    fault = .tooLarge ∨ fault = .text .unwritable ∧ ∃ rule ∈ s.rules, rule.FindsLong results := by
  cases s with
  | condition rule =>
    have hrule := List.mem_singleton_self rule
    exact (Rule.holds_fault (hplain rule hrule) h).imp_right fun ⟨hfault, hlong⟩ =>
      ⟨hfault, rule, hrule, hlong⟩
  | logic mode rs =>
    have hrules : rs.mapM (fun rule : Rule => rule.holds results) = .error fault := by
      rw [decision, Mode.holds] at h
      cases hread : rs.mapM fun rule : Rule => rule.holds results with
      | error e =>
        rw [hread] at h
        exact congrArg _ (Except.error.inj h)
      | ok bs =>
        rw [hread] at h
        cases h
    obtain ⟨rule, hrule, hfail⟩ := exists_of_mapM_eq_error hrules
    exact (Rule.holds_fault (hplain rule hrule) hfail).imp_right fun ⟨hfault, hlong⟩ =>
      ⟨hfault, rule, hrule, hlong⟩
  | _ => cases h

/-- A step that decides comes to its decision and logs it. -/
theorem perform_of_decided (hs : s.decides = true) {b : Bool} (h : s.decision c.results = .ok b) :
    ∃ line, s.perform client c = .done (.ok (.bool b), c.logged line) := by
  cases s with
  | condition rule =>
    have hrule : rule.holds c.results = .ok b := h
    exact ⟨_, show Task.done (performCondition rule c) = _ by rw [performCondition, hrule]⟩
  | logic mode rs =>
    have hrules : mode.holds rs c.results = .ok b := h
    exact ⟨_, show Task.done (performLogic mode rs c) = _ by rw [performLogic, hrules]⟩
  | _ => cases hs

theorem perform_of_refused (hs : s.decides = true) {fault : RuleFault}
    (h : s.decision c.results = .error fault) :
    s.perform client c = .done (.error (.rule fault), c) := by
  cases s with
  | condition rule =>
    have hrule : rule.holds c.results = .error fault := h
    show Task.done (performCondition rule c) = _
    rw [performCondition, hrule]
  | logic mode rs =>
    have hrules : mode.holds rs c.results = .error fault := h
    show Task.done (performLogic mode rs c) = _
    rw [performLogic, hrules]
  | _ => cases hs

/-- **What becomes of a run at a step that decides over plain paths.** A rule is decided
just if neither its target nor the value that it finds is an integer beyond the range of
floating-point numbers, nor one in this value too long to be written. If some rule of the
step meets one, the run fails with the step; otherwise the step decides, and the run ends
there in success or goes on. What a run fetches was read, so a run that begins without
integers that are too long never meets one. -/
theorem decision_reached (hs : s.decides = true) (hplain : ∀ rule ∈ s.rules, IsPlain rule.input)
    (client : Http.Client) (xs ys : List Step) (c : Context) (w : Surroundings) :
    (∀ rule ∈ s.rules, ∀ results,
      (∃ b, rule.holds results = .ok b) ↔ ¬rule.Exceeds results ∧ ¬rule.FindsLong results) ∧
    let first := ((runSteps client xs c).run w).1
    let e := ((runSteps client (xs ++ s :: ys) c).run w).1
    ((Json.obj c.results).isShort = true →
      ∀ rule ∈ s.rules, ¬rule.FindsLong first.context.results) ∧
    (¬first.Stopped xs →
      ((∃ rule ∈ s.rules, rule.Exceeds first.context.results ∨
        rule.FindsLong first.context.results) → e.success = false ∧ ∃ fault time,
          e.outcomes = first.outcomes ++
            [⟨s.label, .null, some (StepFault.rule fault).message, time⟩] ∧
          (fault = .tooLarge ∨ fault = .text .unwritable ∧
            ∃ rule ∈ s.rules, rule.FindsLong first.context.results)) ∧
      ((∃ rule ∈ s.rules, rule.Exceeds first.context.results) →
        (∀ rule ∈ s.rules, ¬rule.FindsLong first.context.results) → ∃ time,
          e.outcomes = first.outcomes ++
            [⟨s.label, .null, some "int too large to convert to float", time⟩]) ∧
      ((∀ rule ∈ s.rules, ¬rule.Exceeds first.context.results ∧
        ¬rule.FindsLong first.context.results) →
        ∃ b, s.decision first.context.results = .ok b ∧
          (b = false → e.success = true ∧ ∃ time,
            e.outcomes = first.outcomes ++ [⟨s.label, .bool false, none, time⟩]) ∧
          (b = true → ∃ line time w', e =
            ((runSteps client ys (first.context.logged line)).run w').1.after
            (first.outcomes ++ [⟨s.label, .bool true, none, time⟩])))) := by
  refine ⟨fun rule hrule results => Rule.holds_answered_iff (hplain rule hrule), ?_⟩
  intro first e
  refine ⟨fun hshort rule _ => Rule.not_findsLong (runSteps_short client xs hshort w),
    fun hreached => ?_⟩
  have hproceeds : Execution.Proceeds client s ys first.outcomes _ e :=
    runSteps_reached client s xs ys c w hreached
  have hfails (hmeets : ∃ rule ∈ s.rules,
      rule.Exceeds first.context.results ∨ rule.FindsLong first.context.results) :
      e.success = false ∧ ∃ fault time,
        e.outcomes = first.outcomes ++
          [⟨s.label, .null, some (StepFault.rule fault).message, time⟩] ∧
        (fault = .tooLarge ∨ fault = .text .unwritable ∧
          ∃ rule ∈ s.rules, rule.FindsLong first.context.results) := by
    obtain ⟨rule, hrule, hmeets⟩ := hmeets
    cases hdecision : s.decision first.context.results with
    | ok b =>
      obtain ⟨hrange, hlong⟩ := (decision_answered_iff hplain).mp ⟨b, hdecision⟩ rule hrule
      exact (hmeets.elim hrange hlong).elim
    | error fault =>
      rw [perform_of_refused hs hdecision] at hproceeds
      obtain ⟨hsuccess, time, houtcomes⟩ := hproceeds.of_error
      exact ⟨hsuccess, fault, time, houtcomes, decision_fault hplain hdecision⟩
  refine ⟨hfails, fun ⟨rule, hrule, hexceeds⟩ hshort => ?_, fun hin => ?_⟩
  · obtain ⟨-, fault, time, houtcomes, rfl | ⟨-, other, hother, hlong⟩⟩ :=
      hfails ⟨rule, hrule, Or.inl hexceeds⟩
    · exact ⟨time, houtcomes⟩
    · exact absurd hlong (hshort other hother)
  · obtain ⟨b, hb⟩ := (decision_answered_iff hplain).mpr hin
    obtain ⟨line, hline⟩ : ∃ line, s.perform client first.context =
        .done (.ok (.bool b), first.context.logged line) :=
      perform_of_decided hs hb
    rw [hline] at hproceeds
    refine ⟨b, hb, ?_, ?_⟩
    · rintro rfl
      exact hproceeds.of_stop fun h => stopLine?_eq_none_iff.mp h ⟨hs, rfl⟩
    · rintro rfl
      obtain ⟨time, w', he⟩ := hproceeds.of_pass (stopLine?_eq_none_iff.mpr fun h => nomatch h.2)
      exact ⟨line, time, w', he⟩

/-- A run that fails with a condition, as the value that it finds is beyond the range. -/
theorem decision_reached_large :
    ((runSteps ⟨false, 0, false⟩ [.condition ⟨"x", .gt, .int 5⟩]
      ⟨[("x", .int ((2 ^ maxDigits : Nat) : Int))], [], []⟩).run
      (.start ⟨0⟩ (fun _ _ => ⟨0, .ok ⟨200, [], []⟩⟩) fun _ => "run")).1.success = false := by
  have hplain : ∀ rule ∈ rules (.condition ⟨"x", .gt, .int 5⟩), IsPlain rule.input := by
    intro rule hrule
    rw [List.mem_singleton.mp hrule]
    show ∀ segment ∈ [['x']], segment ≠ [] ∧ ∀ c ∈ segment, Text.isDigitSign c = false
    exact List.forall_mem_singleton.mpr ⟨List.cons_ne_nil _ _,
      List.forall_mem_singleton.mpr (by decide +kernel)⟩
  have hlarge : floatBound ≤ ((2 ^ maxDigits : Nat) : Int).natAbs := Nat.sub_le _ _
  have hlooked (v : Json) : (Json.obj [("x", v)]).lookupOrNull "x" = .ok v := rfl
  have hexceeds : (Rule.mk "x" .gt (.int 5)).Exceeds [("x", .int ((2 ^ maxDigits : Nat) : Int))] :=
    Or.inr ⟨_, hlooked _, _, rfl, hlarge⟩
  exact (((decision_reached rfl hplain _ [] []
    ⟨[("x", .int ((2 ^ maxDigits : Nat) : Int))], [], []⟩ _).2.2
    (Execution.not_stopped_nil _)).1 ⟨_, List.mem_singleton_self _, Or.inl hexceeds⟩).1

end Step

end Cadence
