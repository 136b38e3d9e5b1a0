/-
The rules for a flow as a whole.

No two fetches have the same id, a webhook has a payload, and any other notification a
message.  The steps of a flow are checked one after the other against the ids of the fetches
so far, and the first step that breaks a rule is reported.

* `InOrder` — steps that keep the rules, said of all of them at once;
* `Step.Breaks` — what one step breaks after the steps before it;
* `inOrder_append_singleton` — steps are in order up to a step if they are before it and it
  breaks nothing;
* `stepsBreach?_cases` — the check goes through for steps in order, and stops at the first
  step that breaks a rule;
* `Flow.KeepsRules`, `Flow.FirstBreach` — the same for flows, whose names must give ids;
* `Flow.ofDocument_of_ofEntries` — what becomes of a document whose fields and steps are
  valid one by one.
-/
import Cadence.Proofs.Flow.Accepted
import Mathlib.Order.Bounds.Defs

namespace Cadence

open Validation

/-! ### The rules -/

/-- A text that is there and is not blank. -/
def IsFilled (s : Option String) : Prop := ∃ t, s = some t ∧ ∃ c ∈ t.toList, Text.isBlank c = false

/-- Steps that keep the rules for a flow as a whole. -/
structure InOrder (steps : List Step) : Prop where
  fetches : (steps.filterMap Step.fetchId?).Nodup
  payload : ∀ n, Step.notify n ∈ steps → n.channel = .webhook → IsFilled n.payload
  message : ∀ n, Step.notify n ∈ steps → n.channel ≠ .webhook → IsFilled n.message

/-- What a step with a number breaks after the steps before it. -/
inductive Step.Breaks (before : List Step) (index : Nat) : Step → Breach → Prop
  | repeatedFetch {f : Fetch} : f.id ∈ before.filterMap Step.fetchId? →
      Breaks before index (.fetch f) (.repeatedFetch index f.id)
  | noPayload {n : Notice} : n.channel = .webhook → ¬ IsFilled n.payload →
      Breaks before index (.notify n) (.noPayload index)
  | noMessage {n : Notice} : n.channel ≠ .webhook → ¬ IsFilled n.message →
      Breaks before index (.notify n) (.noMessage index)

theorem isBlankText_iff {s : Option String} : isBlankText s = true ↔ ¬ IsFilled s := by
  cases s with
  | none => simp [isBlankText, IsFilled]
  | some t => simp [isBlankText, IsFilled, Text.isAllBlank]

theorem inOrder_nil : InOrder [] := ⟨List.nodup_nil, nofun, nofun⟩

/-- Steps in order are in order up to each of them. -/
theorem InOrder.of_append {before after : List Step}
    (h : InOrder (before ++ after)) : InOrder before where
  fetches := by
    have hall := h.fetches
    rw [List.filterMap_append] at hall
    exact (List.nodup_append.mp hall).1
  payload := fun n hn => h.payload n (List.mem_append_left _ hn)
  message := fun n hn => h.message n (List.mem_append_left _ hn)

theorem InOrder.take {steps : List Step} (h : InOrder steps) (k : Nat) :
    InOrder (steps.take k) := by
  rw [← List.take_append_drop k steps] at h
  exact h.of_append

/-- **Steps are in order up to a step if they are before it and it breaks nothing.** -/
theorem inOrder_append_singleton {before : List Step} {s : Step} (index : Nat) :
    InOrder (before ++ [s]) ↔ InOrder before ∧ ∀ b, ¬ s.Breaks before index b := by
  have hlast : s ∈ before ++ [s] := List.mem_append_right _ List.mem_cons_self
  have hids : (before ++ [s]).filterMap Step.fetchId? =
      before.filterMap Step.fetchId? ++ [s].filterMap Step.fetchId? := List.filterMap_append
  constructor
  · intro h
    refine ⟨h.of_append, fun b hb => ?_⟩
    cases hb with
    | @repeatedFetch f hmem =>
      have hall := h.fetches
      rw [hids] at hall
      exact (List.nodup_append.mp hall).2.2 f.id hmem f.id List.mem_cons_self rfl
    | noPayload hchannel hempty => exact hempty (h.payload _ hlast hchannel)
    | noMessage hchannel hempty => exact hempty (h.message _ hlast hchannel)
  · rintro ⟨h, hb⟩
    have hcases {n : Notice} (hn : Step.notify n ∈ before ++ [s]) : Step.notify n ∈ before ∨
        s = .notify n := by
      rcases List.mem_append.mp hn with hn | hn
      · exact Or.inl hn
      · exact Or.inr (List.mem_singleton.mp hn).symm
    refine ⟨?_, fun n hn hchannel => ?_, fun n hn hchannel => ?_⟩
    · rw [hids]
      cases s with
      | fetch f =>
        have hnew : f.id ∉ before.filterMap Step.fetchId? := fun hmem => hb _ (.repeatedFetch hmem)
        refine List.nodup_append.mpr ⟨h.fetches, List.pairwise_singleton _ _, ?_⟩
        rintro id hid id' hid' rfl
        obtain rfl : id = f.id := List.mem_singleton.mp hid'
        exact hnew hid
      | _ => exact (List.append_nil _).symm ▸ h.fetches
    · rcases hcases hn with hn | rfl
      · exact h.payload n hn hchannel
      · by_contra hempty
        exact hb _ (.noPayload hchannel hempty)
    · rcases hcases hn with hn | rfl
      · exact h.message n hn hchannel
      · by_contra hempty
        exact hb _ (.noMessage hchannel hempty)

/-! ### The check of the steps -/

/-- The check of one step finds what it breaks, if it knows the ids of the fetches before it. -/
theorem Step.breach?_eq_some {before : List Step} {ids : List String}
    (hids : ∀ id, id ∈ ids ↔ id ∈ before.filterMap Step.fetchId?) {index : Nat} {s : Step}
    {b : Breach} :
    s.breach? ids index = some b ↔ s.Breaks before index b := by
  constructor
  · intro h
    cases s with
    | fetch f =>
      obtain ⟨hmem, heq⟩ := Option.ite_none_right_eq_some.mp h
      obtain rfl := Option.some.inj heq
      exact .repeatedFetch ((hids f.id).mp (List.contains_iff_mem.mp hmem))
    | notify n =>
      rw [Step.breach?] at h
      split at h
      next hchannel =>
        obtain ⟨hempty, heq⟩ := Option.ite_none_right_eq_some.mp h
        obtain rfl := Option.some.inj heq
        exact .noPayload hchannel (isBlankText_iff.mp hempty)
      next hchannel =>
        obtain ⟨hempty, heq⟩ := Option.ite_none_right_eq_some.mp h
        obtain rfl := Option.some.inj heq
        exact .noMessage hchannel (isBlankText_iff.mp hempty)
    | _ => cases h
  · intro h
    cases h with
    | @repeatedFetch f hmem => exact if_pos (List.contains_iff_mem.mpr ((hids f.id).mpr hmem))
    | @noPayload n hchannel hempty =>
      rw [Step.breach?, hchannel]
      exact if_pos (isBlankText_iff.mpr hempty)
    | @noMessage n hchannel hempty =>
      rw [Step.breach?]
      split
      next hwebhook => exact absurd hwebhook hchannel
      next => exact if_pos (isBlankText_iff.mpr hempty)

/-- **The check of the steps goes through if all of them are in order, and otherwise finds
what the first step breaks that breaks a rule.** -/
theorem stepsBreach?_cases {before : List Step} {ids : List String}
    (hids : ∀ id, id ∈ ids ↔ id ∈ before.filterMap Step.fetchId?) (hbefore : InOrder before)
    (rest : List Step) :
    (stepsBreach? ids before.length rest = none ∧ InOrder (before ++ rest)) ∨
      ∃ first s after b, rest = first ++ s :: after ∧ stepsBreach? ids before.length rest = some b ∧
        InOrder (before ++ first) ∧ s.Breaks (before ++ first) (before ++ first).length b := by
  induction rest generalizing before ids with
  | nil => exact Or.inl ⟨rfl, by rwa [List.append_nil]⟩
  | cons s rest ih =>
    cases hs : s.breach? ids before.length with
    | some b =>
      refine Or.inr ⟨[], s, rest, b, rfl, by rw [stepsBreach?, hs]; rfl, ?_, ?_⟩
      · rwa [List.append_nil]
      · rw [List.append_nil]
        exact (Step.breach?_eq_some hids).mp hs
    | none =>
      have hstep : InOrder (before ++ [s]) := by
        refine (inOrder_append_singleton before.length).mpr ⟨hbefore, fun b hb => ?_⟩
        rw [(Step.breach?_eq_some hids).mpr hb] at hs
        cases hs
      have hids' : ∀ id, id ∈ s.fetchId?.toList ++ ids ↔
          id ∈ (before ++ [s]).filterMap Step.fetchId? := by
        intro id
        have hlast : [s].filterMap Step.fetchId? = s.fetchId?.toList := by
          cases s <;> rfl
        rw [List.filterMap_append, hlast, List.mem_append, List.mem_append, hids, or_comm]
      have hrest : stepsBreach? ids before.length (s :: rest) =
          stepsBreach? (s.fetchId?.toList ++ ids) (before ++ [s]).length rest := by
        rw [stepsBreach?, hs, List.length_append]
        rfl
      rw [hrest]
      rcases ih hids' hstep
        with ⟨hnone, horder⟩ | ⟨first, s', after, b, rfl, hsome, horder, hbreaks⟩
      · exact Or.inl ⟨hnone, by rwa [← List.append_cons] at horder⟩
      · rw [← List.append_cons] at horder hbreaks
        exact Or.inr ⟨s :: first, s', after, b, rfl, hsome, horder, hbreaks⟩

/-! ### Flows -/

namespace Flow

/-- A flow whose name gives an id and whose steps are in order. -/
structure KeepsRules (f : Flow) : Prop where
  id : f.id ≠ ""
  steps : InOrder f.steps

/-- The first thing that a flow breaks: that its name gives no id, or else what the step
breaks that has the smallest number up to which the steps are not in order. -/
def FirstBreach (f : Flow) (b : Breach) : Prop :=
  (f.id = "" ∧ b = .noId f.name) ∨
    (f.id ≠ "" ∧ ∃ index s, f.steps[index]? = some s ∧
      IsLeast {k | ¬ InOrder (f.steps.take (k + 1))} index ∧ s.Breaks (f.steps.take index) index b)

variable {f : Flow} {b : Breach}

/-- A step that breaks a rule after steps in order is the first one up to which they are not
in order. -/
theorem isLeast_length {first after : List Step} {s : Step} (hfirst : InOrder first)
    (hb : s.Breaks first first.length b) :
    IsLeast {k | ¬ InOrder ((first ++ s :: after).take (k + 1))} first.length := by
  constructor
  · show ¬ InOrder _
    rw [List.append_cons, List.take_left' (by rw [List.length_append]; rfl),
      inOrder_append_singleton first.length]
    exact fun ⟨_, hnone⟩ => hnone b hb
  · intro k hk
    by_contra hlt
    refine hk ?_
    rw [List.take_append_of_le_length (by omega)]
    exact hfirst.take (k + 1)

/-- **The check of a flow as a whole goes through if it keeps the rules, and otherwise finds
its first breach.** -/
theorem breach?_cases (f : Flow) :
    (f.breach? = none ∧ f.KeepsRules) ∨ ∃ b, f.breach? = some b ∧ f.FirstBreach b := by
  unfold breach?
  by_cases hid : f.id = ""
  · rw [if_pos (String.isEmpty_iff.mpr hid)]
    exact Or.inr ⟨_, rfl, Or.inl ⟨hid, rfl⟩⟩
  · rw [if_neg (fun h => hid (String.isEmpty_iff.mp h))]
    have hids : ∀ id, id ∈ ([] : List String) ↔
        id ∈ ([] : List Step).filterMap Step.fetchId? := fun _ => Iff.rfl
    rcases stepsBreach?_cases hids inOrder_nil f.steps with ⟨hnone, horder⟩ |
      ⟨first, s, after, b, hsteps, hsome, horder, hb⟩
    · exact Or.inl ⟨hnone, hid, horder⟩
    · refine Or.inr ⟨b, hsome, Or.inr ⟨hid, first.length, s, ?_, ?_, ?_⟩⟩
      · rw [hsteps, List.getElem?_append_right (Nat.le_refl _), Nat.sub_self]
        rfl
      · rw [hsteps]
        exact isLeast_length horder hb
      · rw [hsteps, List.take_left]
        exact hb

theorem FirstBreach.not_keepsRules (h : f.FirstBreach b) : ¬ f.KeepsRules := by
  intro hf
  rcases h with ⟨hid, _⟩ | ⟨_, index, s, hs, hleast, _⟩
  · exact hf.id hid
  · exact hleast.1 (hf.steps.take (index + 1))

/-- **What becomes of a document whose fields and steps are valid one by one.** -/
theorem ofDocument_of_ofEntries {es : List (Document × Document)} (hf : Flow.ofEntries es = .ok f) :
    (f.KeepsRules ∧ Flow.ofDocument (.map es) = .ok f) ∨
      ∃ b, f.FirstBreach b ∧ Flow.ofDocument (.map es) = .error [⟨[], .broken b.message⟩] := by
  have hdocument : Flow.ofDocument (.map es) = f.checked := by
    rw [Flow.ofDocument, entriesOr, ok_bind, hf, ok_bind]
  rw [hdocument, checked]
  rcases f.breach?_cases with ⟨hnone, hkeeps⟩ | ⟨b, hsome, hb⟩
  · rw [hnone]
    exact Or.inl ⟨hkeeps, rfl⟩
  · rw [hsome]
    exact Or.inr ⟨b, hb, rfl⟩

/-- A well-formed flow keeps the rules. -/
theorem WellFormed.keepsRules (h : f.WellFormed) : f.KeepsRules := by
  rcases f.breach?_cases with ⟨_, hkeeps⟩ | ⟨b, hsome, _⟩
  · exact hkeeps
  · cases h.breach.symm.trans hsome

end Flow

end Cadence
