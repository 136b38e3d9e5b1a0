/-
Flows that keep the rules, in documents and in stores.

* `Operation.IsAccepted` — a request whose flow was read out of a document;
* `Flow.accepted_iff_keepsRules` — a document whose fields and steps are valid one by one is
  accepted just if the flow keeps the rules for a flow as a whole, and is refused with its
  first breach otherwise; and every flow in a store that was asked with accepted flows keeps
  the rules.
-/
import Cadence.Proofs.Flow.Rules
import Cadence.Proofs.Store.Following

namespace Cadence

open Calendar Validation

/-- A request whose flow was read out of a document, or whose record is well-formed. -/
def Operation.IsAccepted : Operation → Prop
  | .create f => ∃ d, Flow.ofDocument d = .ok f
  | .revise _ f => ∃ d, Flow.ofDocument d = .ok f
  | .append run => run.WellFormed
  | _ => True

theorem Operation.IsAccepted.wellFormed {op : Operation} (h : op.IsAccepted) : op.WellFormed := by
  cases op with
  | create f =>
    obtain ⟨d, hd⟩ := h
    exact Flow.wellFormed_of_ofDocument hd
  | revise id f =>
    obtain ⟨d, hd⟩ := h
    exact Flow.wellFormed_of_ofDocument hd
  | append run => exact h
  | _ => trivial

/-- All flows of a sound memory keep the rules. -/
theorem Memory.Sound.keepsRules {m : Memory} (h : m.Sound) {id : String} {r : StoredFlow}
    (hr : m.flows.lookup id = some r) : r.definition.KeepsRules :=
  (h.flow id r hr).wellFormed.definition.keepsRules

/-- **A flow is accepted if it keeps the rules, and is refused with its first breach
otherwise; and all stored flows keep the rules.** -/
theorem Flow.accepted_iff_keepsRules :
    (∀ es f, Flow.ofEntries es = .ok f →
      ((∃ g, Flow.ofDocument (.map es) = .ok g) ↔ f.KeepsRules) ∧
      (f.KeepsRules → Flow.ofDocument (.map es) = .ok f) ∧
      (¬ f.KeepsRules →
        ∃ b, f.FirstBreach b ∧ Flow.ofDocument (.map es) = .error [⟨[], .broken b.message⟩])) ∧
    ∀ (codec : Codec) (kept : Nat) (asked : List (Moment × Operation)),
      (∀ q ∈ asked, q.1.WellFormed ∧ q.2.IsAccepted) →
      ∀ s₀, s₀ = .memory (.empty kept) ∨ s₀ = .table (.empty codec kept) →
        let s := (Store.run s₀ asked).2
        (∃ m : Memory, s.Holds m ∧ ∀ id r, m.flows.lookup id = some r → r.definition.KeepsRules) ∧
        (∀ now id r, (s.apply now (.find id)).1 = .ok (.flow r) → r.definition.KeepsRules) ∧
        ∀ now rs, (s.apply now .all).1 = .ok (.flows rs) → ∀ r ∈ rs, r.definition.KeepsRules := by
  constructor
  · intro es f hf
    rcases Flow.ofDocument_of_ofEntries hf with ⟨hkeeps, hok⟩ | ⟨b, hb, herror⟩
    · exact ⟨iff_of_true ⟨f, hok⟩ hkeeps, fun _ => hok, fun hnot => absurd hkeeps hnot⟩
    · refine ⟨iff_of_false ?_ hb.not_keepsRules, fun hkeeps =>
        absurd hkeeps hb.not_keepsRules, fun _ => ⟨b, hb, herror⟩⟩
      rintro ⟨g, hg⟩
      cases herror.symm.trans hg
  · intro codec kept asked hasked s₀ hs₀ s
    obtain ⟨m, hm, hsound, _⟩ := (Store.holds_empty hs₀).run (Memory.empty_sound kept)
      (fun q hq => ⟨(hasked q hq).1, (hasked q hq).2.wellFormed⟩)
    refine ⟨⟨m, hm, fun id r hr => hsound.keepsRules hr⟩, fun now id r hr => ?_,
      fun now rs hrs r hr => ?_⟩
    · exact hsound.keepsRules ((hm.find_iff hsound).mp hr).1
    · obtain ⟨fs, hfs, hperm⟩ := hm.all_ok hsound hrs
      obtain rfl := Answer.flows.inj hfs
      exact hsound.keepsRules (Memory.lookup_of_mem hsound (hperm.mem_iff.mp hr))

/-- Two fetches with one id, and a webhook with a payload between them: the document is
refused for its last step.  Without that step it is accepted, and keeps the rules when it is
stored. -/
theorem Flow.accepted_iff_keepsRules_twoFetches :
    let fetch : Document :=
      .map [(.str "type", .str "fetch"), (.str "id", .str "x"),
        (.str "url", .str "http://h/")]
    let hook : Document := .map [(.str "type", .str "notify"), (.str "method", .str "webhook"),
      (.str "url", .str "http://h/"), (.str "rawPayload", .str "[]")]
    let document (steps : List Document) : List (Document × Document) :=
      [(.str "name", .str "A"), (.str "schedule", .str ""), (.str "steps", .seq steps)]
    let step : Step := .fetch ⟨"x", "http://h/", .get, none, none, none⟩
    let notice : Step := .notify ⟨.webhook, "http://h/", none, some "[]", none⟩
    let now : Moment := Instant.toMoment ⟨63000000000000000⟩
    let accepted : Flow := ⟨"A", "", true, [step, notice]⟩
    let asked : List (Moment × Operation) := [(now, .create accepted)]
    let broken : Flow := ⟨"A", "", true, [step, notice, step]⟩
    let store := ((Store.memory (.empty (2 : Nat))).run asked).2
    Flow.ofEntries (document [fetch, hook, fetch]) = .ok broken ∧ ¬ broken.KeepsRules ∧
      (∃ b, broken.FirstBreach b ∧
        b.message = "steps[2]: duplicate fetch id \"x\". Each fetch step must have a unique id.") ∧
      (∀ q ∈ asked, q.1.WellFormed ∧ q.2.IsAccepted) ∧
      (store.apply now .all).1 = .ok (.flows [.new accepted now]) ∧ accepted.KeepsRules := by
  intro fetch hook document step notice now accepted asked broken store
  obtain ⟨haccepted, hstores⟩ := Flow.accepted_iff_keepsRules
  have hentries : Flow.ofEntries (document [fetch, hook, fetch]) = .ok broken := by rfl
  have hbroken : ¬ broken.KeepsRules := fun h => absurd h.steps.fetches (by decide)
  have hok : Flow.ofDocument (.map (document [fetch, hook])) = .ok accepted := by rfl
  have hmessage : Flow.ofDocument (.map (document [fetch, hook, fetch])) = .error [⟨[], .broken
      "steps[2]: duplicate fetch id \"x\". Each fetch step must have a unique id."⟩] := by rfl
  have hnow : now.WellFormed := Instant.toMoment_wellFormed (by decide)
  have hasked : ∀ q ∈ asked, q.1.WellFormed ∧ q.2.IsAccepted := by
    intro q hq
    rw [List.mem_singleton.mp hq]
    exact ⟨hnow, _, hok⟩
  refine ⟨hentries, hbroken, ?_, hasked, ?_⟩
  · obtain ⟨b, hb, herror⟩ := (haccepted _ _ hentries).2.2 hbroken
    rw [hmessage] at herror
    simp only [Except.error.injEq, List.cons.injEq, Issue.mk.injEq, Defect.broken.injEq] at herror
    exact ⟨b, hb, herror.1.2.symm⟩
  · have hall : (store.apply now .all).1 = .ok (.flows [.new accepted now]) := by rfl
    exact ⟨hall, (hstores default 2 asked hasked _ (Or.inl rfl)).2.2 now _ hall _
      List.mem_cons_self⟩

end Cadence
