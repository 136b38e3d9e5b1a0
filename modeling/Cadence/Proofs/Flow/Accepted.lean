/-
What the flow of an accepted document is like.

A check that succeeds hands its value on, so what the checks of the fields ensure holds of
the flow as a whole.

* `Checked.apply_ok`, `Checked.within_ok`, `Checked.each_ok`, `fieldOr_ok` — checks that
  succeed, taken apart;
* `Step.wellFormed_of_ofDocument` — a step that is read out of a document is well-formed;
* `Flow.wellFormed_of_ofDocument` — and so is a flow.
-/
import Cadence.Proofs.Flow.Reading

namespace Cadence.Validation

/-! ### Checks that succeed -/

variable {α β : Type} {es : List (Document × Document)} {check : Document → Checked α}
  {d : Document} {a : α}

theorem Checked.apply_ok {f : Checked (α → β)} {c : Checked α} {b : β} :
    apply f c = .ok b ↔ ∃ g, f = .ok g ∧ ∃ a, c = .ok a ∧ g a = b := by
  cases f <;> cases c <;> simp [apply]

theorem Checked.within_ok {p : Place} {c : Checked α} : within p c = .ok a ↔ c = .ok a := by
  cases c <;> simp [within, Except.mapError]

theorem Checked.each_ok {check : α → Checked β} {i : Int} {xs : List α} {ys : List β}
    (h : each check i xs = .ok ys) : ∀ y ∈ ys, ∃ x, check x = .ok y := by
  induction xs generalizing i ys with
  | nil =>
    cases h
    exact nofun
  | cons x xs ih =>
    obtain ⟨g, hg, rest, hrest, rfl⟩ := apply_ok.mp h
    cases hx : check x with
    | error e =>
      rw [hx] at hg
      cases hg
    | ok b =>
      rw [hx] at hg
      cases hg
      exact List.forall_mem_cons.mpr ⟨⟨x, hx⟩, ih hrest⟩

theorem fieldOr_ok {names : List String} {absent : Checked α}
    (h : fieldOr names absent check es = .ok a) :
    absent = .ok a ∨ ∃ d, check d = .ok a := by
  unfold fieldOr at h
  split at h
  · exact .inr ⟨_, Checked.within_ok.mp h⟩
  · exact .inl (Checked.within_ok.mp h)

theorem required_ok {name : String} (h : required name check es = .ok a) : ∃ d, check d = .ok a :=
  (fieldOr_ok h).resolve_left nofun

theorem withDefault_ok {name : String} {default : α}
    (h : withDefault name default check es = .ok a) :
    default = a ∨ ∃ d, check d = .ok a :=
  (fieldOr_ok h).imp_left Except.ok.inj

theorem optional_ok (h : optional check d = .ok (some a)) : check d = .ok a := by
  unfold optional at h
  split at h
  · cases h
  · cases hd : check d with
    | error e =>
      rw [hd] at h
      cases h
    | ok b =>
      rw [hd] at h
      cases h
      rfl

theorem listOf_ok {as : List α} (h : listOf check d = .ok as) : ∀ a ∈ as, ∃ d, check d = .ok a := by
  unfold listOf at h
  split at h
  · exact Checked.each_ok h
  · cases h

theorem nonEmptyText_ok {s : String} (h : nonEmptyText d = .ok s) : s ≠ "" := by
  obtain ⟨s', _, h⟩ := bind_eq_ok.mp h
  split at h
  · cases h
  next hne =>
    cases h
    rwa [String.isEmpty_iff] at hne

theorem positiveInteger_ok {n : Nat} (h : positiveInteger d = .ok n) : 0 < n := by
  obtain ⟨i, _, h⟩ := bind_eq_ok.mp h
  split at h
  · cases h
    omega
  · cases h

theorem textMapping_ok {hs : List (String × String)} (h : textMapping d = .ok hs) :
    (names hs).Nodup := by
  unfold textMapping at h
  split at h
  · obtain ⟨entries, _, rfl⟩ := map_eq_ok.mp h
    exact nodup_collected entries
  · cases h

end Cadence.Validation

namespace Cadence

open Validation

/-! ### Steps and flows -/

variable {es : List (Document × Document)} {d : Document}

theorem Fetch.wellFormed_of_ofEntries {f : Fetch}
    (h : Fetch.ofEntries es = .ok f) : f.WellFormed := by
  simp only [Fetch.ofEntries, Checked.apply_ok] at h
  obtain ⟨_, ⟨_, ⟨_, ⟨_, ⟨_, ⟨make, hmake, id, hid, rfl⟩, url, _, rfl⟩, method, _, rfl⟩,
    headers, hheaders, rfl⟩, body, _, rfl⟩, timeout, htimeout, rfl⟩ := h
  cases hmake
  obtain ⟨_, hid⟩ := required_ok hid
  refine ⟨nonEmptyText_ok hid, ?_, ?_⟩
  · rintro hs rfl
    rcases withDefault_ok hheaders with hnone | ⟨_, hheaders⟩
    · cases hnone
    · exact textMapping_ok (optional_ok hheaders)
  · rintro n rfl
    rcases fieldOr_ok htimeout with hnone | ⟨_, htimeout⟩
    · cases hnone
    · exact positiveInteger_ok (optional_ok htimeout)

theorem noticeUrl_ok {url : String} (h : noticeUrl d = .ok url) :
    (Text.startsWith url "http://" || Text.startsWith url "https://") = true := by
  obtain ⟨url', _, h⟩ := bind_eq_ok.mp h
  split at h
  next habsolute =>
    cases h
    exact habsolute
  · cases h

theorem Notice.wellFormed_of_ofEntries {n : Notice}
    (h : Notice.ofEntries es = .ok n) : n.WellFormed := by
  simp only [Notice.ofEntries, Checked.apply_ok] at h
  obtain ⟨_, ⟨_, ⟨_, ⟨_, ⟨make, hmake, channel, _, rfl⟩, url, hurl, rfl⟩, message, _, rfl⟩,
    payload, _, rfl⟩, attached, _, rfl⟩ := h
  cases hmake
  obtain ⟨_, hurl⟩ := required_ok hurl
  exact noticeUrl_ok hurl

theorem Step.wellFormed_of_ofEntries {tag : String} {c : Checked Step}
    (htag : Step.ofEntries tag es = some c) {s : Step} (h : c = .ok s) : s.WellFormed := by
  unfold Step.ofEntries at htag
  split at htag
  · cases htag
    obtain ⟨f, hf, rfl⟩ := map_eq_ok.mp h
    exact Fetch.wellFormed_of_ofEntries hf
  · cases htag
    obtain ⟨_, _, rfl⟩ := map_eq_ok.mp h
    exact True.intro
  · cases htag
    obtain ⟨_, _, rfl⟩ := map_eq_ok.mp h
    exact True.intro
  · cases htag
    simp only [Checked.apply_ok] at h
    obtain ⟨_, ⟨_, hmake, mode, _, rfl⟩, rules, _, rfl⟩ := h
    cases hmake
    exact True.intro
  · cases htag
    simp only [Checked.apply_ok] at h
    obtain ⟨_, ⟨_, hmake, message, _, rfl⟩, attached, _, rfl⟩ := h
    cases hmake
    exact True.intro
  · cases htag
    obtain ⟨n, hn, rfl⟩ := map_eq_ok.mp h
    exact Notice.wellFormed_of_ofEntries hn
  · cases htag

/-- **A step that is read out of a document is well-formed.** -/
theorem Step.wellFormed_of_ofDocument {s : Step}
    (h : Step.ofDocument d = .ok s) : s.WellFormed := by
  obtain ⟨es, _, h⟩ := bind_eq_ok.mp h
  split at h
  · cases h
  · split at h
    next htag => exact Step.wellFormed_of_ofEntries htag (Checked.within_ok.mp h)
    · cases h
  · cases h

theorem Flow.checked_ok {f f' : Flow} (h : f.checked = .ok f') : f = f' ∧ f.breach? = none := by
  unfold Flow.checked at h
  split at h
  · cases h
  next hbreach => exact ⟨Except.ok.inj h, hbreach⟩

/-- **A flow that is read out of a document is well-formed.** -/
theorem Flow.wellFormed_of_ofDocument {f : Flow}
    (h : Flow.ofDocument d = .ok f) : f.WellFormed := by
  obtain ⟨es, _, h⟩ := bind_eq_ok.mp h
  obtain ⟨f', hf, h⟩ := bind_eq_ok.mp h
  obtain ⟨rfl, hbreach⟩ := Flow.checked_ok h
  simp only [Flow.ofEntries, Checked.apply_ok] at hf
  obtain ⟨_, ⟨_, ⟨_, ⟨make, hmake, name, hname, rfl⟩, schedule, _, rfl⟩, enabled, _, rfl⟩,
      steps, hsteps, rfl⟩ := hf
  cases hmake
  obtain ⟨_, hname⟩ := required_ok hname
  refine ⟨nonEmptyText_ok hname, fun s hs => ?_, hbreach⟩
  rcases withDefault_ok hsteps with rfl | ⟨_, hsteps⟩
  · cases hs
  · obtain ⟨_, hs⟩ := listOf_ok hsteps s hs
    exact Step.wellFormed_of_ofDocument hs

end Cadence
