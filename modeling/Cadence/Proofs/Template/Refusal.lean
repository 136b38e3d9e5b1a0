/-
Paths that are refused.

Where an item of an array is due, a segment of digit signs is read as a number.  If it
cannot be read as one, the path is not a dead end but refused, and with it every text that
has a placeholder with this path.  So is a text with a placeholder for a value that cannot
be written.

* `Unreadable` — segments of digit signs that write no number, or one with too many digits;
* `Json.Blocks`, `Json.follow_refused_iff` — the rows of segments that lead to such a
  segment at an array;
* `Json.lookup_answered_iff` — a lookup is answered just if its path is not refused;
* `IsPlain.not_refuses` — paths without digits are never refused;
* `Json.Unshown` — there is no text for what is at a path;
* **`interpolate_answered_iff`** — the templates whose text can be produced.
-/
import Cadence.Proofs.Decimal.Numeral
import Cadence.Proofs.Template.Pieces

namespace Cadence

open Text Decimal

/-! ### Segments -/

/-- A row of digit signs that is refused as an item number: one of them is no decimal digit,
or there are too many. -/
structure Unreadable (segment : List Char) : Prop where
  nonempty : segment ≠ []
  signs : ∀ c ∈ segment, isDigitSign c = true
  unread : (∃ c ∈ segment, isDecimalDigit c = false) ∨ maxIntegerDigits < segment.length

/-- Fewer values than signs are found just if one of the signs has none. -/
theorem length_values_lt_iff {segment : List Char} :
    (segment.filterMap digitValue?).length < segment.length ↔
      ∃ c ∈ segment, isDecimalDigit c = false := by
  have hle : segment.countP isDecimalDigit ≤ segment.length := List.countP_le_length
  have hall : segment.countP isDecimalDigit = segment.length ↔
      ∀ c ∈ segment, isDecimalDigit c = true :=
    List.countP_eq_length
  rw [List.length_filterMap_eq_countP]
  show segment.countP isDecimalDigit < segment.length ↔ _
  rw [Nat.lt_iff_le_and_ne, and_iff_right hle, Ne, hall]
  simp

theorem itemNumber?_refused_iff {segment : List Char} :
    (∃ fault, itemNumber? segment = some (.error fault)) ↔ Unreadable segment := by
  unfold itemNumber?
  by_cases hsigns : (!segment.isEmpty && segment.all isDigitSign) = true
  · obtain ⟨hne, hall⟩ : segment ≠ [] ∧ ∀ c ∈ segment, isDigitSign c = true := by simpa using hsigns
    rw [if_pos hsigns]
    dsimp only
    by_cases hread : (segment.filterMap digitValue?).length < segment.length
    · rw [if_pos hread]
      exact iff_of_true ⟨_, rfl⟩ ⟨hne, hall, Or.inl (length_values_lt_iff.mp hread)⟩
    · have hlength : (segment.filterMap digitValue?).length = segment.length :=
        Nat.le_antisymm (List.length_filterMap_le _ _) (Nat.le_of_not_lt hread)
      rw [if_neg hread, hlength]
      by_cases hlong : maxIntegerDigits < segment.length
      · rw [if_pos hlong]
        exact iff_of_true ⟨_, rfl⟩ ⟨hne, hall, Or.inr hlong⟩
      · rw [if_neg hlong]
        refine iff_of_false (fun h => nomatch h) fun h => ?_
        rcases h.unread with hsign | hmany
        · exact hread (length_values_lt_iff.mpr hsign)
        · exact hlong hmany
  · rw [if_neg hsigns]
    refine iff_of_false (fun h => nomatch h) fun h => hsigns ?_
    simpa using ⟨h.nonempty, h.signs⟩

/-! ### Paths -/

namespace Json

/-- A row of segments leads to one that is refused: at an array it is there, and otherwise
it lies behind a step. -/
inductive Blocks : List (List Char) → Json → Prop
  | here {segment : List Char} {segments : List (List Char)} {items : List Json}
      (unreadable : Unreadable segment) :
    Blocks (segment :: segments) (.arr items)
  | behind {segment : List Char} {segments : List (List Char)} {v w : Json}
    (step : v.step segment = .ok (some w))
    (blocks : Blocks segments w) : Blocks (segment :: segments) v

/-- Only at an array a segment is refused. -/
theorem step_refused_iff {segment : List Char} {v : Json} :
    (∃ fault, v.step segment = .error fault) ↔ ∃ items, v = .arr items ∧ Unreadable segment := by
  cases v with
  | arr items =>
    have hitem : (∃ fault, itemNumber? segment = some (.error fault)) ↔
        Unreadable segment := itemNumber?_refused_iff
    rw [step.eq_2]
    cases hnumber : itemNumber? segment with
    | none => simp [← hitem, hnumber]
    | some n => cases n <;> simp [← hitem, hnumber, Except.map]
  | _ => simp [step]

theorem follow_refused_iff {segments : List (List Char)} {v : Json} :
    (∃ fault, v.follow segments = .error fault) ↔ Blocks segments v := by
  induction segments generalizing v with
  | nil => exact iff_of_false (fun ⟨_, h⟩ => nomatch h) (fun h => nomatch h)
  | cons segment segments ih =>
    rw [follow]
    cases hstep : v.step segment with
    | error fault =>
      obtain ⟨items, rfl, hunreadable⟩ := step_refused_iff.mp ⟨fault, hstep⟩
      exact iff_of_true ⟨fault, rfl⟩ (.here hunreadable)
    | ok next =>
      have hread {items : List Json} (hv : v = .arr items) :
          ¬Unreadable segment := fun hunreadable => by
        obtain ⟨fault, hfault⟩ := step_refused_iff.mpr ⟨items, hv, hunreadable⟩
        cases hstep.symm.trans hfault
      -- whatever stands in the way does so behind this step
      have hbehind : Blocks (segment :: segments) v ↔ ∃ w, next = some w ∧ Blocks segments w := by
        constructor
        · intro h
          cases h with
          | here hunreadable => exact absurd hunreadable (hread rfl)
          | behind hw hblocks => exact ⟨_, Except.ok.inj (hstep.symm.trans hw), hblocks⟩
        · rintro ⟨w, rfl, hblocks⟩
          exact .behind hstep hblocks
      rw [hbehind]
      cases next with
      | none => simp
      | some w => simpa using ih

/-- A path is refused at a value. -/
def Refuses (v : Json) (path : String) : Prop := Blocks (splitChars '.' path.toList) v

theorem lookup_refused_iff {v : Json} {path : String} :
    (∃ fault, v.lookup path = .error fault) ↔ v.Refuses path := by
  unfold lookup
  by_cases hempty : path.isEmpty = true
  · rw [if_pos hempty]
    refine iff_of_false (fun ⟨_, h⟩ => nomatch h) fun h => ?_
    -- the only segment of the empty path has no digit signs, and nothing lies behind it
    obtain rfl : path = "" := by simpa using hempty
    have hblocks : Blocks [[]] v := h
    cases hblocks with
    | here hunreadable => exact hunreadable.nonempty rfl
    | behind _ hnothing => cases hnothing
  · rw [if_neg hempty]
    exact follow_refused_iff

/-- **A lookup is answered just if its path is not refused.** -/
theorem lookup_answered_iff {v : Json} {path : String} :
    (∃ found, v.lookup path = .ok found) ↔ ¬v.Refuses path := by
  rw [← lookup_refused_iff]
  cases v.lookup path <;> simp

theorem lookupOrNull_answered_iff {v : Json} {path : String} :
    (∃ found, v.lookupOrNull path = .ok found) ↔ ¬v.Refuses path := by
  rw [← lookup_answered_iff, lookupOrNull]
  cases v.lookup path <;> simp [Except.map]

theorem Blocks.exists_unreadable {segments : List (List Char)} {v : Json} (h : Blocks segments v) :
    ∃ segment ∈ segments, Unreadable segment := by
  induction h with
  | here unreadable => exact ⟨_, List.mem_cons_self, unreadable⟩
  | behind _ _ ih =>
    obtain ⟨segment, hmem, hunreadable⟩ := ih
    exact ⟨segment, List.mem_cons_of_mem _ hmem, hunreadable⟩

end Json

/-- A path whose segments are not empty and have no digits. -/
def IsPlain (path : String) : Prop :=
  ∀ segment ∈ splitChars '.' path.toList, segment ≠ [] ∧ ∀ c ∈ segment, isDigitSign c = false

/-- A plain path is refused nowhere. -/
theorem IsPlain.not_refuses {path : String} (h : IsPlain path) (v : Json) : ¬v.Refuses path := by
  intro hrefuses
  obtain ⟨segment, hmem, hunreadable⟩ := Json.Blocks.exists_unreadable hrefuses
  obtain ⟨c, segment, rfl⟩ := List.exists_cons_of_ne_nil hunreadable.nonempty
  have hsign := hunreadable.signs c List.mem_cons_self
  rw [(h _ hmem).2 c List.mem_cons_self] at hsign
  cases hsign

/-! ### Texts -/

/-- There is no text for what is at a path: the path is refused, or an integer in the value
found has too many digits to be written. -/
def Json.Unshown (v : Json) (path : String) : Prop :=
  v.Refuses path ∨ ∃ w, v.lookup path = .ok (some w) ∧ w.isShort = false

namespace Template

/-- A template has a placeholder for which there is no text over the results. -/
def Refuses (results : Results) (template : String) : Prop :=
  ∃ body, .placeholder body ∈ pieces template.toList ∧ (Json.obj results).Unshown (pathOf body)

theorem answered_iff {results : Results} {body : List Char} :
    Answered results body ↔ ¬(Json.obj results).Unshown (pathOf body) := by
  unfold Answered Json.Unshown
  rw [← Json.lookup_refused_iff]
  cases (Json.obj results).lookup (pathOf body) with
  | error fault => simp
  | ok found => cases found <;> simp

end Template

/-- **The text of a template can be produced just if there is a text for each placeholder.** -/
theorem interpolate_answered_iff {results : Results} {template : String} :
    (∃ out, interpolate results template = .ok out) ↔ ¬Template.Refuses results template := by
  rw [interpolate_answered_iff_forall]
  unfold Template.Refuses
  simp only [Template.answered_iff, not_exists, not_and]

end Cadence
