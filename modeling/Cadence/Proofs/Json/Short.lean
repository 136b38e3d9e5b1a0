/-
Integers that were read can be written.

The reader refuses integers with too many digits, so none is in a value that it gives,
wherever it stands in it, and none in what is found there by a path.

* `Json.digitsNat_lt` — the digits of an integer bound it;
* `Json.isShort_readNumber` — a number that is read can be written;
* **`Json.isShort_readWith`** — and so can every value that is read;
* `Json.isShort_lookup` — and what is found in it.
-/
import Cadence.Proofs.Json.Finite
import Cadence.Proofs.Json.Number
import Cadence.Proofs.Json.Put
import Cadence.Proofs.Text.Parts
import Cadence.Proofs.Validation.Checked
import Cadence.Template

namespace Cadence.Json

open Text

/-! ### Numbers -/

/-- The digits of an integer bound it. -/
theorem digitsNat_lt {ds : List Char} (h : ∀ d ∈ ds, isAsciiDigit d = true) :
    digitsNat ds < 10 ^ ds.length := by
  have hlt := foldl_digits_lt h 0
  rwa [Nat.zero_add, Nat.one_mul] at hlt

theorem isShort_digits {ds : List Char} (h : ∀ d ∈ ds, isAsciiDigit d = true)
    (hshort : ds.length ≤ Decimal.maxIntegerDigits) (negative : Bool) :
    isShort (.int (if negative then -(digitsNat ds : Int) else digitsNat ds)) = true := by
  have hlt : digitsNat ds < 10 ^ Decimal.maxIntegerDigits :=
    Nat.lt_of_lt_of_le (digitsNat_lt h) (Nat.pow_le_pow_right (by decide) hshort)
  have habs : (if negative then -(digitsNat ds : Int) else digitsNat ds).natAbs = digitsNat ds := by
    cases negative <;> simp
  rw [isShort, habs]
  exact decide_eq_true ((Nat.length_toDigits_le_iff (by decide) (by decide)).mpr hlt)

theorem isShort_readUnsigned {negative : Bool} {cs rest : List Char} {v : Json}
    (h : readUnsigned negative cs = some (.ok (v, rest))) : v.isShort = true := by
  obtain ⟨⟨whole, behind⟩, hwhole, hread⟩ := Option.map_eq_some_iff.mp h
  have hdigits : ∀ d ∈ whole, isAsciiDigit d = true := by
    rcases (readWhole_eq_some hwhole).2 with rfl | ⟨hdigits, -⟩
    · exact List.forall_mem_singleton.mpr rfl
    · exact hdigits.2
  dsimp only at hread
  split at hread
  · split at hread
    · cases hread
    · next hlong =>
      obtain ⟨rfl, -⟩ := Prod.mk.inj (Except.ok.inj hread)
      exact isShort_digits hdigits (Nat.le_of_not_lt hlong) negative
  · obtain ⟨rfl, -⟩ := Prod.mk.inj (Except.ok.inj hread)
    rfl

/-- A number that is read can be written. -/
theorem isShort_readNumber {cs rest : List Char} {v : Json}
    (h : readNumber cs = some (.ok (v, rest))) :
    v.isShort = true := by
  match cs with
  | [] => cases h
  | c :: cs =>
    by_cases hminus : c = '-'
    · subst hminus
      exact isShort_readUnsigned ((readNumber_minus cs).symm.trans h)
    · refine isShort_readUnsigned ((readNumber_unsigned ?_).symm.trans h)
      rintro d ⟨⟩
      exact hminus

/-! ### Values -/

theorem isShort_readLiteral {cs rest : List Char} {v : Json} (h : readLiteral cs = some (v, rest)) :
    v.isShort = true := by
  obtain ⟨word, hword, hv⟩ := Option.map_eq_some_iff.mp h
  obtain ⟨rfl, -⟩ := Prod.mk.inj hv
  have hmem := List.mem_of_find?_eq_some hword
  simp only [literals, List.mem_cons, List.not_mem_nil, or_false] at hmem
  rcases hmem with rfl | rfl | rfl | rfl | rfl | rfl <;> rfl

theorem membersShort_put {ms : List (String × Json)} {name : String} {v : Json}
    (hms : membersShort ms = true) (hv : v.isShort = true) :
    membersShort (put name v ms) = true := by
  induction ms with
  | nil => simp [put, membersShort, hv]
  | cons m ms ih =>
    simp only [membersShort, Bool.and_eq_true] at hms
    unfold put
    split
    · simp [membersShort, hv, hms.2]
    · simp [membersShort, hms.1, ih hms.2]

/-- What is read with some fuel can be written: values, items and members. -/
structure ReadsShort (half : Nat → Char) (fuel : Nat) : Prop where
  value : ∀ cs v rest, readValue half fuel cs = .ok (v, rest) → v.isShort = true
  items : ∀ cs vs rest, readItems half fuel cs = .ok (vs, rest) → itemsShort vs = true
  members : ∀ known cs ms rest, membersShort known = true →
    readMembers half fuel known cs = .ok (ms, rest) → membersShort ms = true

section

variable {half : Nat → Char} {fuel : Nat} {cs rest : List Char}

theorem ReadsShort.readValue (h : ReadsShort half fuel) {v : Json}
    (hread : readValue half (fuel + 1) cs = .ok (v, rest)) : v.isShort = true := by
  unfold Json.readValue at hread
  split at hread
  -- a string
  · obtain ⟨_, -, hv⟩ := map_eq_ok.mp hread
    obtain ⟨rfl, -⟩ := Prod.mk.inj hv
    rfl
  -- an object
  · split at hread
    · obtain ⟨rfl, -⟩ := Prod.mk.inj (Except.ok.inj hread)
      rfl
    · obtain ⟨x, hx, hv⟩ := map_eq_ok.mp hread
      obtain ⟨rfl, -⟩ := Prod.mk.inj hv
      exact h.members [] _ x.1 x.2 rfl hx
  -- an array
  · split at hread
    · obtain ⟨rfl, -⟩ := Prod.mk.inj (Except.ok.inj hread)
      rfl
    · obtain ⟨x, hx, hv⟩ := map_eq_ok.mp hread
      obtain ⟨rfl, -⟩ := Prod.mk.inj hv
      exact h.items _ x.1 x.2 hx
  -- a word or a number
  · cases hword : readLiteral cs with
    | some x =>
      rw [hword] at hread
      obtain ⟨rfl, -⟩ := Prod.mk.inj (Except.ok.inj hread)
      exact isShort_readLiteral hword
    | none =>
      rw [hword] at hread
      cases hnumber : readNumber cs with
      | none => rw [hnumber] at hread; cases hread
      | some result =>
        rw [hnumber] at hread
        exact isShort_readNumber (hnumber.trans (congrArg some hread))

theorem ReadsShort.readItems (h : ReadsShort half fuel) {vs : List Json}
    (hread : readItems half (fuel + 1) cs = .ok (vs, rest)) : itemsShort vs = true := by
  unfold Json.readItems at hread
  obtain ⟨⟨v, behind⟩, hv, hread⟩ := bind_eq_ok.mp hread
  have hshort := h.value cs v behind hv
  dsimp only at hread
  split at hread
  · obtain ⟨rfl, -⟩ := Prod.mk.inj (Except.ok.inj hread)
    simp [itemsShort, hshort]
  · obtain ⟨⟨vs', after⟩, hvs, hread⟩ := bind_eq_ok.mp hread
    obtain ⟨rfl, -⟩ := Prod.mk.inj (Except.ok.inj hread)
    simp [itemsShort, hshort, h.items _ vs' after hvs]
  · cases hread

theorem ReadsShort.readMembers (h : ReadsShort half fuel) {known ms : List (String × Json)}
    (hknown : membersShort known = true)
    (hread : readMembers half (fuel + 1) known cs = .ok (ms, rest)) : membersShort ms = true := by
  unfold Json.readMembers at hread
  split at hread
  · obtain ⟨⟨ds, behind⟩, -, hread⟩ := bind_eq_ok.mp hread
    dsimp only at hread
    split at hread
    · obtain ⟨⟨v, behind'⟩, hv, hread⟩ := bind_eq_ok.mp hread
      have hshort : membersShort (put (String.ofList ds) v known) = true :=
        membersShort_put hknown (h.value _ v behind' hv)
      dsimp only at hread
      split at hread
      · obtain ⟨rfl, -⟩ := Prod.mk.inj (Except.ok.inj hread)
        exact hshort
      · exact h.members _ _ ms rest hshort hread
      · cases hread
    · cases hread
  · cases hread

end

theorem readsShort (half : Nat → Char) (fuel : Nat) : ReadsShort half fuel := by
  induction fuel with
  | zero => exact ⟨nofun, nofun, fun _ _ _ _ _ h => by cases h⟩
  | succ fuel ih =>
    exact ⟨fun _ _ _ h => ih.readValue h, fun _ _ _ h => ih.readItems h,
      fun _ _ _ _ hknown h => ih.readMembers hknown h⟩

/-- **A value that is read can be written.** -/
theorem isShort_readWith {half : Nat → Char} {s : String} {v : Json} (h : readWith half s = .ok v) :
    v.isShort = true := by
  have hall := mapError_eq_ok.mp h
  unfold readAll at hall
  split at hall
  · cases hall
  · obtain ⟨⟨v', rest⟩, hv, hend⟩ := bind_eq_ok.mp hall
    dsimp only at hend
    split at hend
    · obtain rfl := Except.ok.inj hend
      exact (readsShort half _).value _ v' rest hv
    · cases hend

/-! ### Values that are found -/

theorem isShort_step {segment : List Char} {v w : Json} (h : step segment v = .ok (some w))
    (hshort : v.isShort = true) : w.isShort = true := by
  cases v with
  | obj members =>
    have hall : (members.all fun m => m.2.isShort) = true :=
      (membersShort_eq members).symm.trans hshort
    exact List.all_eq_true.mp hall _ (mem_of_lookup_eq_some (Except.ok.inj h))
  | arr items =>
    have hall : items.all isShort = true := (itemsShort_eq items).symm.trans hshort
    cases hnumber : itemNumber? segment with
    | none =>
      simp only [step, hnumber] at h
      cases h
    | some n =>
      simp only [step, hnumber] at h
      obtain ⟨i, -, hitem⟩ := map_eq_ok.mp h
      exact List.all_eq_true.mp hall w (List.mem_of_getElem? hitem)
  | _ => cases h

theorem isShort_follow {segments : List (List Char)} {v w : Json}
    (h : follow segments v = .ok (some w)) (hshort : v.isShort = true) :
    w.isShort = true := by
  induction segments generalizing v with
  | nil => exact Option.some.inj (Except.ok.inj h) ▸ hshort
  | cons segment segments ih =>
    unfold follow at h
    split at h
    · cases h
    · cases h
    · next u hstep => exact ih h (isShort_step hstep hshort)

/-- **What is found in a value that can be written can be written.** -/
theorem isShort_lookup {path : String} {v w : Json} (h : v.lookup path = .ok (some w))
    (hshort : v.isShort = true) :
    w.isShort = true := by
  unfold lookup at h
  split at h
  · cases h
  · exact isShort_follow h hshort

theorem isShort_lookupOrNull {path : String} {v w : Json} (h : v.lookupOrNull path = .ok w)
    (hshort : v.isShort = true) : w.isShort = true := by
  obtain ⟨found, hfound, rfl⟩ := map_eq_ok.mp h
  cases found with
  | none => rfl
  | some u => exact isShort_lookup hfound hshort

end Cadence.Json
