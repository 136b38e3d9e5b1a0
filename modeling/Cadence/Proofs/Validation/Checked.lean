/-
What is left of a check when the issues are forgotten.

`Except.toOption` keeps the value of a check that succeeds and forgets why another one
fails.  It turns every way of putting checks together into the matching way of putting
optional values together, so that what a reader makes of a document can be computed from
what its parts make of theirs.

* `bind_eq_ok`, `mapM_eq_ok` — when a check that is put together of others succeeds;
* `mapError_bind`, `mapError_mapM` — its issues are renamed one by one;
* `toOption_bind`, `Checked.toOption_apply`, `Checked.toOption_within`,
  `Checked.toOption_each` — the ways of putting checks together;
* `toOption_fieldOr` — a field that is there is read by its check;
* `Faults` — what can be said of the issues of a check that fails, and how it carries over
  to checks put together.
-/
import Mathlib.Tactic.Common
import Cadence.Validation.Scalar

namespace Cadence

variable {ε ε' α β : Type}

@[simp] theorem ok_bind (a : α) (f : α → Except ε β) : (Except.ok a >>= f) = f a := rfl

@[simp] theorem error_bind (e : ε) (f : α → Except ε β) : (Except.error e >>= f) = .error e := rfl

theorem bind_eq_ok {c : Except ε α} {f : α → Except ε β} {b : β} :
    (c >>= f) = .ok b ↔ ∃ a, c = .ok a ∧ f a = .ok b := by
  cases c <;> simp

theorem map_eq_ok {f : α → β} {c : Except ε α} {b : β} :
    c.map f = .ok b ↔ ∃ a, c = .ok a ∧ f a = b := by
  cases c <;> simp [Except.map]

theorem map_eq_error {f : α → β} {c : Except ε α} {e : ε} : c.map f = .error e ↔ c = .error e := by
  cases c <;> simp [Except.map]

/-- Reading a list succeeds if every item can be read. -/
theorem mapM_eq_ok {f : α → Except ε β} {xs : List α} {ys : List β} :
    xs.mapM f = .ok ys ↔ List.Forall₂ (fun x y => f x = .ok y) xs ys := by
  induction xs generalizing ys with
  | nil =>
    constructor
    · intro h
      obtain rfl := Except.ok.inj h
      exact .nil
    · intro h
      cases h
      rfl
  | cons x xs ih =>
    rw [List.mapM_cons, bind_eq_ok]
    constructor
    · rintro ⟨y, hy, h⟩
      obtain ⟨rest, hrest, h⟩ := bind_eq_ok.mp h
      obtain rfl := Except.ok.inj h
      exact .cons hy (ih.mp hrest)
    · intro h
      cases h with
      | cons hy hrest => exact ⟨_, hy, bind_eq_ok.mpr ⟨_, ih.mpr hrest, rfl⟩⟩

theorem exists_of_mapM_eq_ok {f : α → Except ε β} {xs : List α} {ys : List β}
    (h : xs.mapM f = .ok ys) {x : α} (hx : x ∈ xs) : ∃ y ∈ ys, f x = .ok y := by
  have hread := mapM_eq_ok.mp h
  clear h
  induction hread with
  | nil => cases hx
  | cons hy _ ih =>
    rcases List.mem_cons.mp hx with rfl | hx
    · exact ⟨_, List.mem_cons_self, hy⟩
    · obtain ⟨y, hmem, hxy⟩ := ih hx
      exact ⟨y, List.mem_cons_of_mem _ hmem, hxy⟩

/-- What is read from a list was read from one of its items. -/
theorem exists_of_mem_mapM {f : α → Except ε β} {xs : List α} {ys : List β}
    (h : xs.mapM f = .ok ys) {y : β} (hy : y ∈ ys) : ∃ x ∈ xs, f x = .ok y := by
  have hread := mapM_eq_ok.mp h
  clear h
  induction hread with
  | nil => cases hy
  | cons hxy _ ih =>
    rcases List.mem_cons.mp hy with rfl | hy
    · exact ⟨_, List.mem_cons_self, hxy⟩
    · obtain ⟨x, hmem, hxy⟩ := ih hy
      exact ⟨x, List.mem_cons_of_mem _ hmem, hxy⟩

/-- Reading a list fails for the reason that one of its items fails for. -/
theorem exists_of_mapM_eq_error {f : α → Except ε β} {xs : List α} {e : ε}
    (h : xs.mapM f = .error e) :
    ∃ x ∈ xs, f x = .error e := by
  induction xs with
  | nil => cases h
  | cons x xs ih =>
    rw [List.mapM_cons] at h
    cases hx : f x with
    | error e' =>
      rw [hx, error_bind] at h
      obtain rfl := Except.error.inj h
      exact ⟨x, List.mem_cons_self, hx⟩
    | ok y =>
      cases hxs : xs.mapM f with
      | error e' =>
        rw [hx, ok_bind, hxs, error_bind] at h
        obtain rfl := Except.error.inj h
        obtain ⟨z, hz, hfail⟩ := ih hxs
        exact ⟨z, List.mem_cons_of_mem x hz, hfail⟩
      | ok ys =>
        rw [hx, ok_bind, hxs, ok_bind] at h
        cases h

/-- Reading a list succeeds just if each of its items can be read. -/
theorem exists_mapM_eq_ok {f : α → Except ε β} {xs : List α} :
    (∃ ys, xs.mapM f = .ok ys) ↔ ∀ x ∈ xs, ∃ y, f x = .ok y := by
  constructor
  · rintro ⟨ys, h⟩ x hx
    obtain ⟨y, -, hy⟩ := exists_of_mapM_eq_ok h hx
    exact ⟨y, hy⟩
  · intro h
    cases hread : xs.mapM f with
    | ok ys => exact ⟨ys, rfl⟩
    | error e =>
      obtain ⟨x, hx, hfail⟩ := exists_of_mapM_eq_error hread
      obtain ⟨y, hy⟩ := h x hx
      cases hfail.symm.trans hy

/-! ### Renaming issues -/

@[simp] theorem mapError_ok (g : ε → ε') (a : α) : (Except.ok a).mapError g = .ok a := rfl

@[simp] theorem mapError_error (g : ε → ε') (e : ε) :
    (Except.error e : Except ε α).mapError g = .error (g e) :=
  rfl

theorem mapError_eq_ok {g : ε → ε'} {c : Except ε α} {a : α} :
    c.mapError g = .ok a ↔ c = .ok a := by
  cases c <;> simp

theorem mapError_eq_error {g : ε → ε'} {c : Except ε α} {e : ε'} :
    c.mapError g = .error e ↔ ∃ e', c = .error e' ∧ g e' = e := by
  cases c <;> simp

theorem mapError_bind (g : ε → ε') (c : Except ε α) (f : α → Except ε β) :
    (c >>= f).mapError g = c.mapError g >>= fun a => (f a).mapError g := by
  cases c <;> rfl

theorem mapError_map (g : ε → ε') (f : α → β) (c : Except ε α) :
    (c.map f).mapError g = (c.mapError g).map f := by
  cases c <;> rfl

theorem mapError_mapM (g : ε → ε') (f : α → Except ε β) (xs : List α) :
    (xs.mapM f).mapError g = xs.mapM fun x => (f x).mapError g := by
  induction xs with
  | nil => rfl
  | cons x xs ih =>
    rw [List.mapM_cons, List.mapM_cons, mapError_bind]
    simp only [mapError_bind, ih]
    rfl

/-! ### Forgetting issues -/

@[simp] theorem toOption_ok (a : α) : (Except.ok a : Except ε α).toOption = some a := rfl

@[simp] theorem toOption_error (e : ε) : (Except.error e : Except ε α).toOption = none := rfl

theorem toOption_eq_some {c : Except ε α} {a : α} : c.toOption = some a ↔ c = .ok a := by
  cases c <;> simp

theorem toOption_eq_none {c : Except ε α} : c.toOption = none ↔ ∃ e, c = .error e := by
  cases c <;> simp

theorem toOption_bind (c : Except ε α) (f : α → Except ε β) :
    (c >>= f).toOption = c.toOption.bind fun a => (f a).toOption := by
  cases c <;> rfl

theorem toOption_map (f : α → β) (c : Except ε α) : (c.map f).toOption = c.toOption.map f := by
  cases c <;> rfl

theorem toOption_mapError (f : ε → ε') (c : Except ε α) : (c.mapError f).toOption = c.toOption := by
  cases c <;> rfl

/-- Reading a list succeeds when every item can be read. -/
theorem toOption_mapM (f : α → Except ε β) (xs : List α) :
    (xs.mapM f).toOption = xs.mapM fun x => (f x).toOption := by
  induction xs with
  | nil => rfl
  | cons x xs ih =>
    rw [List.mapM_cons, List.mapM_cons, toOption_bind]
    simp only [toOption_bind, ih]
    rfl

/-- Items that are kept only if they pass a test are all kept if all of them pass. -/
theorem mapM_ite (p : α → Bool) (g : α → β) (xs : List α) :
    (xs.mapM fun x => if p x then some (g x) else none) =
      if xs.all p then some (xs.map g) else none := by
  induction xs with
  | nil => rfl
  | cons x xs ih =>
    rw [List.mapM_cons, ih, List.all_cons, List.map_cons]
    cases p x with
    | false => rfl
    | true =>
      cases xs.all p with
      | false => rfl
      | true => rfl

theorem mapM_congr {m : Type → Type} [Monad m] [LawfulMonad m] {f g : α → m β} {xs : List α}
    (h : ∀ x ∈ xs, f x = g x) : xs.mapM f = xs.mapM g := by
  induction xs with
  | nil => rfl
  | cons x xs ih =>
    rw [List.mapM_cons, List.mapM_cons, h x List.mem_cons_self,
      ih fun y hy => h y (List.mem_cons_of_mem x hy)]

/-! ### Faults of a check -/

/-- A fault, if there is one, has a property. -/
def Faults {ε α : Type} (P : ε → Prop) (x : Except ε α) : Prop := ∀ e, x = .error e → P e

namespace Faults

variable {ε ε' α β : Type} {P : ε → Prop} {Q : ε' → Prop} {e : ε} {x : Except ε α}

theorem ok (a : α) : Faults P (.ok a : Except ε α) := nofun

theorem error (h : P e) : Faults P (.error e : Except ε α) := by
  rintro _ ⟨⟩
  exact h

theorem mapError {g : ε → ε'} (h : Faults (fun e => Q (g e)) x) : Faults Q (x.mapError g) := by
  cases x with
  | ok a => exact ok a
  | error e => exact error (h e rfl)

theorem map (f : α → β) (h : Faults P x) : Faults P (x.map f) := by
  cases x with
  | ok a => exact ok (f a)
  | error e => exact error (h e rfl)

theorem bind {f : α → Except ε β} (h : Faults P x) (hf : ∀ a, Faults P (f a)) :
    Faults P (x >>= f) := by
  cases x with
  | ok a => exact hf a
  | error e => exact error (h e rfl)

theorem mapM {f : α → Except ε β} (hf : ∀ a, Faults P (f a)) (as : List α) :
    Faults P (as.mapM f) := by
  induction as with
  | nil => exact ok []
  | cons a as ih =>
    rw [List.mapM_cons]
    exact bind (hf a) fun _ => bind ih fun _ => ok _

end Faults

end Cadence

namespace Cadence.Validation

variable {α β : Type}

namespace Checked

theorem toOption_within (p : Place) (c : Checked α) : (within p c).toOption = c.toOption :=
  toOption_mapError _ c

theorem toOption_apply (f : Checked (α → β)) (c : Checked α) :
    (apply f c).toOption = f.toOption.bind fun f => c.toOption.map f := by
  cases f <;> cases c <;> rfl

theorem toOption_each (check : α → Checked β) (i : Int) (xs : List α) :
    (each check i xs).toOption = xs.mapM fun x => (check x).toOption := by
  induction xs generalizing i with
  | nil => rfl
  | cons x xs ih =>
    rw [each, toOption_apply, toOption_map, toOption_within, ih, List.mapM_cons]
    cases (check x).toOption with
    | none => rfl
    | some b => cases xs.mapM (fun x => (check x).toOption) <;> rfl

end Checked

/-! ### Fields -/

/-- A field that is there under its first name is read by its check. -/
theorem toOption_fieldOr {name : String} {v : Document} {es : List (Document × Document)}
    (h : Document.member? name es = some v) (names : List String) (absent : Checked α)
    (check : Document → Checked α) :
    (fieldOr (name :: names) absent check es).toOption = (check v).toOption := by
  unfold fieldOr
  rw [List.findSome?_cons, h]
  exact Checked.toOption_within _ _

theorem toOption_required {name : String} {v : Document} {es : List (Document × Document)}
    (h : Document.member? name es = some v) (check : Document → Checked α) :
    (required name check es).toOption = (check v).toOption :=
  toOption_fieldOr h [] _ check

theorem toOption_withDefault {name : String} {v : Document} {es : List (Document × Document)}
    (h : Document.member? name es = some v) (default : α) (check : Document → Checked α) :
    (withDefault name default check es).toOption = (check v).toOption :=
  toOption_fieldOr h [] _ check

end Cadence.Validation
