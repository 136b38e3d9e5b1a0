/-
Positions in a value, and the paths that lead to them.

A path is followed one segment after the other, so a path can be cut at any of its dots:
what stands behind the dot is looked up in the value found before it.  A position is told by
the names and numbers on the way to it, and its path is these, joined by dots.

* `Json.follow_append`, `Json.lookup_append` — a path is looked up piece by piece;
* `Place`, `Json.at?` — the places on the way to a value, and the value at a position;
* `Json.pathTo`, `Json.splitChars_pathTo` — the path to a position, which falls into the
  places again;
* `Json.follow_places` — followed from place to place, it leads to the value at the position;
* **`Json.lookup_compositional`** — both results together.
-/
import Cadence.Proofs.Decimal.Whole

namespace Cadence

open Text Decimal

/-! ### Paths piece by piece -/

namespace Json

/-- Segments are followed one part after the other, unless the first part finds nothing or
is refused. -/
theorem follow_append (front rest : List (List Char)) (v : Json) :
    v.follow (front ++ rest) = (v.follow front).bind fun found =>
      found.elim (.ok none) (follow rest) := by
  induction front generalizing v with
  | nil => rfl
  | cons segment front ih =>
    rw [List.cons_append, follow, follow]
    cases hstep : v.step segment with
    | error fault => rfl
    | ok next =>
      cases next with
      | none => rfl
      | some w => exact ih w

theorem lookup_of_ne {path : String} (h : path ≠ "") (v : Json) :
    v.lookup path = v.follow (splitChars '.' path.toList) := by
  have hfull : path.isEmpty = false := by simpa using h
  simp [lookup, hfull]

/-- A path of two pieces is looked up piece by piece. -/
theorem lookup_append {front rest : String} (hfront : front ≠ "") (hrest : rest ≠ "") (v : Json) :
    v.lookup (front ++ "." ++ rest) = (v.lookup front).bind fun found =>
      found.elim (.ok none) (lookup rest) := by
  have hchars : (front ++ "." ++ rest).toList = front.toList ++ '.' :: rest.toList := by simp
  have hne : front ++ "." ++ rest ≠ "" := by
    intro h
    have hlength := congrArg List.length (hchars.symm.trans (congrArg String.toList h))
    simp at hlength
  have hlast : lookup rest = follow (splitChars '.' rest.toList) :=
    funext fun w => lookup_of_ne hrest w
  rw [lookup_of_ne hne, lookup_of_ne hfront, hchars, splitChars_append_sep, follow_append, hlast]

/-- Nothing is found below null. -/
theorem lookup_null (path : String) : Json.null.lookup path = .ok none := by
  by_cases h : path = ""
  · subst h
    rfl
  · rw [lookup_of_ne h]
    cases hparts : splitChars '.' path.toList with
    | nil => exact absurd hparts (splitChars_ne_nil _ _)
    | cons segment segments => rfl

end Json

/-! ### Positions -/

/-- A place below a value: a member of an object or an item of an array. -/
inductive Place where
  | member (name : String)
  | item (index : Nat)
  deriving DecidableEq, Repr

namespace Place

/-- The segment that tells a place in a path. -/
def segment : Place → List Char
  | .member name => name.toList
  | .item index => natDigits index

/-- A place whose name can be told in a path: it is not empty and has no dot. -/
def IsNamed : Place → Prop
  | .member name => name ≠ "" ∧ '.' ∉ name.toList
  | .item _ => True

/-- A place whose number has no more digits than are read. -/
def IsReadable : Place → Prop
  | .member _ => True
  | .item index => (natDigits index).length ≤ maxIntegerDigits

theorem segment_ne_nil {p : Place} (h : p.IsNamed) : p.segment ≠ [] := by
  cases p with
  | member name =>
    intro hnil
    exact h.1 (String.toList_eq_nil_iff.mp hnil)
  | item index => exact Nat.toDigits_ne_nil

theorem dot_not_mem_segment {p : Place} (h : p.IsNamed) : '.' ∉ p.segment := by
  cases p with
  | member name => exact h.2
  | item index =>
    intro hmem
    have hdigit := Nat.isDigit_of_mem_toDigits (by decide) (by decide) hmem
    simp at hdigit

end Place

/-- A numeral is taken for the number of an item, unless it has too many digits. -/
theorem Numeral.itemNumber?_eq (n : Numeral) : itemNumber? n.chars =
    some (if maxIntegerDigits < n.chars.length then .error (.tooLong n.chars.length)
      else .ok n.value) := by
  have hsigns : (!n.chars.isEmpty && n.chars.all Text.isDigitSign) = true := by
    simpa using ⟨n.chars_ne, fun c hc => n.isDigitSign hc⟩
  have hlength := n.length_values
  unfold itemNumber?
  rw [if_pos hsigns]
  simp only [hlength, Nat.lt_irrefl, if_false, Numeral.value]
  split_ifs <;> rfl

namespace Json

/-- The value at a place. -/
def child? : Place → Json → Option Json
  | .member name, .obj members => members.lookup name
  | .item index, .arr items => items[index]?
  | _, _ => none

/-- The value at a position, which is told by the places on the way to it. -/
def at? : List Place → Json → Option Json
  | [], v => some v
  | p :: rest, v => (v.child? p).bind (at? rest)

/-- The path to a position. -/
def pathTo (position : List Place) : String :=
  String.ofList (['.'].intercalate (position.map Place.segment))

/-- The segment of a place leads to the value there, if its number can be read, and is
refused otherwise. -/
theorem step_segment {p : Place} {v w : Json} (h : v.child? p = some w) :
    (p.IsReadable ∧ v.step p.segment = .ok (some w)) ∨
      (¬p.IsReadable ∧ ∃ fault, v.step p.segment = .error fault) := by
  cases p with
  | member name =>
    cases v with
    | obj members =>
      have hname : String.ofList (Place.member name).segment = name := String.ofList_toList
      left
      exact ⟨trivial, by rw [step, hname]; exact congrArg Except.ok h⟩
    | _ => cases h
  | item index =>
    cases v with
    | arr items =>
      have hread := (Numeral.ofNat index).itemNumber?_eq
      rw [Numeral.value_ofNat] at hread
      have hnumber : itemNumber? (Place.item index).segment =
          some (if maxIntegerDigits < (natDigits index).length
            then .error (.tooLong (natDigits index).length)
            else .ok index) := hread
      have hitem : items[index]? = some w := h
      by_cases hlong : maxIntegerDigits < (natDigits index).length
      · right
        refine ⟨Nat.not_le_of_lt hlong, .tooLong (natDigits index).length, ?_⟩
        rw [step, hnumber, if_pos hlong]
        rfl
      · left
        refine ⟨Nat.le_of_not_lt hlong, ?_⟩
        rw [step, hnumber, if_neg hlong]
        simp [Except.map, hitem]
    | _ => cases h

/-- Followed from place to place, the way to a position leads to the value there just if all
numbers on it can be read. -/
theorem follow_places {position : List Place} {v w : Json} (h : v.at? position = some w) :
    v.follow (position.map Place.segment) = .ok (some w) ↔ ∀ p ∈ position, p.IsReadable := by
  induction position generalizing v with
  | nil =>
    obtain rfl : v = w := Option.some.inj h
    simp [follow]
  | cons p rest ih =>
    obtain ⟨u, hchild, hrest⟩ := Option.bind_eq_some_iff.mp h
    rw [List.map_cons, follow, List.forall_mem_cons]
    rcases step_segment hchild with ⟨hreadable, hstep⟩ | ⟨hlong, fault, hstep⟩
    · simp only [hstep, hreadable, true_and]
      exact ih hrest
    · simp [hstep, hlong]

/-- The path to a position falls into the segments of the places on the way. -/
theorem splitChars_pathTo {position : List Place} (hne : position ≠ [])
    (hnamed : ∀ p ∈ position, p.IsNamed) :
    splitChars '.' (pathTo position).toList = position.map Place.segment := by
  rw [pathTo, String.toList_ofList]
  apply splitChars_intercalate
  · simpa using hne
  · intro part hpart
    obtain ⟨p, hp, rfl⟩ := List.mem_map.mp hpart
    exact Place.dot_not_mem_segment (hnamed p hp)

theorem pathTo_ne {position : List Place} (hne : position ≠ [])
    (hnamed : ∀ p ∈ position, p.IsNamed) :
    pathTo position ≠ "" := by
  obtain ⟨p, rest, rfl⟩ := List.exists_cons_of_ne_nil hne
  obtain ⟨chars, hchars⟩ : ∃ chars, ['.'].intercalate (p.segment :: rest.map Place.segment) =
      p.segment ++ chars :=
    exists_intercalate_cons p.segment (rest.map Place.segment)
  intro hempty
  have hnil : p.segment ++ chars = [] := by
    rw [← hchars]
    exact String.ofList_eq_empty_iff.mp hempty
  exact Place.segment_ne_nil (hnamed p List.mem_cons_self) (List.append_eq_nil_iff.mp hnil).1

/-- **Looking up is compositional.**  A path of two pieces finds nothing where its first
piece finds nothing or null, and otherwise what the second piece finds in the value at the
first; where the first piece is refused, so is the path. The path to a position below a
value, all of whose names are not empty and have no dot, finds the value there, unless there
is an item number of more digits than are read on the way, which the path is refused for. -/
theorem lookup_compositional (v : Json) :
    (∀ front rest : String, front ≠ "" → rest ≠ "" → v.lookup (front ++ "." ++ rest) =
      match v.lookup front with
      | .error fault => .error fault
      | .ok none | .ok (some .null) => .ok none
      | .ok (some w) => w.lookup rest) ∧
    ∀ (position : List Place) (w : Json), position ≠ [] → (∀ p ∈ position, p.IsNamed) →
      v.at? position = some w →
      (v.lookup (pathTo position) = .ok (some w) ↔ ∀ p ∈ position, p.IsReadable) := by
  constructor
  · intro front rest hfront hrest
    rw [lookup_append hfront hrest]
    cases hfound : v.lookup front with
    | error fault => rfl
    | ok found =>
      cases found with
      | none => rfl
      | some w =>
        cases w with
        | null => exact lookup_null rest
        | _ => rfl
  · intro position w hne hnamed hat
    rw [lookup_of_ne (pathTo_ne hne hnamed), splitChars_pathTo hne hnamed]
    exact follow_places hat

/-- A number that is the name of a member, below the number of an item, and null on the way. -/
theorem lookup_compositional_nested :
    let v : Json := .obj [("a", .arr [.null, .obj [("0", .int 7)]])]
    let position : List Place := [.member "a", .item 1, .member "0"]
    v.lookup ("a.1" ++ "." ++ "0") = .ok (some (.int 7)) ∧
      v.lookup ("a.0" ++ "." ++ "0") = .ok none ∧
      v.at? position = some (.int 7) ∧ v.lookup (pathTo position) = .ok (some (.int 7)) := by
  intro v position
  obtain ⟨hpieces, hposition⟩ := lookup_compositional v
  have hnamed : ∀ p ∈ position, p.IsNamed := by simp [position, Place.IsNamed]
  have hdigits : (natDigits 1).length ≤ maxIntegerDigits := by decide
  have hreadable : ∀ p ∈ position, p.IsReadable := by simp [position, Place.IsReadable, hdigits]
  exact ⟨hpieces "a.1" "0" (by decide) (by decide), hpieces "a.0" "0" (by decide) (by decide), rfl,
    (hposition position (.int 7) (List.cons_ne_nil _ _) hnamed rfl).mpr hreadable⟩

end Json

end Cadence
