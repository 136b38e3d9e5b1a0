/-
References to results: paths and placeholders that begin with the name of a result.

A path is cut at its dots, and its first segment is looked up among the names of the
results.  A name that has a dot itself is therefore no first segment, and what is kept under
it cannot be reached.  A placeholder ends at the first closing brace and is trimmed, so that
its name has no closing brace and begins with no blank either.

* `headSegment`, `Json.lookup_of_head` — only results under the first segment of a path are
  reached by it;
* `Json.lookup_below` — a path below a name without dots is looked up in what is kept under
  the name;
* `Referable` — a name that can be written at the beginning of a placeholder;
* **`interpolate_below`** — such a placeholder stands for the value below the name;
* **`interpolate_not_referable`** — with any other name it is a note that the value is
  missing, or stays as it is.
-/
import Cadence.Proofs.Json.Put
import Cadence.Proofs.Template.Pieces
import Cadence.Proofs.Text.Parts

namespace Cadence

open Text

/-! ### Paths -/

/-- The part of a path before its first dot. -/
def headSegment (path : String) : String := String.ofList (cutAt '.' path.toList).1

theorem splitChars_cons_cutAt (sep : Char) (cs : List Char) :
    ∃ parts, splitChars sep cs = (cutAt sep cs).1 :: parts := by
  rcases cutAt_cases sep cs with ⟨hnone, hcut⟩ | ⟨a, b, ha, rfl, hcut⟩
  · exact ⟨[], by rw [splitChars_of_not_mem hnone, hcut]⟩
  · exact ⟨_, by rw [splitChars_append ha, hcut]⟩

namespace Json

variable {results : Results} {name rest path : String}

/-- Only results under the first segment of a path are reached by it. -/
theorem lookup_of_head (h : results.lookup (headSegment path) = none) :
    (Json.obj results).lookup path = .ok none := by
  unfold lookup
  split
  · rfl
  · obtain ⟨parts, hparts⟩ := splitChars_cons_cutAt '.' path.toList
    rw [hparts, follow]
    simp only [step]
    rw [show results.lookup (String.ofList (cutAt '.' path.toList).1) = none from h]

/-- A path below a name without dots is followed in what is kept under the name. -/
theorem lookup_below (hdot : '.' ∉ name.toList) {v : Json} (hkept : results.lookup name = some v) :
    (Json.obj results).lookup (name ++ "." ++ rest) = v.follow (splitChars '.' rest.toList) := by
  have hchars : (name ++ "." ++ rest).toList = name.toList ++ '.' :: rest.toList := by simp
  have hnonempty : (name ++ "." ++ rest).isEmpty = false := by
    rw [← Bool.not_eq_true, String.isEmpty_iff]
    intro hempty
    rw [hempty] at hchars
    simp at hchars
  rw [lookup, hnonempty, hchars, splitChars_append hdot]
  simp only [Bool.false_eq_true, if_false, follow, step, String.ofList_toList, hkept]

end Json

/-- The first segment of a path has no dot. -/
theorem not_mem_headSegment (path : String) : '.' ∉ (headSegment path).toList := by
  rw [headSegment, String.toList_ofList]
  rcases cutAt_cases '.' path.toList with ⟨hnone, hcut⟩ | ⟨a, b, ha, -, hcut⟩
  · rwa [hcut]
  · rwa [hcut]

/-- A path begins with its first segment. -/
theorem exists_headSegment_append (path : String) :
    ∃ rest, path.toList = (headSegment path).toList ++ rest := by
  rw [headSegment, String.toList_ofList]
  rcases cutAt_cases '.' path.toList with ⟨-, hcut⟩ | ⟨a, b, -, hpath, hcut⟩
  · exact ⟨[], by rw [hcut, List.append_nil]⟩
  · exact ⟨'.' :: b, by rw [hcut, hpath]⟩

/-! ### Placeholders -/

/-- The placeholder for a path. -/
def reference (path : String) : String := "$\x7b" ++ path ++ "\x7d"

/-- A name that can be written at the beginning of a placeholder: it has neither a dot nor a
closing brace, and does not begin with a blank. -/
structure Referable (name : String) : Prop where
  noDot : '.' ∉ name.toList
  noBrace : '\x7d' ∉ name.toList
  noBlank : ∀ c ∈ name.toList.head?, isBlank c = false

namespace Template

theorem toList_reference (path : String) :
    (reference path).toList = (Piece.placeholder path.toList).text := by
  simp [reference, Piece.text]

/-- A text whose first placeholder finds nothing begins with a note. -/
theorem head?_of_missing {results : Results} {template out : String} {body rest : List Char}
    (hbody : IsBody body)
    (htemplate : template.toList = (Piece.placeholder body).text ++ rest)
    (hmissing : (Json.obj results).lookup (pathOf body) = .ok none)
    (h : interpolate results template = .ok out) :
    out.toList.head? = some '[' := by
  obtain ⟨texts, hshows, rfl⟩ := interpolate_iff.mp h
  rw [htemplate, pieces_placeholder hbody] at hshows
  cases hshows with
  | cons hfirst hrest =>
    cases hfirst with
    | value found present => cases hmissing.symm.trans found
    | missing looked absent => simp

theorem mem_of_mem_pathOf {body : List Char} {c : Char}
    (h : c ∈ (pathOf body).toList) : c ∈ body := by
  rw [pathOf, trim, String.toList_ofList, String.toList_ofList] at h
  exact mem_of_mem_stripWhile h

theorem head?_pathOf {body : List Char} {c : Char} (h : (pathOf body).toList.head? = some c) :
    isBlank c = false := by
  rw [pathOf, trim, String.toList_ofList, String.toList_ofList] at h
  exact head?_stripWhile h

/-- The first segment of the path of a placeholder is referable. -/
theorem referable_headSegment {body : List Char} (hbody : '\x7d' ∉ body) :
    Referable (headSegment (pathOf body)) where
  noDot := not_mem_headSegment _
  noBrace := by
    obtain ⟨rest, hrest⟩ := exists_headSegment_append (pathOf body)
    exact fun h => hbody (mem_of_mem_pathOf (hrest ▸ List.mem_append_left rest h))
  noBlank := by
    obtain ⟨rest, hrest⟩ := exists_headSegment_append (pathOf body)
    intro c hc
    refine head?_pathOf (show (pathOf body).toList.head? = some c from ?_)
    rw [hrest, List.head?_append, Option.mem_def.mp hc]
    rfl

end Template

open Template

section

variable {results : Results} {name rest : String}

/-- A reference to a path below a name that is not empty has the name and the rest in its body. -/
theorem toList_below (name rest : String) :
    (name ++ "." ++ rest).toList = name.toList ++ '.' :: rest.toList := by
  simp

/-- **A placeholder that begins with a referable name stands for the value below the name.** -/
theorem interpolate_below (hname : Referable name) (hbrace : '\x7d' ∉ rest.toList)
    (hblank : ∀ c ∈ rest.toList.getLast?, isBlank c = false) {v w : Json}
    (hkept : results.lookup name = some v)
    (hfound : v.follow (splitChars '.' rest.toList) = .ok (some w)) (hpresent : w ≠ .null)
    (hshort : w.isShort = true) (tail : String) :
    interpolate results (reference (name ++ "." ++ rest) ++ tail) =
      (interpolate results tail).map (w.text ++ ·) := by
  have hbody : IsBody (name ++ "." ++ rest).toList := by
    rw [toList_below]
    exact ⟨by simp, by simpa using ⟨hname.noBrace, hbrace⟩⟩
  have hpath : pathOf (name ++ "." ++ rest).toList = name ++ "." ++ rest := by
    rw [pathOf, trim, String.toList_ofList, stripWhile_of_ends, String.ofList_toList]
    · rw [toList_below, List.head?_append, List.head?_cons]
      cases hfirst : name.toList.head? with
      | none =>
        rintro c ⟨⟩
        decide
      | some d =>
        rintro c ⟨⟩
        exact hname.noBlank d hfirst
    · rw [toList_below, List.getLast?_append, List.getLast?_cons]
      cases hlast : rest.toList.getLast? with
      | none =>
        rintro c ⟨⟩
        decide
      | some d =>
        rintro c ⟨⟩
        exact hblank d hlast
  refine interpolate_shown hbody (.value ?_ hpresent (Json.shown_of_short hshort))
  rw [hpath, Json.lookup_below hname.noDot hkept, hfound]

/-- **A placeholder that begins with a name that is not referable does not stand for
anything below it**: where there are no other results, its text begins with a note that
something is missing, or with the characters of the placeholder. -/
theorem interpolate_not_referable (hname : ¬Referable name) (hbrace : '\x7d' ∉ rest.toList)
    (hlone : ∀ other ∈ names results, other = name) {out : String}
    (h : interpolate results (reference (name ++ "." ++ rest)) = .ok out) :
    out.toList.head? = some '[' ∨ out.toList.head? = some '$' := by
  -- a path that begins with a referable segment leads to no result
  have hmissing {body : List Char} (hbody : '\x7d' ∉ body) :
      (Json.obj results).lookup (pathOf body) = .ok none := by
    refine Json.lookup_of_head (lookup_eq_none_iff_names.mpr fun hmem => hname ?_)
    rw [← hlone _ hmem]
    exact referable_headSegment hbody
  by_cases hclosed : '\x7d' ∈ name.toList
  · obtain ⟨a, b, hab, ha⟩ := List.eq_append_cons_of_mem hclosed
    cases a with
    | nil =>
      have htemplate : reference (name ++ "." ++ rest) =
          "$\x7b\x7d" ++ String.ofList (b ++ '.' :: rest.toList ++ ['\x7d']) := by
        rw [← String.toList_inj, toList_reference, toList_below, hab]
        simp [Piece.text]
      rw [htemplate, interpolate_empty_placeholder] at h
      cases htail : interpolate results (String.ofList (b ++ '.' :: rest.toList ++ ['\x7d'])) with
      | error e =>
        rw [htail] at h
        cases h
      | ok tail =>
        rw [htail] at h
        obtain rfl := Except.ok.inj h
        exact Or.inr (by simp)
    | cons c a =>
      have htemplate : (reference (name ++ "." ++ rest)).toList =
          (Piece.placeholder (c :: a)).text ++ (b ++ '.' :: rest.toList ++ ['\x7d']) := by
        rw [toList_reference, toList_below, hab]
        simp [Piece.text]
      exact Or.inl (head?_of_missing ⟨List.cons_ne_nil c a, ha⟩ htemplate (hmissing ha) h)
  · have hbody : '\x7d' ∉ (name ++ "." ++ rest).toList := by
      rw [toList_below]
      simpa using ⟨hclosed, hbrace⟩
    have htemplate : (reference (name ++ "." ++ rest)).toList =
        (Piece.placeholder (name ++ "." ++ rest).toList).text ++ [] := by
      rw [toList_reference, List.append_nil]
    exact Or.inl (head?_of_missing ⟨by rw [toList_below]; simp, hbody⟩ htemplate (hmissing hbody) h)

end

end Cadence
