/-
Flow ids.

The id of a flow is made of the runs of letters and digits in the lower-case form of its name.

* `isIdChar_of_mem_lower` — in a text in lower case the characters of ids are just the
  letters and digits of ASCII;
* `hasRuns_lower_iff` — so the runs of an id are the runs of letters and digits, and no
  other rows are;
* `toList_idOfName` — dashes for everything in between, and no dash at the ends, give the same id;
* `IsSlug` — words of small letters and digits with single dashes between them;
* `idOfName_isSlug`, `idOfName_idOfName`, `idOfName_eq_iff` — an id is empty or of that
  form, it is its own id, and it is shared just by the names with the same runs.
-/
import Cadence.Flow.Id
import Cadence.Proofs.Text.Runs

namespace Cadence.Flow

open Text

/-! ### The characters of ids -/

/-- What is in lower case is no capital letter of ASCII. -/
theorem isUpper_lowerChar (c : Char) : (lowerChar c).isUpper = false := by
  have hascii : ∀ n < 128, (Char.ofNat n).toLower.isUpper = false := by decide +kernel
  have hruns : ∀ run ∈ capitalRuns, (90 : Int) < run.1 + run.2.2.2 := by decide +kernel
  have hupper (d : Char) : d.isUpper = true ↔ 65 ≤ d.toNat ∧ d.toNat ≤ 90 := by
    show decide ('A'.val ≤ d.val ∧ d.val ≤ 'Z'.val) = true ↔ _
    rw [decide_eq_true_eq]
    exact and_congr UInt32.le_iff_toNat_le UInt32.le_iff_toNat_le
  rw [lowerChar]
  split
  · next hsmall =>
    rw [← Char.ofNat_toNat c]
    exact hascii c.toNat hsmall
  · next hlarge =>
    rw [Bool.eq_false_iff, Ne]
    split
    · next first last gap shift hfind =>
      -- all small letters of a run lie behind the capital letters of ASCII
      have hrange := List.find?_some hfind
      have hbehind := hruns _ (List.mem_of_find?_eq_some hfind)
      simp only [Bool.and_eq_true, decide_eq_true_eq] at hrange hbehind
      rw [hupper]
      rcases toNat_ofNat_or (c.toNat + shift).toNat with hcode | hcode <;> omega
    · rw [hupper]
      omega

/-- In a text in lower case the characters of ids are just the letters and digits of ASCII. -/
theorem isIdChar_of_mem_lower {c : Char} {name : String} (h : c ∈ (lower name).toList) :
    isIdChar c = c.isAlphanum := by
  have hupper : c.isUpper = false := by
    rw [toList_lower] at h
    obtain rfl | ⟨d, _, hd⟩ := mem_lowerFrom h
    · rfl
    unfold lowerChars at hd
    split at hd
    · have hdotted : ['i', '\u0307'].all (!·.isUpper) = true := by decide
      simpa using List.all_eq_true.mp hdotted c hd
    · exact List.mem_singleton.mp hd ▸ isUpper_lowerChar d
  show isIdChar c = (c.isUpper || c.isLower || c.isDigit)
  rw [hupper, Bool.false_or]
  rfl

theorem lowerChars_of_isIdChar {c : Char} (h : isIdChar c = true) : lowerChars c = [c] := by
  have hascii : ∀ n < 128, isIdChar (Char.ofNat n) = true →
      lowerChars (Char.ofNat n) = [Char.ofNat n] := by
    decide +kernel
  have hsmall : c.toNat < 128 := by
    simp only [isIdChar, Bool.or_eq_true, Bool.and_eq_true, decide_eq_true_eq, Char.le_def,
      UInt32.le_iff_toNat_le] at h
    change (97 ≤ c.toNat ∧ c.toNat ≤ 122) ∨ (48 ≤ c.toNat ∧ c.toNat ≤ 57) at h
    omega
  simpa using hascii c.toNat hsmall (by simpa using h)

/-! ### Runs and ids -/

variable {name other : String} {runs : List (List Char)}

/-- The runs of an id are words of id characters. -/
theorem of_mem_idRuns {s : String} : ∀ run ∈ idRuns s, run ≠ [] ∧ ∀ c ∈ run, isIdChar c = true := by
  intro run hrun
  obtain ⟨hne, hnone⟩ := (hasRuns_runsOutside _ s.toList).of_mem run hrun
  exact ⟨hne, fun c hc => by simpa using hnone c hc⟩

/-- **The runs of an id are the runs of letters and digits of the name in lower case.** -/
theorem hasRuns_lower_iff :
    HasRuns (fun c => !c.isAlphanum) (lower name).toList runs ↔ idRuns (lower name) = runs := by
  have heq : ∀ c ∈ (lower name).toList, (!isIdChar c) = !c.isAlphanum :=
    fun c hc => by rw [isIdChar_of_mem_lower hc]
  exact ⟨fun h => hasRuns_iff.mp (h.congr heq), fun h =>
    (hasRuns_iff.mpr h).congr fun c hc => (heq c hc).symm⟩

/-- An id is the name in lower case with a dash for each row of other characters, without
dashes at its ends. -/
theorem toList_idOfName (name : String) :
    (idOfName name).toList = stripWhile (· == '-')
      (dashed (fun c => !isIdChar c) (lower name).toList) := by
  rw [idOfName, String.toList_ofList, stripWhile_dashed (by decide)]
  rfl

/-- A text in the form of an id is in lower case. -/
theorem lower_joinDashes (h : ∀ run ∈ runs, ∀ c ∈ run, isIdChar c = true) :
    lower (String.ofList (joinDashes runs)) = String.ofList (joinDashes runs) := by
  refine lower_of_forall ?_
  rw [String.toList_ofList]
  intro c hc
  rcases mem_intercalate.mp hc with ⟨rfl, _⟩ | ⟨run, hrun, hc⟩
  · rfl
  · exact lowerChars_of_isIdChar (h run hrun c hc)

/-- An id has the runs that it was made of. -/
theorem idRuns_idOfName (name : String) : idRuns (lower (idOfName name)) = idRuns (lower name) := by
  have hwords := of_mem_idRuns (s := lower name)
  rw [idOfName, lower_joinDashes fun run hrun => (hwords run hrun).2, idRuns, String.toList_ofList]
  refine hasRuns_iff.mp (hasRuns_intercalate (by decide) fun run hrun =>
    ⟨(hwords run hrun).1, fun c hc => ?_⟩)
  simpa using (hwords run hrun).2 c hc

/-- **The id of an id is the id.** -/
theorem idOfName_idOfName (name : String) : idOfName (idOfName name) = idOfName name := by
  rw [idOfName, idRuns_idOfName]
  rfl

/-- **Names have one id just if they have the same runs.** -/
theorem idOfName_eq_iff :
    idOfName other = idOfName name ↔ idRuns (lower other) = idRuns (lower name) := by
  constructor
  · intro h
    rw [← idRuns_idOfName other, h, idRuns_idOfName]
  · intro h
    rw [idOfName, h]
    rfl

/-! ### The form of ids -/

/-- Words of small letters and digits with single dashes between them. -/
inductive IsSlug : List Char → Prop
  | word {w : List Char} (ne : w ≠ []) (all : ∀ c ∈ w, isIdChar c = true) : IsSlug w
  | dash {w rest : List Char} (ne : w ≠ []) (all : ∀ c ∈ w, isIdChar c = true)
      (others : IsSlug rest) :
      IsSlug (w ++ '-' :: rest)

theorem isSlug_joinDashes (hne : runs ≠ [])
    (h : ∀ run ∈ runs, run ≠ [] ∧ ∀ c ∈ run, isIdChar c = true) :
    IsSlug (joinDashes runs) := by
  induction runs with
  | nil => exact absurd rfl hne
  | cons run runs ih =>
    obtain ⟨⟨hrun, hall⟩, hruns⟩ := List.forall_mem_cons.mp h
    cases runs with
    | nil =>
      rw [joinDashes, List.intercalate_singleton]
      exact .word hrun hall
    | cons next runs =>
      rw [joinDashes, List.intercalate_cons_cons, List.append_assoc]
      exact .dash hrun hall (ih (List.cons_ne_nil next runs) hruns)

/-- **An id is empty, or words of small letters and digits with single dashes between them.** -/
theorem idOfName_isSlug (name : String) : idOfName name = "" ∨ IsSlug (idOfName name).toList := by
  by_cases hruns : idRuns (lower name) = []
  · left
    rw [idOfName, hruns]
    rfl
  · right
    rw [idOfName, String.toList_ofList]
    exact isSlug_joinDashes hruns of_mem_idRuns

end Cadence.Flow
