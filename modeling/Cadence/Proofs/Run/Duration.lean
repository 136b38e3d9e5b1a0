/-
What texts are durations.

A duration is a numeral and a unit, with any blanks before and after them.  The numeral
counts as it is written, zeros at its beginning included: one with too many digits is not
read, however small its number is.

* `Measure` — the units and their lengths;
* `Numeral.value_eq` — the value of a numeral is that of its digits by their places;
* `Duration.Writes` — the numeral and the unit that a text writes;
* `Duration.split?_append`, `Duration.exists_of_split?` — just a numeral and a unit are taken apart;
* `Duration.parse_format` — what is read of a text that writes a duration, and that any
  other text is refused.
-/
import Mathlib.Data.List.Basic
import Mathlib.Data.Nat.Digits.Defs
import Cadence.Duration
import Cadence.Proofs.Decimal.Numeral

namespace Cadence

open Text

/-! ### Units -/

/-- The units of durations. -/
inductive Measure where
  | milliseconds | seconds | minutes | hours

namespace Measure

/-- A unit as it is written. -/
def chars : Measure → List Char
  | milliseconds => ['m', 's']
  | seconds => ['s']
  | minutes => ['m']
  | hours => ['h']

/-- The milliseconds of a unit. -/
def millis : Measure → Nat
  | milliseconds => 1
  | seconds => 1000
  | minutes => 60 * 1000
  | hours => 60 * 60 * 1000

/-- A unit is written in letters. -/
theorem of_mem_chars {u : Measure} {c : Char} (h : c ∈ u.chars) :
    isDecimalDigit c = false ∧ isBlank c = false := by
  have hall : u.chars.all (fun c => !isDecimalDigit c && !isBlank c) = true := by cases u <;> decide
  simpa using List.all_eq_true.mp hall c h

theorem chars_ne (u : Measure) : u.chars ≠ [] := by
  cases u <;> exact List.cons_ne_nil _ _

end Measure

/-! ### Values -/

/-- **The value of a numeral is that of its digits by their places.** -/
theorem Numeral.value_eq (n : Numeral) :
    n.value = Nat.ofDigits 10 (n.chars.filterMap digitValue?).reverse := by
  rw [Nat.ofDigits_eq_foldr, List.foldr_reverse, value, Decimal.digitsValue]
  simp only [Nat.cast_id, Nat.add_comm]

namespace Duration

/-- A text writes a numeral and a unit, with any blanks around them. -/
def Writes (s : String) (n : Numeral) (u : Measure) : Prop :=
  ∃ before after, (∀ c ∈ before, isBlank c = true) ∧ (∀ c ∈ after, isBlank c = true) ∧
    s.toList = before ++ (n.chars ++ u.chars) ++ after

variable {s : String} {cs : List Char} {n : Numeral} {u : Measure}

/-! ### Taking a text apart -/

theorem unit?_chars (u : Measure) : unit? u.chars = some u.millis := by
  cases u <;> rfl

theorem exists_of_unit? {k : Nat} (h : unit? cs = some k) : ∃ u : Measure, cs = u.chars := by
  unfold unit? at h
  split at h
  · exact ⟨.milliseconds, rfl⟩
  · exact ⟨.seconds, rfl⟩
  · exact ⟨.minutes, rfl⟩
  · exact ⟨.hours, rfl⟩
  · cases h

/-- A numeral and a unit are taken apart. -/
theorem split?_append (n : Numeral) (u : Measure) :
    split? (n.chars ++ u.chars) = some (n.chars.filterMap digitValue?, u.millis) := by
  have hunit : ∃ c cs, u.chars = c :: cs := List.exists_cons_of_ne_nil u.chars_ne
  obtain ⟨c, cs, hcs⟩ := hunit
  have hc : isDecimalDigit c = false := (Measure.of_mem_chars (hcs ▸ List.mem_cons_self)).1
  have htake : (n.chars ++ u.chars).takeWhile isDecimalDigit = n.chars := by
    rw [List.takeWhile_append_of_pos n.digits, hcs,
      List.takeWhile_cons_of_neg (by simp [hc]), List.append_nil]
  have hdrop : (n.chars ++ u.chars).dropWhile isDecimalDigit = u.chars := by
    rw [List.dropWhile_append_of_pos n.digits, hcs, List.dropWhile_cons_of_neg (by simp [hc])]
  have hne : n.chars.isEmpty = false := List.isEmpty_eq_false_iff.mpr n.chars_ne
  simp only [split?, htake, hdrop, hne, unit?_chars]
  rfl

/-- Nothing but a numeral and a unit is taken apart. -/
theorem exists_of_split? {x : List Nat × Nat} (h : split? cs = some x) :
    ∃ (n : Numeral) (u : Measure), cs = n.chars ++ u.chars := by
  simp only [split?] at h
  split at h
  · cases h
  next hne =>
    obtain ⟨k, hk, _⟩ := Option.map_eq_some_iff.mp h
    obtain ⟨u, hu⟩ := exists_of_unit? hk
    have hdigits : ∀ c ∈ cs.takeWhile isDecimalDigit, isDecimalDigit c = true :=
      List.all_eq_true.mp List.all_takeWhile
    refine ⟨⟨cs.takeWhile isDecimalDigit, by simpa using hne, hdigits⟩, u, ?_⟩
    rw [← hu]
    exact List.takeWhile_append_dropWhile.symm

/-! ### Reading -/

/-- Without the blanks around it, a text that writes a duration is the numeral and the unit. -/
theorem Writes.stripWhile_eq (h : Writes s n u) :
    stripWhile isBlank s.toList = n.chars ++ u.chars := by
  obtain ⟨before, after, hbefore, hafter, hs⟩ := h
  rw [hs]
  refine stripWhile_append hbefore hafter (List.append_ne_nil_of_left_ne_nil n.chars_ne _) ?_ ?_
  · intro c hc
    rw [List.head?_append_of_ne_nil _ n.chars_ne] at hc
    exact isBlank_of_isDigitSign (n.isDigitSign (List.mem_of_head? hc))
  · intro c hc
    rw [List.getLast?_append_of_ne_nil _ u.chars_ne] at hc
    exact (Measure.of_mem_chars (List.mem_of_getLast? hc)).2

/-- A text of which a number and a unit are taken writes a duration. -/
theorem exists_writes {x : List Nat × Nat} (h : split? (stripWhile isBlank s.toList) = some x) :
    ∃ n u, Writes s n u := by
  obtain ⟨n, u, hcs⟩ := exists_of_split? h
  obtain ⟨before, after, hbefore, hafter, hs⟩ := exists_stripWhile isBlank s.toList
  exact ⟨n, u, before, after, hbefore, hafter, hcs ▸ hs⟩

/-- **What is read of a text that writes a duration.** -/
theorem Writes.parse_eq (h : Writes s n u) :
    parse s = if Decimal.maxIntegerDigits < n.chars.length then .error (.tooLong n.chars.length)
      else .ok (n.value * u.millis) := by
  rw [parse, h.stripWhile_eq, split?_append]
  simp only [n.length_values]
  rfl

/-- **Durations are read as their numbers of milliseconds, and no other text is read.**  A
numeral and a unit, with any blanks around them, are read as the number that the numeral
writes, times the length of the unit, if the numeral does not have too many digits; if it
has, that is the fault.  Any other text is refused for its form. -/
theorem parse_format (s : String) :
    (∀ n u, Writes s n u → n.IsReadable →
      parse s = .ok (Nat.ofDigits 10 (n.chars.filterMap digitValue?).reverse * u.millis)) ∧
    (∀ n u, Writes s n u → ¬ n.IsReadable → parse s = .error (.tooLong n.chars.length)) ∧
    ((∀ n u, ¬ Writes s n u) → parse s = .error (.malformed s)) := by
  refine ⟨fun n u h hshort => ?_, fun n u h hlong => ?_, fun hnone => ?_⟩
  · rw [h.parse_eq, if_neg (Nat.not_lt.mpr hshort), n.value_eq]
  · rw [h.parse_eq, if_pos (Nat.lt_of_not_le hlong)]
  · unfold parse
    cases hsplit : split? (stripWhile isBlank s.toList) with
    | none => rfl
    | some x =>
      obtain ⟨n, u, h⟩ := exists_writes hsplit
      exact absurd h (hnone n u)

/-- Digits of three scripts between blanks, a numeral that is too long though its number is
small, and a text with a blank inside. -/
theorem parse_format_scripts :
    let mixed : Numeral := ⟨['٣', '0', '５'], List.cons_ne_nil _ _, List.all_eq_true.mp (by decide)⟩
    let zeros : List Char := List.replicate 4300 '0'
    let long : Numeral :=
        ⟨zeros ++ ['5'], List.append_ne_nil_of_right_ne_nil _ (List.cons_ne_nil _ _), by
      intro c hc
      rcases List.mem_append.mp hc with hc | hc
      · exact List.eq_of_mem_replicate hc ▸ by decide
      · exact List.mem_singleton.mp hc ▸ by decide⟩
    let text := String.ofList (zeros ++ ['5', 's'])
    (Writes "\u00a0٣0５ms\n" mixed .milliseconds ∧ mixed.IsReadable ∧
      parse "\u00a0٣0５ms\n" = .ok 305) ∧
      (Writes text long .seconds ∧ ¬ long.IsReadable ∧ parse text = .error (.tooLong 4301)) ∧
      (∀ n u, ¬ Writes "5 s" n u) ∧ parse "5 s" = .error (.malformed "5 s") := by
  intro mixed zeros long text
  have hmixed : Writes "\u00a0٣0５ms\n" mixed .milliseconds :=
    ⟨['\u00a0'], ['\n'], List.forall_mem_singleton.mpr (by decide),
      List.forall_mem_singleton.mpr (by decide), by decide +kernel⟩
  have hlong : Writes text long .seconds := by
    refine ⟨[], [], nofun, nofun, ?_⟩
    rw [String.toList_ofList]
    exact (List.append_nil _).symm.trans
      (congrArg (· ++ []) (List.append_assoc zeros ['5'] ['s']).symm)
  have hlength : long.chars.length = 4301 := by
    rw [show long.chars = zeros ++ ['5'] from rfl, List.length_append, List.length_replicate]
    rfl
  have htooLong : ¬ long.IsReadable := by
    rw [Numeral.IsReadable, hlength]
    decide
  have hshort : mixed.IsReadable := show 3 ≤ Decimal.maxIntegerDigits by decide
  have hnone : ∀ n u, ¬ Writes "5 s" n u := by
    intro n u h
    have hblank : stripWhile isBlank "5 s".toList = ['5', ' ', 's'] := by decide +kernel
    have hsplit : split? ['5', ' ', 's'] = none := by decide +kernel
    rw [← hblank, h.stripWhile_eq, split?_append] at hsplit
    cases hsplit
  have hread := (parse_format _).1 mixed _ hmixed hshort
  have hrefused := (parse_format _).2.1 long _ hlong htooLong
  rw [hlength] at hrefused
  exact ⟨⟨hmixed, hshort, hread⟩, ⟨hlong, htooLong, hrefused⟩, hnone, (parse_format _).2.2 hnone⟩

end Duration

end Cadence
