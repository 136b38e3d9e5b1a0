/-
Runs of characters.

* `HasRuns` — a text taken apart into rows of characters of a class, the gaps, and the rows
  between them, the runs;
* `hasRuns_iff` — every text has just one list of runs, and these are the ones that are found;
* `hasRuns_intercalate` — words that are joined by a character of the class are found again;
* `dashed` — a text in which a dash stands for each gap;
* `stripWhile_dashed` — without the dashes at its ends this is the runs joined by dashes.
-/
import Mathlib.Data.List.TakeWhile
import Cadence.Proofs.Text.Parts

namespace Cadence.Text

/-! ### Runs -/

/-- A text that consists of gaps, rows of characters of a class, and of runs, rows of other
characters. A run is not empty, and what follows it is a gap or the end of the text. -/
inductive HasRuns (p : Char → Bool) : List Char → List (List Char) → Prop
  | gap {gap : List Char} (all : ∀ c ∈ gap, p c = true) : HasRuns p gap []
  | run {gap run rest : List Char} {runs : List (List Char)} (all : ∀ c ∈ gap, p c = true)
    (ne : run ≠ []) (none : ∀ c ∈ run, p c = false) (ends : ∀ c ∈ rest.head?, p c = true)
    (others : HasRuns p rest runs) : HasRuns p (gap ++ run ++ rest) (run :: runs)

variable {p : Char → Bool} {cs gap run rest : List Char} {runs : List (List Char)}

/-- A gap at the beginning makes no difference. -/
theorem HasRuns.after_gap (h : HasRuns p cs runs) (hgap : ∀ c ∈ gap, p c = true) :
    HasRuns p (gap ++ cs) runs := by
  cases h with
  | gap all => exact .gap (List.forall_mem_append.mpr ⟨hgap, all⟩)
  | run all ne none ends others =>
    rw [← List.append_assoc, ← List.append_assoc]
    exact .run (List.forall_mem_append.mpr ⟨hgap, all⟩) ne none ends others

/-- A text may begin with a run. -/
theorem HasRuns.first (ne : run ≠ []) (none : ∀ c ∈ run, p c = false)
    (ends : ∀ c ∈ rest.head?, p c = true) (others : HasRuns p rest runs) :
    HasRuns p (run ++ rest) (run :: runs) :=
  @HasRuns.run p [] run rest runs (by simp) ne none ends others

/-- Each run is a word of the text. -/
theorem HasRuns.of_mem (h : HasRuns p cs runs) :
    ∀ run ∈ runs, run ≠ [] ∧ ∀ c ∈ run, p c = false := by
  induction h with
  | gap _ => exact nofun
  | run _ ne none _ _ ih => exact List.forall_mem_cons.mpr ⟨⟨ne, none⟩, ih⟩

/-- The class counts only as far as the characters of the text go. -/
theorem HasRuns.congr {q : Char → Bool} (h : HasRuns p cs runs) (heq : ∀ c ∈ cs, q c = p c) :
    HasRuns q cs runs := by
  induction h with
  | gap all => exact .gap fun c hc => (heq c hc).trans (all c hc)
  | run all ne none ends _ ih =>
    simp only [List.forall_mem_append] at heq
    obtain ⟨⟨hgap, hrun⟩, hrest⟩ := heq
    refine .run (fun c hc => (hgap c hc).trans (all c hc)) ne
      (fun c hc => (hrun c hc).trans (none c hc)) ?_ (ih hrest)
    exact fun c hc => (hrest c (List.mem_of_head? hc)).trans (ends c hc)

/-! ### Finding runs -/

theorem runsOutside_gap (h : ∀ c ∈ gap, p c = true) (cs : List Char) :
    runsOutside p (gap ++ cs) = runsOutside p cs := by
  induction gap with
  | nil => rfl
  | cons c gap ih =>
    rw [List.cons_append, runsOutside.eq_def]
    simp only [if_pos (h c List.mem_cons_self), ih fun d hd => h d (List.mem_cons_of_mem c hd)]

theorem runsOutside_run (hne : run ≠ []) (hrun : ∀ c ∈ run, p c = false)
    (hends : ∀ c ∈ rest.head?, p c = true) :
    runsOutside p (run ++ rest) = run :: runsOutside p rest := by
  induction run with
  | nil => exact absurd rfl hne
  | cons c run ih =>
    have hc : ¬ p c = true := by simp [hrun c List.mem_cons_self]
    cases run with
    | nil =>
      cases rest with
      | nil => simp only [List.cons_append, List.nil_append, runsOutside, if_neg hc]
      | cons d rest =>
        rw [List.cons_append, List.nil_append, runsOutside, if_neg hc, if_pos (hends d rfl)]
    | cons d run =>
      have hd : ¬ p d = true := by simp [hrun d (by simp)]
      have hmore := ih (List.cons_ne_nil d run) fun e he => hrun e (List.mem_cons_of_mem c he)
      rw [List.cons_append] at hmore
      rw [List.cons_append, List.cons_append, runsOutside, if_neg hc, if_neg hd, hmore]

/-- A text begins with characters of a class, as far as they go. -/
theorem exists_front (p : Char → Bool) (cs : List Char) :
    ∃ front rest, cs = front ++ rest ∧ (∀ c ∈ front, p c = true) ∧
      ∀ c ∈ rest.head?, p c = false := by
  refine ⟨cs.takeWhile p, cs.dropWhile p, List.takeWhile_append_dropWhile.symm,
    List.all_eq_true.mp List.all_takeWhile, fun c hc => ?_⟩
  simpa [Option.mem_def.mp hc] using List.head?_dropWhile_not p cs

/-- The runs that are found are runs of the text. -/
theorem hasRuns_runsOutside (p : Char → Bool) (cs : List Char) :
    HasRuns p cs (runsOutside p cs) := by
  -- by induction on the number of characters: what follows the first gap and the first run
  -- is shorter
  induction hlength : cs.length using Nat.strongRecOn generalizing cs with
  | ind n ih =>
    obtain ⟨gap, cs', rfl, hgap, hhead⟩ := exists_front p cs
    rw [runsOutside_gap hgap]
    refine HasRuns.after_gap ?_ hgap
    cases cs' with
    | nil => exact .gap nofun
    | cons c cs =>
      have hc : p c = false := hhead c rfl
      obtain ⟨run, rest, rfl, hrun, hends⟩ := exists_front (!p ·) cs
      simp only [Bool.not_eq_true', Bool.not_eq_false'] at hrun hends
      have hword : ∀ d ∈ c :: run, p d = false := List.forall_mem_cons.mpr ⟨hc, hrun⟩
      have hshorter : rest.length < n := by
        rw [← hlength]
        simp only [List.length_append, List.length_cons]
        omega
      rw [← List.cons_append, runsOutside_run (List.cons_ne_nil c run) hword hends]
      exact .first (List.cons_ne_nil c run) hword hends (ih _ hshorter rest rfl)

/-- **Every text has just one list of runs, and these are the ones that are found.** -/
theorem hasRuns_iff : HasRuns p cs runs ↔ runsOutside p cs = runs := by
  refine ⟨fun h => ?_, fun h => h ▸ hasRuns_runsOutside p cs⟩
  induction h with
  | @gap gap all => rw [← List.append_nil gap, runsOutside_gap all, runsOutside]
  | run all ne none ends _ ih =>
    rw [List.append_assoc, runsOutside_gap all, runsOutside_run ne none ends, ih]

/-- Words that are joined by a character of the class are found again. -/
theorem hasRuns_intercalate {sep : Char} (hsep : p sep = true)
    (h : ∀ run ∈ runs, run ≠ [] ∧ ∀ c ∈ run, p c = false) :
    HasRuns p ([sep].intercalate runs) runs := by
  induction runs with
  | nil => exact .gap nofun
  | cons run runs ih =>
    obtain ⟨⟨hne, hrun⟩, hruns⟩ := List.forall_mem_cons.mp h
    cases runs with
    | nil =>
      have hword : HasRuns p (run ++ []) [run] := .first hne hrun (by simp) (.gap (by simp))
      rw [List.append_nil] at hword
      rwa [List.intercalate_singleton]
    | cons next runs =>
      rw [List.intercalate_cons_cons, List.append_assoc]
      refine .first hne hrun (fun c hc => ?_) ((ih hruns).after_gap ?_)
      · obtain rfl : sep = c := Option.some_inj.mp hc
        exact hsep
      · exact fun c hc => List.mem_singleton.mp hc ▸ hsep

/-- Words that are joined begin as the first one does. -/
theorem head?_intercalate {sep : Char} (h : ∀ run ∈ runs, run ≠ []) :
    ([sep].intercalate runs).head? = runs.head?.bind List.head? := by
  cases runs with
  | nil => rfl
  | cons run runs =>
    obtain ⟨rest, hrest⟩ : ∃ rest, [sep].intercalate (run :: runs) = run ++ rest :=
      exists_intercalate_cons run runs
    obtain ⟨c, run', rfl⟩ := List.exists_cons_of_ne_nil (h run List.mem_cons_self)
    rw [hrest]
    rfl

/-- Words that are joined end as the last one does. -/
theorem getLast?_intercalate {sep : Char} (h : ∀ run ∈ runs, run ≠ []) :
    ([sep].intercalate runs).getLast? = runs.getLast?.bind List.getLast? := by
  induction runs with
  | nil => rfl
  | cons run runs ih =>
    cases runs with
    | nil => simp
    | cons next runs =>
      have hrest := ih fun r hr => h r (List.mem_cons_of_mem run hr)
      obtain ⟨front, c, hlast⟩ : ∃ front c, [sep].intercalate (next :: runs) = front ++ [c] := by
        obtain ⟨rest, heq⟩ : ∃ rest, [sep].intercalate (next :: runs) = next ++ rest :=
          exists_intercalate_cons next runs
        rw [heq]
        have hne := List.append_ne_nil_of_left_ne_nil (h next (by simp)) rest
        exact ⟨_, _, (List.dropLast_concat_getLast hne).symm⟩
      rw [List.getLast?_cons_cons, ← hrest, List.intercalate_cons_cons, hlast, ← List.append_assoc,
        List.getLast?_concat, List.getLast?_concat]

/-! ### Dashes for gaps -/

/-- A text in which a dash stands for each row of characters of a class. -/
def dashed (p : Char → Bool) : List Char → List Char
  | [] => []
  | c :: cs =>
    if p c then if cs.head?.any p then dashed p cs else '-' :: dashed p cs
    else c :: dashed p cs

theorem dashed_gap (hne : gap ≠ []) (hgap : ∀ c ∈ gap, p c = true)
    (hends : ∀ c ∈ rest.head?, p c = false) :
    dashed p (gap ++ rest) = '-' :: dashed p rest := by
  induction gap with
  | nil => exact absurd rfl hne
  | cons c gap ih =>
    have hc := hgap c List.mem_cons_self
    cases gap with
    | nil =>
      have hlast : rest.head?.any p = false := by
        cases rest with
        | nil => rfl
        | cons d rest => exact hends d rfl
      rw [List.cons_append, List.nil_append, dashed, if_pos hc, hlast]
      rfl
    | cons d gap =>
      have hnext : (d :: (gap ++ rest)).head?.any p = true := hgap d (by simp)
      have hmore := ih (List.cons_ne_nil d gap) fun e he => hgap e (List.mem_cons_of_mem c he)
      rw [List.cons_append] at hmore
      rw [List.cons_append, List.cons_append, dashed, if_pos hc, if_pos hnext, hmore]

theorem dashed_run (hrun : ∀ c ∈ run, p c = false) (rest : List Char) :
    dashed p (run ++ rest) = run ++ dashed p rest := by
  induction run with
  | nil => rfl
  | cons c run ih =>
    rw [List.cons_append, dashed, if_neg (by simp [hrun c List.mem_cons_self]),
      ih fun d hd => hrun d (List.mem_cons_of_mem c hd), List.cons_append]

/-- With dashes for its gaps a text is its runs joined by dashes, a dash before them just if
the text begins with a gap, and none or one after them. -/
theorem HasRuns.dashed_eq (h : HasRuns p cs runs) :
    ∃ after, (∀ c ∈ after, c = '-') ∧
      dashed p cs = (if cs.head?.any p then ['-'] else []) ++ ['-'].intercalate runs ++ after := by
  induction h with
  | @gap gap all =>
    cases gap with
    | nil => exact ⟨[], nofun, rfl⟩
    | cons c gap =>
      refine ⟨[], nofun, ?_⟩
      have hfirst : (c :: gap).head?.any p = true := all c List.mem_cons_self
      have hdash : dashed p (c :: gap ++ []) = ['-'] :=
        dashed_gap (List.cons_ne_nil c gap) all (by simp)
      rw [List.append_nil] at hdash
      rw [if_pos hfirst, hdash]
      rfl
  | @run gap run rest runs all ne none ends others ih =>
    obtain ⟨after, hafter, hrest⟩ := ih
    obtain ⟨d, run', rfl⟩ := List.exists_cons_of_ne_nil ne
    -- the text begins with a gap just if the gap before its first run is not empty
    have hlead : dashed p (gap ++ (d :: run') ++ rest) =
        (if (gap ++ (d :: run') ++ rest).head?.any p then ['-'] else []) ++ (d :: run') ++
          dashed p rest := by
      cases gap with
      | nil =>
        have hfirst : ¬ ([] ++ (d :: run') ++ rest).head?.any p =
            true := by simp [none d List.mem_cons_self]
        rw [if_neg hfirst]
        exact dashed_run none rest
      | cons c gap =>
        have hfirst : ((c :: gap) ++ (d :: run') ++ rest).head?.any p = true :=
          all c List.mem_cons_self
        have hends : ∀ e ∈ ((d :: run') ++ rest).head?, p e = false := by
          intro e he
          obtain rfl : d = e := Option.some_inj.mp he
          exact none d List.mem_cons_self
        rw [if_pos hfirst, List.append_assoc, dashed_gap (List.cons_ne_nil c gap) all hends,
          dashed_run none]
        rfl
    rw [hlead, hrest]
    cases rest with
    | nil =>
      obtain rfl : runs = [] := (hasRuns_iff.mp others).symm
      refine ⟨after, hafter, ?_⟩
      simp
    | cons e rest =>
      have hgap : (e :: rest).head?.any p = true := ends e rfl
      rw [if_pos hgap]
      cases runs with
      | nil =>
        refine ⟨'-' :: after, List.forall_mem_cons.mpr ⟨rfl, hafter⟩, ?_⟩
        simp
      | cons next runs =>
        refine ⟨after, hafter, ?_⟩
        rw [List.intercalate_cons_cons]
        simp only [List.append_assoc]

/-- **Without the dashes at its ends, a text with dashes for its gaps is its runs joined by
dashes.** -/
theorem stripWhile_dashed (hdash : p '-' = true) (cs : List Char) :
    stripWhile (· == '-') (dashed p cs) = ['-'].intercalate (runsOutside p cs) := by
  have hruns := hasRuns_runsOutside p cs
  obtain ⟨after, hafter, heq⟩ := hruns.dashed_eq
  have hword : ∀ run ∈ runsOutside p cs, run ≠ [] ∧ ∀ c ∈ run, (c == '-') = false := by
    intro run hrun
    obtain ⟨hne, hnone⟩ := hruns.of_mem run hrun
    refine ⟨hne, fun c hc => beq_eq_false_iff_ne.mpr ?_⟩
    rintro rfl
    exact absurd (hnone '-' hc) (by simp [hdash])
  have hbefore : ∀ c ∈ (if cs.head?.any p then ['-'] else [] : List Char), (c == '-') = true := by
    intro c hc
    split at hc
    · exact beq_iff_eq.mpr (List.mem_singleton.mp hc)
    · cases hc
  have hbehind : ∀ c ∈ after, (c == '-') = true := fun c hc => beq_iff_eq.mpr (hafter c hc)
  rw [heq]
  generalize runsOutside p cs = runs at hword
  have hne : ∀ run ∈ runs, run ≠ [] := fun run hrun => (hword run hrun).1
  by_cases hruns : runs = []
  · -- nothing but dashes
    subst hruns
    have hall : ∀ c ∈ (if cs.head?.any p then ['-'] else [] : List Char) ++ after,
        (c == '-') = true :=
      List.forall_mem_append.mpr ⟨hbefore, hbehind⟩
    rw [List.intercalate_nil, List.append_nil, stripWhile, List.dropWhile_eq_nil_iff.mpr hall]
    rfl
  · obtain ⟨run, more, rfl⟩ := List.exists_cons_of_ne_nil hruns
    refine stripWhile_append hbefore hbehind ?_ (fun c hc => ?_) (fun c hc => ?_)
    · obtain ⟨rest, hrest⟩ : ∃ rest, ['-'].intercalate (run :: more) = run ++ rest :=
        exists_intercalate_cons run more
      rw [hrest]
      exact List.append_ne_nil_of_left_ne_nil (hne run List.mem_cons_self) rest
    · rw [head?_intercalate hne, Option.mem_def, Option.bind_eq_some_iff] at hc
      obtain ⟨word, hmem, hc⟩ := hc
      exact (hword word (List.mem_of_head? hmem)).2 c (List.mem_of_head? hc)
    · rw [getLast?_intercalate hne, Option.mem_def, Option.bind_eq_some_iff] at hc
      obtain ⟨word, hmem, hc⟩ := hc
      exact (hword word (List.mem_of_getLast? hmem)).2 c (List.mem_of_getLast? hc)

end Cadence.Text
