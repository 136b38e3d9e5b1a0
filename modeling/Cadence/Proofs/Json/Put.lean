/-
Lists of named values, each name once.

* `lookup_put` — a name has the value that was put there last, and any other name the value
  from before;
* `put_of_lookup_none`, `put_of_lookup_some` — a new name goes to the end, and a known one
  keeps its place;
* `nodup_put` — putting keeps every name single;
* `lookup_filter` — leaving out a name;
* `collected_of_nodup`, `nodup_collected` — members that may repeat a name.
-/
import Mathlib.Tactic.Common
import Cadence.Json.Basic

namespace Cadence

variable {α β : Type} {name other : String} {value : α} {xs : List (String × α)}

theorem lookup_put_self : (put name value xs).lookup name = some value := by
  induction xs with
  | nil => exact List.lookup_cons_self
  | cons x xs ih =>
    obtain ⟨n, v⟩ := x
    by_cases h : n = name
    · rw [put, if_pos h, h]
      exact List.lookup_cons_self
    · rw [put, if_neg h, List.lookup_cons, beq_false_of_ne fun e => h e.symm]
      exact ih

theorem lookup_put_ne (hne : other ≠ name) :
    (put name value xs).lookup other = xs.lookup other := by
  induction xs with
  | nil =>
    rw [put, List.lookup_cons, beq_false_of_ne hne]
  | cons x xs ih =>
    obtain ⟨n, v⟩ := x
    by_cases h : n = name
    · rw [put, if_pos h, List.lookup_cons, List.lookup_cons, h, beq_false_of_ne hne]
    · rw [put, if_neg h, List.lookup_cons, List.lookup_cons, ih]

theorem lookup_put (name other : String) (value : α) (xs : List (String × α)) :
    (put name value xs).lookup other = if name = other then some value else xs.lookup other := by
  by_cases h : name = other
  · rw [if_pos h, ← h, lookup_put_self]
  · rw [if_neg h, lookup_put_ne fun e => h e.symm]

/-- What was put under a name before makes no difference. -/
theorem put_put (before : α) : put name value (put name before xs) = put name value xs := by
  induction xs with
  | nil => simp only [put, if_true]
  | cons x xs ih =>
    obtain ⟨n, v⟩ := x
    by_cases hn : n = name
    · simp only [put, if_pos hn]
    · simp only [put, if_neg hn, ih]

theorem lookup_eq_none_iff_names : xs.lookup name = none ↔ name ∉ names xs := by
  rw [List.lookup_eq_none_iff, names, List.mem_map]
  constructor
  · rintro h ⟨e, he, rfl⟩
    simpa using h e he
  · intro h e he
    rw [bne_iff_ne]
    intro hn
    exact h ⟨e, he, hn.symm⟩

/-- Where every name stands once, a name has the value beside it. -/
theorem lookup_eq_some_of_mem (h : (names xs).Nodup) (hmem : (name, value) ∈ xs) :
    xs.lookup name = some value := by
  induction xs with
  | nil => cases hmem
  | cons x xs ih =>
    obtain ⟨n, v⟩ := x
    obtain ⟨hn, hxs⟩ := List.nodup_cons.mp h
    rcases List.mem_cons.mp hmem with heq | htail
    · cases heq
      exact List.lookup_cons_self
    · have hne : name ≠ n := by
        rintro rfl
        exact hn (List.mem_map.mpr ⟨_, htail, rfl⟩)
      rw [List.lookup_cons, beq_false_of_ne hne]
      exact ih hxs htail

theorem mem_of_lookup_eq_some (h : xs.lookup name = some value) : (name, value) ∈ xs := by
  obtain ⟨l₁, l₂, rfl, _⟩ := List.lookup_eq_some_iff.mp h
  simp

/-- A new name goes to the end. -/
theorem put_of_lookup_none (h : xs.lookup name = none) :
    put name value xs = xs ++ [(name, value)] := by
  induction xs with
  | nil => rfl
  | cons x xs ih =>
    obtain ⟨n, v⟩ := x
    have hn : n ≠ name := by
      rintro rfl
      rw [List.lookup_cons_self] at h
      cases h
    rw [List.lookup_cons, beq_false_of_ne fun e => hn e.symm] at h
    rw [put, if_neg hn, ih h]
    rfl

/-- A known name keeps its place. -/
theorem put_of_lookup_some (hn : (names xs).Nodup) (h : (xs.lookup name).isSome) :
    put name value xs = xs.map fun e => if e.1 = name then (e.1, value) else e := by
  induction xs with
  | nil => cases h
  | cons x xs ih =>
    obtain ⟨n, v⟩ := x
    obtain ⟨hnotin, hxs⟩ := List.nodup_cons.mp hn
    by_cases he : n = name
    -- the name stands here, so nowhere else
    · have hrest : ∀ e ∈ xs, (if e.1 = name then (e.1, value) else e) = e := by
        intro e hmem
        refine if_neg ?_
        rintro rfl
        exact hnotin (List.mem_map.mpr ⟨e, hmem, he.symm⟩)
      rw [put, if_pos he, List.map_cons, if_pos he, List.map_congr_left hrest, List.map_id']
    · rw [List.lookup_cons, beq_false_of_ne fun e => he e.symm] at h
      rw [put, if_neg he, List.map_cons, if_neg he, ih hxs h]

theorem names_put_of_lookup_some (hn : (names xs).Nodup) (h : (xs.lookup name).isSome) :
    names (put name value xs) = names xs := by
  rw [put_of_lookup_some hn h, names, names, List.map_map]
  refine List.map_congr_left fun e _ => ?_
  show (if e.1 = name then (e.1, value) else e).1 = e.1
  split <;> rfl

theorem nodup_put (hn : (names xs).Nodup) : (names (put name value xs)).Nodup := by
  cases h : xs.lookup name with
  | none =>
    rw [put_of_lookup_none h, names, List.map_append]
    refine List.nodup_append.mpr ⟨hn, List.pairwise_singleton _ _, ?_⟩
    intro a ha b hb hab
    obtain rfl : b = name := List.mem_singleton.mp hb
    exact lookup_eq_none_iff_names.mp h (hab ▸ ha)
  | some v =>
    rw [names_put_of_lookup_some hn (by rw [h]; rfl)]
    exact hn

/-! ### Leaving out a name -/

theorem lookup_filter_self : (xs.filter fun e => e.1 != name).lookup name = none := by
  rw [lookup_eq_none_iff_names]
  intro h
  obtain ⟨e, he, rfl⟩ := List.mem_map.mp h
  simp at he

theorem lookup_filter_ne (hne : other ≠ name) :
    (xs.filter fun e => e.1 != name).lookup other = xs.lookup other := by
  induction xs with
  | nil => rfl
  | cons x xs ih =>
    obtain ⟨n, v⟩ := x
    rw [List.filter_cons]
    by_cases hn : n = name
    · rw [if_neg (by simp [hn]), ih, List.lookup_cons, hn, beq_false_of_ne hne]
    · rw [if_pos (by simp [hn]), List.lookup_cons, List.lookup_cons, ih]

theorem lookup_filter (name other : String) (xs : List (String × α)) :
    (xs.filter fun e => e.1 != name).lookup other = if name = other then none
      else xs.lookup other := by
  by_cases h : name = other
  · rw [if_pos h, ← h, lookup_filter_self]
  · rw [if_neg h, lookup_filter_ne fun e => h e.symm]

theorem nodup_filter (p : String × α → Bool) (hn : (names xs).Nodup) :
    (names (xs.filter p)).Nodup :=
  hn.sublist (List.Sublist.map _ List.filter_sublist)

/-! ### Collected members -/

/-- New names are put behind those that are known. -/
theorem foldl_put {known xs : List (String × α)} (h : (names (known ++ xs)).Nodup) :
    xs.foldl (fun known (n, v) => put n v known) known = known ++ xs := by
  induction xs generalizing known with
  | nil => exact (List.append_nil known).symm
  | cons x xs ih =>
    obtain ⟨n, v⟩ := x
    have hnew : known.lookup n = none := by
      rw [lookup_eq_none_iff_names]
      intro hmem
      rw [names, List.map_append] at h
      exact (List.nodup_append.mp h).2.2 n hmem n List.mem_cons_self rfl
    have hsplit : known ++ (n, v) :: xs = known ++ [(n, v)] ++ xs := by simp
    show xs.foldl _ (put n v known) = _
    rw [hsplit] at h ⊢
    rw [put_of_lookup_none hnew]
    exact ih h

/-- Where each name stands once, members are collected as they are. -/
theorem collected_of_nodup (h : (names xs).Nodup) : collected xs = xs :=
  foldl_put (show (names ([] ++ xs)).Nodup from h)

/-- Each name stands once among collected members. -/
theorem nodup_collected (xs : List (String × α)) : (names (collected xs)).Nodup := by
  have hfold : ∀ (ys known : List (String × α)), (names known).Nodup →
      (names (ys.foldl (fun known (n, v) => put n v known) known)).Nodup := by
    intro ys
    induction ys with
    | nil => exact fun _ h => h
    | cons y ys ih => exact fun known h => ih _ (nodup_put h)
  exact hfold xs [] List.nodup_nil

end Cadence
