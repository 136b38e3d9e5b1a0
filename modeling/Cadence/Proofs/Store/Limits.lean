/-
Limits of histories.

Both kinds of store give out the latest runs of a flow up to a limit.  A limit below zero
means something else in each of them: a memory leaves out runs from the end, tables know no
limit then.  Tables also refuse numbers beyond their integers.

* `Store.limited` — what a limit makes of a history in either kind of store;
* `Store.Holds.runs_some` — a history within a limit is what the limit makes of the whole history;
* `Store.Honours` — the limits under which this is the beginning of the history, and no
  longer than asked;
* `Table.Holds.run_memory` — a table and a memory that were asked the same, all of it
  finite, hold the same.
-/
import Cadence.Proofs.Store.Alike
import Mathlib.Data.List.Forall2

namespace Cadence

open Calendar

/-! ### Beginnings of lists -/

namespace Memory

variable {α : Type} {n : Int} {xs : List α}

/-- A limit below zero gives a beginning that is as short as asked just if it leaves out
everything. -/
theorem keepFirst_eq_take_iff :
    keepFirst n xs = xs.take n.toNat ↔ 0 ≤ n ∨ xs.length ≤ n.natAbs := by
  rcases Int.lt_or_le n 0 with hn | hn
  · have hzero : n.toNat = 0 := by omega
    rw [keepFirst, if_neg (Int.not_le.mpr hn), hzero, List.take_zero, List.take_eq_nil_iff,
      ← List.length_eq_zero_iff]
    omega
  · exact iff_of_true (keepFirst_of_nonneg hn xs) (Or.inl hn)

end Memory

namespace Table

variable {α : Type} {n : Int} {xs : List α}

theorem within_eq_take_iff : within n xs = xs.take n.toNat ↔ 0 ≤ n ∨ xs = [] := by
  rcases Int.lt_or_le n 0 with hn | hn
  · have hzero : n.toNat = 0 := by omega
    rw [within, if_pos hn, hzero, List.take_zero]
    exact ⟨Or.inr, fun h => h.resolve_left (Int.not_le.mpr hn)⟩
  · exact iff_of_true (if_neg (Int.not_lt.mpr hn)) (Or.inl hn)

/-- The beginning of what rows are read as is what their beginning is read as. -/
theorem mapM_within {β ε : Type} {f : α → Except ε β} {ys : List β} (h : xs.mapM f = .ok ys)
    (n : Int) :
    (within n xs).mapM f = .ok (within n ys) := by
  unfold within
  split
  · exact h
  · exact mapM_eq_ok.mpr (List.forall₂_take n.toNat (mapM_eq_ok.mp h))

end Table

/-! ### Limits -/

namespace Store

/-- What a limit makes of a history. -/
def limited : Store → Int → List RunRecord → Except StoreFault Answer
  | .memory _, n, rs => .ok (.runs (keepFirst n rs))
  | .table _, n, rs => if Table.isLimit n then .ok (.runs (Table.within n rs)) else .error .limit
  | .remote, _, _ => .error (.outage "the server cannot be reached")

/-- The limits under which the beginning of a history is given out that is asked for. -/
def Honours : Store → Int → Nat → Prop
  | .memory _, n, stored => 0 ≤ n ∨ stored ≤ n.natAbs
  | .table _, n, stored => Table.isLimit n = true ∧ (0 ≤ n ∨ stored = 0)
  | .remote, _, _ => False

theorem limited_eq_take_iff {s : Store} {n : Int} {rs : List RunRecord} :
    s.limited n rs = .ok (.runs (rs.take n.toNat)) ↔ s.Honours n rs.length := by
  cases s with
  | memory m =>
    rw [limited, Except.ok.injEq, Answer.runs.injEq]
    exact Memory.keepFirst_eq_take_iff
  | table t =>
    show (if Table.isLimit n then .ok (.runs (Table.within n rs))
      else .error .limit : Except StoreFault Answer) = _ ↔
      Table.isLimit n = true ∧ (0 ≤ n ∨ rs.length = 0)
    cases Table.isLimit n with
    | true =>
      rw [if_pos rfl, Except.ok.injEq, Answer.runs.injEq, Table.within_eq_take_iff,
        List.length_eq_zero_iff]
      exact (and_iff_right rfl).symm
    | false => exact iff_of_false nofun nofun
  | remote => exact iff_of_false nofun id

/-- **A history within a limit is what the limit makes of the whole history.** -/
theorem Holds.runs_some {s : Store} {m : Memory} (h : s.Holds m) {id : String} {now now' : Moment}
    {rs : List RunRecord} (hall : (s.apply now (.runs id none)).1 = .ok (.runs rs)) (n : Int) :
    (s.apply now' (.runs id (some n))).1 = s.limited n rs := by
  cases s with
  | memory m₀ =>
    rw [apply_memory_runs] at hall ⊢
    cases hfind : m₀.find id with
    | error e =>
      rw [hfind] at hall
      cases hall
    | ok f =>
      rw [hfind] at hall
      obtain rfl : m₀.history id = rs := Answer.runs.inj (Except.ok.inj hall)
      rfl
  | table t =>
    have hrows (limit : Int) : t.latestRuns id limit = Table.within limit (t.runsOf id).reverse :=
      Table.latestRuns_eq (Table.Holds.numbered h) id limit
    replace hall : (Table.history id none t).1 = .ok (.runs rs) := hall
    show (Table.history id (some n) t).1 = _
    rw [Table.history_run, hrows] at hall ⊢
    obtain ⟨f, hflow, hall⟩ := bind_eq_ok.mp hall
    obtain ⟨read, hread, hall⟩ := bind_eq_ok.mp hall
    obtain rfl : read = rs := Answer.runs.inj (Except.ok.inj hall)
    have hpart : (Table.within n (t.runsOf id).reverse).mapM
        (fun r => Table.readRun t.codec r.document) = .ok (Table.within n read) :=
      Table.mapM_within hread n
    dsimp only
    rw [hflow, ok_bind]
    show _ = if Table.isLimit n then _ else _
    cases hlimit : Table.isLimit n with
    | true =>
      rw [Option.getD_some, hlimit, hpart]
      rfl
    | false =>
      rw [Option.getD_some, hlimit]
      rfl
  | remote => exact h.elim

end Store

/-! ### The same requests to either kind -/

namespace Table

variable {t : Table} {m : Memory}

/-- **Tables with a lossless codec and a memory that are asked the same, all of it finite,
hold the same.** -/
theorem Holds.run_memory (h : t.Holds m) (hs : m.Sound) (hf : m.IsFinite)
    (hcodec : t.codec.IsLossless) (hl : isLimit t.limit = true)
    {asked : List (Moment × Operation)} (ha : Store.AreWellFormed asked)
    (hfinite : ∀ q ∈ asked, q.2.isFinite = true) :
    ∃ t' m', ((Store.table t).run asked).2 = .table t' ∧
      ((Store.memory m).run asked).2 = .memory m' ∧
      t'.Holds m' ∧ m'.Sound ∧ m'.IsFinite ∧ t'.codec.IsLossless := by
  induction asked generalizing t m with
  | nil => exact ⟨t, m, rfl, rfl, h, hs, hf, hcodec⟩
  | cons q rest ih =>
    obtain ⟨now, op⟩ := q
    obtain ⟨hnow, hop⟩ := ha _ List.mem_cons_self
    obtain ⟨m₁, hm₁, ht₁, hs₁, hf₁⟩ : ∃ m', ((Store.memory m).apply now op).2 = .memory m' ∧
        (t.apply now op).2.Holds m' ∧ m'.Sound ∧ m'.IsFinite := by
      cases op with
      | runs id limit =>
        -- the answers may differ, but neither kind is changed
        have htable : (t.apply now (.runs id limit)).2 = t :=
          congrArg Prod.snd (history_run id limit t)
        have hmemory : ((Store.memory m).apply now (.runs id limit)).2 = .memory m := by
          rw [Store.apply_memory_runs]
        exact ⟨m, hmemory, by rw [htable]; exact h, hs, hf⟩
      | _ =>
        obtain ⟨m', hm', ht', hs', hf', _⟩ :=
          Store.apply_finite h hs hf hcodec hl hnow hop (hfinite _ List.mem_cons_self) trivial
        exact ⟨m', hm', ht', hs', hf'⟩
    obtain ⟨t', m', ht', hm', hrest⟩ := ih ht₁ hs₁ hf₁ (by rw [codec_apply]; exact hcodec)
      (by rw [limit_apply]; exact hl)
      (fun q hq => ha q (List.mem_cons_of_mem _ hq))
        (fun q hq => hfinite q (List.mem_cons_of_mem _ hq))
    refine ⟨t', m', ht', ?_, hrest⟩
    rw [← hm', ← hm₁]
    rfl

/-- Under a limit that is a count, tables with a lossless codec give out the history that is
in memory, if all of it is finite. -/
theorem Holds.runs_eq_memory (h : t.Holds m) (hs : m.Sound) (hf : m.IsFinite)
    (hcodec : t.codec.IsLossless) {limit : Option Int} (hc : IsCount limit) (id : String)
    (now now' : Moment) :
    ((Store.memory m).apply now (.runs id limit)).1 =
      ((Store.table t).apply now' (.runs id limit)).1 := by
  rw [Store.apply_memory_runs]
  exact (h.history_of_finite hs hf hcodec hc).symm

end Table

end Cadence
