/-
The command that shows a history.

What it writes, and how it ends, depends on nothing but what the open store answers.

* `shownRuns`, `shownHistory` — what is written of an answer, and how the command ends;
* `Desk.perform_history` — the command asks the open store once, and shows the answer;
* `Command.parse_history` — the command line that hands over an integer as the limit;
* `Desk.history_limit` — the limits under which a store of either kind gives out, and the
  command shows, the beginning of a history, and no more than asked.
-/
import Cadence.Proofs.Command.Pieces
import Cadence.Proofs.Store.Limits

namespace Cadence

open Calendar

/-- The lines that show a history. -/
def shownRuns (runs : List RunRecord) : List String :=
  if runs.isEmpty then ["No runs recorded"] else runs.flatMap RunRecord.historyLines

/-- How a command that shows a history ends, and what it writes, by the answer of the store. -/
def shownHistory : Except StoreFault Answer → Exit × List String
  | .ok a => (.success, shownRuns a.runList)
  | .error fault => fault.shown

/-! ### The command -/

theorem Act.run_shownRuns (runs : List RunRecord) (d : Desk) :
    (if runs.isEmpty then Act.say "No runs recorded"
      else Act.sayAll (runs.flatMap RunRecord.historyLines) :
      Act Unit).run.run d = (.ok (), { d with lines := (shownRuns runs).reverse ++ d.lines }) := by
  unfold shownRuns
  split
  · rfl
  · exact Act.run_sayAll _ d

namespace Desk

variable {d : Desk}

/-- **The command that shows a history asks the open store once, and shows the answer.** -/
theorem perform_history {s : Store} (hs : d.depot.store? = some s) (id : String)
    (limit : Option Int) :
    let x := d.perform (Command.act (.history id limit))
    (x.1, x.2.1) = shownHistory (s.apply d.world.clock.toMoment (.runs id limit)).1 := by
  intro x
  let clean : Desk := { d with lines := [] }
  let answer := (s.apply d.world.clock.toMoment (.runs id limit)).1
  obtain ⟨d', hlines, _, hok, herror⟩ := Act.run_ask (d := clean) hs (.runs id limit)
  have hempty : d'.lines = [] := hlines
  -- the store is open, so the command is the request and what is made of its answer
  have hact : (Command.act (.history id limit)).run.run clean =
      (Act.ask (.runs id limit) >>= fun a => do
        if a.runList.isEmpty then Act.say "No runs recorded"
        else Act.sayAll (a.runList.flatMap RunRecord.historyLines)).run.run clean :=
    Act.run_bind_ok (Act.run_openStore (d := clean) hs)
  show _ = shownHistory answer
  cases hanswer : answer with
  | ok a =>
    have hx : x = _ :=
      perform_ok (hact.trans
        ((Act.run_bind_ok (hok a hanswer)).trans (Act.run_shownRuns a.runList d')))
    rw [hx, hempty, List.append_nil, List.reverse_reverse]
    rfl
  | error fault =>
    have hx : x = _ := perform_told hempty (hact.trans (Act.run_bind_error (herror fault hanswer)))
    rw [hx]
    rfl

end Desk

/-! ### The command line -/

namespace Command

open Arguments

/-- The command line that shows a history up to a limit. -/
theorem parse_history {id text : String} {n : Int} (hid : isOption id = false)
    (hn : integer? text = some n) :
    parse ["flow", "logs", id, "--limit", text] = some (.history id (some n)) := by
  have hlimit : Arguments.read ⟨["--limit"], ["--help"], []⟩ true ["--limit", text] =
      some ⟨[], [("--limit", text)], []⟩ := by
    rw [read_value (by decide +kernel) (by decide +kernel) (by decide +kernel) (by decide +kernel)]
    rfl
  have hread : Arguments.read ⟨["--limit"], ["--help"], []⟩ true [id, "--limit", text] =
      some ⟨[], [("--limit", text)], [id]⟩ := by
    rw [read_mixed hid, hlimit]
    rfl
  have hvalue : value? "--limit" integer? ⟨[], [("--limit", text)], [id]⟩ = some (some n) := by
    show (integer? text).map some = _
    rw [hn]
    rfl
  have hlogs : flowCommand "logs" [id, "--limit", text] = some (.history id (some n)) := by
    rw [flowCommand, leaf, innerOptions, hread]
    show (value? "--limit" integer? ⟨[], [("--limit", text)], [id]⟩ >>= _) = _
    rw [hvalue]
    rfl
  rw [parse_group (by decide +kernel) (by decide +kernel) rfl]
  exact hlogs

end Command

/-! ### Limits -/

namespace Desk

variable {d : Desk}

theorem shown_history {s : Store} (hs : d.depot.store? = some s) {args : List String} {id : String}
    {limit : Option Int} (hargs : Command.parse args = some (.history id limit)) :
    d.shown args = plain (shownHistory (s.apply d.world.clock.toMoment (.runs id limit)).1) := by
  rw [← perform_history hs id limit, shown_of_parse hargs]

/-- **What limits do to histories.**  A store of either kind that was empty at the beginning
gives out, and the command shows, what a limit makes of the history, and that is the
beginning of the history that is asked for just if the store honours the limit.  A memory
gives out the history of every stored flow.  With a codec by which nothing is lost, and as
long as all numbers are finite, both kinds give out, and show, the same under all limits
that are counts. -/
theorem history_limit (codec : Codec) {kept : Nat} {asked : List (Moment × Operation)}
    (ha : Store.AreWellFormed asked) :
    let memory := ((Store.memory (.empty kept)).run asked).2
    let table := ((Store.table (.empty codec kept)).run asked).2
    (∀ s, s = memory ∨ s = table →
      ∀ id now₀ rs, (s.apply now₀ (.runs id none)).1 = .ok (.runs rs) → ∀ n : Int,
        (∀ now, (s.apply now (.runs id (some n))).1 = s.limited n rs) ∧
        (∀ (d : Desk) args, d.depot.store? = some s →
          Command.parse args = some (.history id (some n)) →
          d.shown args = plain (shownHistory (s.limited n rs))) ∧
        (s.limited n rs = .ok (.runs (rs.take n.toNat)) ↔ s.Honours n rs.length)) ∧
    (∀ id now₀ f, (memory.apply now₀ (.find id)).1 = .ok (.flow f) →
      ∃ rs, ∀ now, (memory.apply now (.runs id none)).1 = .ok (.runs rs)) ∧
    (codec.IsLossless → (kept : Int) ≤ Table.maxInteger → (∀ q ∈ asked, q.2.isFinite = true) →
      ∀ id limit, IsCount limit →
        (∀ now now', (memory.apply now (.runs id limit)).1 =
          (table.apply now' (.runs id limit)).1) ∧
        ∀ (d d' : Desk) args, d.depot.store? = some memory → d'.depot.store? = some table →
          Command.parse args = some (.history id limit) → d.shown args = d'.shown args) := by
  intro memory table
  have hholds {s : Store} (hs : s = memory ∨ s = table) : ∃ m : Memory, s.Holds m ∧ m.Sound := by
    have hrun {s₀ : Store} (hs₀ : s₀ = .memory (.empty kept) ∨ s₀ = .table (.empty codec kept)) :
        ∃ m : Memory, (s₀.run asked).2.Holds m ∧ m.Sound := by
      obtain ⟨m, hm, hsound, _⟩ := (Store.holds_empty hs₀).run (Memory.empty_sound kept) ha
      exact ⟨m, hm, hsound⟩
    rcases hs with rfl | rfl
    · exact hrun (Or.inl rfl)
    · exact hrun (Or.inr rfl)
  refine ⟨fun s hs id now₀ rs hall n => ?_, fun id now₀ f hfind => ?_,
    fun hcodec hkept hfinite id limit hc => ?_⟩
  · obtain ⟨m, hm, _⟩ := hholds hs
    have hanswer (now : Moment) : (s.apply now (.runs id (some n))).1 = s.limited n rs :=
      hm.runs_some hall n
    refine ⟨hanswer, fun d args hd hargs => ?_, Store.limited_eq_take_iff⟩
    rw [shown_history hd hargs, hanswer]
  · obtain ⟨m, hm, hsound⟩ := hholds (Or.inl rfl)
    have hlookup : m.flows.lookup id = some f := ((hm.find_iff hsound).mp hfind).1
    obtain ⟨m', hm'⟩ := Store.run_memory (.empty kept) asked
    have hmemory : memory = .memory m' := hm'
    rw [hmemory] at hm ⊢
    obtain rfl : m' = m := hm
    refine ⟨m'.history id, fun now => ?_⟩
    rw [Store.apply_memory_runs, Memory.find_ok.mpr hlookup]
    rfl
  · have hlimit : Table.isLimit ((some (kept : Int)).getD (-1)) = true :=
      Table.isLimit_of_isCount fun n hn => Option.some.inj hn ▸ ⟨Int.natCast_nonneg kept, hkept⟩
    obtain ⟨t, m, ht, hm, hboth, hs, hf, hcodec'⟩ := (Table.holds_empty codec kept).run_memory
      (Memory.empty_sound kept) (Memory.empty_isFinite kept) hcodec hlimit ha hfinite
    have htable : table = .table t := ht
    have hmemory : memory = .memory m := hm
    rw [htable, hmemory]
    have halike (now now' : Moment) := hboth.runs_eq_memory hs hf hcodec' hc id now now'
    refine ⟨halike, fun d d' args hd hd' hargs => ?_⟩
    rw [shown_history hd hargs, shown_history hd' hargs, halike]

/-- A flow with two runs: a limit of one shows the later run in either kind of store, and
neither kind honours a limit of minus one. -/
theorem history_limit_twoRuns :
    let now : Moment := Instant.toMoment ⟨63000000000000000⟩
    let run (id : String) : RunRecord :=
      ⟨id, "a", "a", .success, .manual, now, now, [], [], .bare "a"⟩
    let asked : List (Moment × Operation) := [(now, .create (.bare "a")), (now, .append (run "1")),
      (now, .append (run "2"))]
    let memory := ((Store.memory (.empty (2 : Nat))).run asked).2
    let table := ((Store.table (.empty .exact (2 : Nat))).run asked).2
    let desk (s : Store) : Desk :=
      ⟨⟨fun _ => none, fun _ => true, fun _ => none⟩, false,
        .start ⟨63000000000000000⟩ (fun _ _ => ⟨0, .error ⟨"ConnectError", ""⟩⟩) toString,
        ⟨.exact, [], some ⟨.memory, 2, s⟩⟩, 0, []⟩
    let args := ["flow", "logs", "a", "--limit", "1"]
    Store.AreWellFormed asked ∧ ((2 : Nat) : Int) ≤ Table.maxInteger ∧
      (∀ q ∈ asked, q.2.isFinite = true) ∧
      IsCount (some 1) ∧ Command.parse args = some (.history "a" (some 1)) ∧
      (desk memory).shown args = plain (shownHistory (.ok (.runs [run "2"]))) ∧
      (desk table).shown args = (desk memory).shown args ∧
      (memory.apply now (.runs "a" (some (-1)))).1 = .ok (.runs [run "2"]) ∧
      ¬ memory.Honours (-1) 2 ∧ ¬ table.Honours (-1) 2 := by
  intro now run asked memory table desk args
  have hnow : now.WellFormed := Instant.toMoment_wellFormed (by decide)
  have hflow : (Flow.bare "a").WellFormed := Flow.bare_wellFormed (by decide) (by decide)
  have hrun (id : String) : (run id).WellFormed := ⟨hnow, hnow, fun _ h => (by cases h), hflow⟩
  have hasked : Store.AreWellFormed asked := by
    intro q hq
    simp only [asked, List.mem_cons, List.not_mem_nil, or_false] at hq
    rcases hq with rfl | rfl | rfl
    · exact ⟨hnow, hflow⟩
    · exact ⟨hnow, hrun _⟩
    · exact ⟨hnow, hrun _⟩
  have hfinite : ∀ q ∈ asked, q.2.isFinite = true := by
    intro q hq
    simp only [asked, List.mem_cons, List.not_mem_nil, or_false] at hq
    rcases hq with rfl | rfl | rfl <;> rfl
  have hargs : Command.parse args = some (.history "a" (some 1)) :=
    Command.parse_history (by decide +kernel) (by decide +kernel)
  have hcount : IsCount (some 1) := fun n hn => Option.some.inj hn ▸ by decide
  have hopen (s : Store) : (desk s).depot.store? = some s := rfl
  obtain ⟨hanswers, _, halike⟩ := @history_limit .exact 2 asked hasked
  have hall : (memory.apply now (.runs "a" none)).1 = .ok (.runs [run "2", run "1"]) := by rfl
  have hlimited (n : Int) (hn : n = 1 ∨ n = -1) :
      memory.limited n [run "2", run "1"] = .ok (.runs [run "2"]) := by
    rcases hn with rfl | rfl <;> rfl
  obtain ⟨_, hshown, _⟩ := hanswers memory (Or.inl rfl) "a" now _ hall 1
  obtain ⟨hminus, _, _⟩ := hanswers memory (Or.inl rfl) "a" now _ hall (-1)
  obtain ⟨_, hsame⟩ := halike Codec.exact_isLossless (by decide) hfinite "a" (some 1) hcount
  have hmemory : (desk memory).shown args = plain (shownHistory (.ok (.runs [run "2"]))) := by
    rw [hshown (desk memory) args (hopen memory) hargs, hlimited 1 (Or.inl rfl)]
  refine ⟨hasked, by decide, hfinite, hcount, hargs, hmemory,
    (hsame (desk memory) (desk table) args (hopen memory) (hopen table) hargs).symm,
    (hminus now).trans (hlimited (-1) (Or.inr rfl)), ?_, ?_⟩
  · show ¬ ((0 : Int) ≤ -1 ∨ 2 ≤ 1)
    decide
  · obtain ⟨t, ht, _⟩ := Store.run_table (.empty .exact (2 : Nat)) asked
    rw [show table = .table t from ht]
    rintro ⟨_, h | h⟩
    · exact absurd h (by decide)
    · exact absurd h (by decide)

end Desk

end Cadence
