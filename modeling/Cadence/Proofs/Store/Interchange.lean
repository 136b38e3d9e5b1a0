/-
The two kinds of store are interchangeable.

A store in memory and a store in tables that were both empty at the beginning give the same
answers to the same requests at the same moments, also when the file of the tables is closed
and opened again between requests, as long as all numbers are finite.  Only lists of flows
differ in their order.

* `Depot.Event`, `Depot.play` — requests to the open store, with the file closed and opened
  in between;
* `Journal.created` — the ids of the stored flows in the order of their creation;
* `Depot.play_eq_memory` — the answers of the tables are those of the memory, with lists of
  flows in the order of their ids instead of the order of their creation.
-/
import Cadence.Proofs.Store.Alike
import Cadence.Store.Depot

namespace Cadence

open Calendar

/-! ### The order of creation -/

/-- What becomes of the ids of the stored flows. -/
def Operation.created (ids : List String) : Operation → List String
  | .create f => ids ++ [f.id]
  | .remove i => ids.filter (· != i)
  | _ => ids

/-- The ids of the stored flows after the requests of a journal, in the order of their creation. -/
def Journal.created (before : List String) (j : Journal) : List String :=
  j.foldl (fun ids e => if e.isAnswered then e.operation.created ids else ids) before

theorem Operation.OnlyAsks.created {op : Operation} (h : op.OnlyAsks) (ids : List String) :
    op.created ids = ids := by
  cases op with
  | create f => exact h.elim
  | remove i => exact h.elim
  | _ => rfl

theorem Memory.names_of_apply {m m' : Memory} {now : Moment} {op : Operation} {a : Answer}
    (hs : m.Sound) (h : m.apply now op = .ok (a, m')) :
    names m'.flows = op.created (names m.flows) := by
  obtain ⟨f, rfl, hl, rfl⟩ | ⟨i, f, r, rfl, hr, rfl⟩ | ⟨i, enabled, r, rfl, hr, rfl⟩
    | ⟨i, rfl, rfl⟩ |
    ⟨run, rfl, rfl⟩ | ⟨hop, rfl⟩ := apply_cases h
  · show names (put f.id _ m.flows) = names m.flows ++ [f.id]
    rw [put_of_lookup_none hl]
    exact List.map_append
  · exact names_put_of_lookup_some hs.single (by rw [hr]; rfl)
  · exact names_put_of_lookup_some hs.single (by rw [hr]; rfl)
  · show (m.flows.filter fun e => e.1 != i).map (·.1) = (m.flows.map (·.1)).filter (· != i)
    rw [List.filter_map]
    rfl
  · rw [append_eq]
    cases hl : m.flows.lookup run.flowId with
    | none => rfl
    | some f => exact names_put_of_lookup_some hs.single (by rw [hl]; rfl)
  · exact (hop.created _).symm

theorem Memory.apply_flows {m m' : Memory} {now : Moment} {op : Operation} {fs : List StoredFlow}
    (h : m.apply now op = .ok (.flows fs, m')) : fs = m.flows.map (·.2) := by
  cases op with
  | create f =>
    obtain ⟨_, ha, _⟩ := create_ok.mp h
    cases ha
  | revise i f =>
    obtain ⟨_, _, ha, _⟩ := change_ok.mp h
    cases ha
  | remove i =>
    obtain ⟨_, ha, _⟩ := remove_ok.mp h
    cases ha
  | setEnabled i enabled =>
    obtain ⟨_, _, ha, _⟩ := change_ok.mp h
    cases ha
  | append run =>
    cases (Prod.mk.inj (Except.ok.inj h)).1
  | find i =>
    obtain ⟨_, _, ha, _⟩ := query_ok.mp h
    cases ha
  | isEnabled i =>
    obtain ⟨_, _, ha, _⟩ := query_ok.mp h
    cases ha
  | all => exact (Answer.flows.inj (Prod.mk.inj (Except.ok.inj h)).1).symm
  | runs i limit =>
    obtain ⟨_, _, ha, _⟩ := query_ok.mp h
    cases ha

theorem Store.run_memory_error {m : Memory} {now : Moment} {op : Operation} {e : StoreFault}
    (h : m.apply now op = .error e) (rest : List (Moment × Operation)) :
    ((Store.memory m).run ((now, op) :: rest)).1 =
      ⟨now, op, .error e⟩ :: ((Store.memory m).run rest).1 := by
  rw [Store.run, Store.apply, h]

theorem Store.run_memory_ok {m m' : Memory} {now : Moment} {op : Operation} {a : Answer}
    (h : m.apply now op = .ok (a, m')) (rest : List (Moment × Operation)) :
    ((Store.memory m).run ((now, op) :: rest)).1 = ⟨now, op, .ok a⟩ ::
      ((Store.memory m').run rest).1 := by
  rw [Store.run, Store.apply, h]

/-- **Flows in memory are listed in the order of their creation, each id once.** -/
theorem Store.run_memory_flows {m : Memory} (hs : m.Sound) {asked : List (Moment × Operation)}
    (ha : AreWellFormed asked) {before after : Journal} {e : Entry} {fs : List StoredFlow}
    (hj : ((Store.memory m).run asked).1 = before ++ e :: after) (he : e.answer = .ok (.flows fs)) :
    fs.map (·.id) = before.created (names m.flows) ∧ (fs.map (·.id)).Nodup := by
  induction asked generalizing m before with
  | nil => cases before <;> cases hj
  | cons q rest ih =>
    obtain ⟨now, op⟩ := q
    obtain ⟨hnow, hop⟩ := ha _ List.mem_cons_self
    have hrest : AreWellFormed rest := fun q hq => ha q (List.mem_cons_of_mem _ hq)
    cases hm : m.apply now op with
    | error f =>
      rw [run_memory_error hm] at hj
      cases before with
      | nil =>
        obtain ⟨rfl, _⟩ := List.cons.inj hj
        cases he
      | cons e' before =>
        obtain ⟨rfl, htail⟩ := List.cons.inj hj
        have hlisted := ih hs hrest htail
        exact hlisted
    | ok r =>
      obtain ⟨a, m'⟩ := r
      rw [run_memory_ok hm] at hj
      cases before with
      | nil =>
        obtain ⟨rfl, _⟩ := List.cons.inj hj
        obtain rfl : a = .flows fs := Except.ok.inj he
        rw [Memory.apply_flows hm, Memory.ids_eq_names hs]
        exact ⟨rfl, hs.single⟩
      | cons e' before =>
        obtain ⟨rfl, htail⟩ := List.cons.inj hj
        have hlisted := ih (hs.apply hop hnow hm) hrest htail
        rw [Memory.names_of_apply hs hm] at hlisted
        exact hlisted

/-- Ids that stand once each stand in strictly ascending order after sorting. -/
theorem byId_ascending {fs : List StoredFlow} (h : (fs.map (·.id)).Nodup) :
    (byId fs).Pairwise fun f g => f.id < g.id := by
  have hsorted : (byId fs).Pairwise fun f g => f.id ≤ g.id := by
    have hpair := @List.pairwise_mergeSort StoredFlow (fun f g => decide (f.id ≤ g.id))
      (fun a b c hab hbc => by
        simp only [decide_eq_true_eq] at *
        exact String.le_trans hab hbc)
      (fun a b => by
        simp only [Bool.or_eq_true, decide_eq_true_eq]
        exact String.le_total a.id b.id) fs
    exact hpair.imp fun hle => of_decide_eq_true hle
  have hnodup : ((byId fs).map (·.id)).Nodup := ((byId_perm fs).map _).nodup_iff.mpr h
  refine (hsorted.and (List.pairwise_map.mp hnodup)).imp fun ⟨hle, hne⟩ => ?_
  -- two flows with one id do not come up, so the order is strict
  by_contra hlt
  exact hne (String.le_antisymm hle (String.not_lt.mp hlt))

/-! ### Closing and opening a file -/

namespace Depot

/-- What is done with the open store: it is asked at a moment, or its file is closed and
opened again. -/
inductive Event where
  | ask (now : Moment) (operation : Operation)
  | reopen
  deriving Inhabited, Repr

/-- The requests among events. -/
def requests : List Event → List (Moment × Operation)
  | [] => []
  | .ask now op :: rest => (now, op) :: requests rest
  | .reopen :: rest => requests rest

variable (h : Host) (servers : Bool) (address : String) (settings : Settings)

/-- Closes the open store and opens the one at an address. -/
def reopen (d : Depot) : Except DepotFault Depot :=
  d.reset.openStore h servers (some address) (some settings)

/-- The answers of the open store to the requests among events, unless it cannot be opened again. -/
def play (d : Depot) : List Event → Except DepotFault (List (Except StoreFault Answer))
  | [] => .ok []
  | .ask now op :: rest =>
    match d.store? with
    | none => .error .unopened
    | some s => do
      let answers ← (d.withStore (s.apply now op).2).play rest
      pure ((s.apply now op).1 :: answers)
  | .reopen :: rest => do (← d.reopen h servers address settings).play rest

variable {h servers address settings} {codec : Codec} {path : String}

/-- The store at an address of a file is opened in that file. -/
theorem openStore_file (haddress : Site.ofAddress servers address = .ok (.file path)) (d : Depot) :
    d.openStore h servers (some address) (some settings) =
      (d.saved.openFile h path settings.history).map fun t =>
        { d.saved with current := some ⟨.file path, settings.history, .table t⟩ } := by
  have hne : address.isEmpty = false := by
    rw [← Bool.not_eq_true, String.isEmpty_iff]
    rintro rfl
    cases haddress
  -- an address that is given is not looked for in the environment
  have hlocate : locate h servers (some address) (some settings) = .ok (settings, .file path) := by
    simp only [locate, pure_bind, Option.filter, hne, Bool.not_false, if_true,
      Option.orElse_some, haddress]
    rfl
  rw [openStore, hlocate]
  show ((d.saved.openFile h path settings.history).map Store.table >>= fun store => _) = _
  cases d.saved.openFile h path settings.history <;> rfl

/-- A file that is opened for the first time holds nothing. -/
theorem openFile_empty {t : Table} {limit : Nat}
    (ht : (empty codec).openFile h path limit = .ok t) :
    t = .empty codec limit := by
  unfold openFile at ht
  simp only [empty, List.lookup_nil] at ht
  split at ht
  · exact (Except.ok.inj ht).symm
  · split at ht
    · cases ht
    · split at ht
      · split at ht
        · exact (Except.ok.inj ht).symm
        · cases ht
      · split at ht
        · exact (Except.ok.inj ht).symm
        · cases ht

/-- **What was in a file before it was closed is there when it is opened again.** -/
theorem reopen_eq (haddress : Site.ofAddress servers address = .ok (.file path))
    (hpath : isPassing path = false) {t : Table} (hlimit : t.limit = settings.history) {d : Depot}
    (hd : d.current = some ⟨.file path, settings.history, .table t⟩) :
    ∃ d', d.reopen h servers address settings = .ok d' ∧
      d'.current = some ⟨.file path, settings.history, .table t⟩ := by
  -- closing puts the tables into the file, where opening looks first
  have hsaved : d.reset.saved =
      { d with files := put (Text.tidyPath path) t d.files, current := none } := by
    simp only [reset, saved, hd, hpath]
    rfl
  have hfile : d.reset.saved.openFile h path settings.history = .ok t := by
    rw [hsaved, openFile, hpath]
    simp only [lookup_put_self]
    exact congrArg Except.ok (by rw [← hlimit])
  rw [reopen, openStore_file haddress, hfile]
  exact ⟨_, rfl, rfl⟩

/-- A request at a moment that can be written down, with a well-formed flow or record, all
of whose numbers are finite, and with a limit, if it has one, that is a count. -/
def Event.IsFair : Event → Prop
  | .ask now op => now.WellFormed ∧ op.WellFormed ∧ op.isFinite = true ∧ op.IsCounted
  | .reopen => True

theorem requests_wellFormed {events : List Event} (h : ∀ e ∈ events, e.IsFair) :
    Store.AreWellFormed (requests events) := by
  induction events with
  | nil =>
    intro q hq
    cases hq
  | cons e rest ih =>
    have hrest := ih fun e he => h e (List.mem_cons_of_mem _ he)
    cases e with
    | reopen => exact hrest
    | ask now op =>
      intro q hq
      rcases List.mem_cons.mp hq with rfl | hq
      · obtain ⟨hnow, hop, _⟩ := h _ List.mem_cons_self
        exact ⟨hnow, hop⟩
      · exact hrest q hq

/-- Tables with a lossless codec in an open file that hold what a finite memory holds give
the answers of the memory. -/
theorem play_of_holds (haddress : Site.ofAddress servers address = .ok (.file path))
    (hpath : isPassing path = false)
    (hhistory : (settings.history : Int) ≤ Table.maxInteger) {events : List Event}
    (hfair : ∀ e ∈ events, e.IsFair) {t : Table} {m : Memory} {d : Depot}
    (hd : d.current = some ⟨.file path, settings.history, .table t⟩)
    (hlimit : t.limit = settings.history) (hcodec : t.codec.IsLossless) (ht : t.Holds m)
    (hs : m.Sound) (hf : m.IsFinite) :
    d.play h servers address settings events =
      .ok (((Store.memory m).run (requests events)).1.map fun e => e.answer.map Answer.byId) := by
  induction events generalizing t m d with
  | nil => rfl
  | cons e rest ih =>
    have hrest : ∀ e ∈ rest, e.IsFair := fun e he => hfair e (List.mem_cons_of_mem _ he)
    cases e with
    | reopen =>
      obtain ⟨d', hopen, hd'⟩ := reopen_eq haddress hpath hlimit hd
      rw [play, hopen]
      exact ih hrest hd' hlimit hcodec ht hs hf
    | ask now op =>
      obtain ⟨hnow, hop, hfinite, hcount⟩ := hfair _ List.mem_cons_self
      have hIsLimit : Table.isLimit t.limit = true := by
        rw [hlimit, Table.isLimit, Bool.and_eq_true, decide_eq_true_eq, decide_eq_true_eq]
        unfold Table.maxInteger at *
        omega
      obtain ⟨m', hm', ht', hs', hf', hanswer⟩ :=
        Store.apply_finite ht hs hf hcodec hIsLimit hnow hop hfinite
        hcount
      have hstore : d.store? = some (.table t) := by
        rw [store?, hd]
        rfl
      have hnext : (d.withStore (.table (t.apply now op).2)).current =
          some ⟨.file path, settings.history, .table (t.apply now op).2⟩ := by
        rw [withStore, hd]
        rfl
      have hlimit' : (t.apply now op).2.limit = settings.history := by rw [t.limit_apply, hlimit]
      have hcodec' : (t.apply now op).2.codec.IsLossless := by rwa [t.codec_apply]
      have hrun : ((Store.memory m).run (requests (.ask now op :: rest))).1 =
          ⟨now, op, ((Store.memory m).apply now op).1⟩ ::
            ((Store.memory m').run (requests rest)).1 := by
        rw [requests, Store.run_cons, hm']
      rw [play, hstore, hrun]
      show (d.withStore (.table (t.apply now op).2)).play h servers address settings rest >>= _ = _
      rw [ih hrest hnext hlimit' hcodec' ht' hs' hf']
      show Except.ok ((t.apply now op).1 :: _) = _
      rw [hanswer]
      rfl

/-- **The two kinds of store are interchangeable.**  With a codec by which nothing is lost,
a file that was opened for the first time, and is closed and opened again any number of
times, answers every request as a memory does that was empty at the beginning, except that
it lists flows in strictly ascending order of their ids and the memory lists them in the
order of their creation. -/
theorem play_eq_memory (haddress : Site.ofAddress servers address = .ok (.file path))
    (hpath : isPassing path = false) (hhistory : (settings.history : Int) ≤ Table.maxInteger)
    (hcodec : codec.IsLossless) {d : Depot}
    (hopen : (empty codec).openStore h servers (some address) (some settings) = .ok d)
    {events : List Event} (hfair : ∀ e ∈ events, e.IsFair) :
    let journal := ((Store.memory (.empty settings.history)).run (requests events)).1
    d.play h servers address settings events = .ok (journal.map fun e => e.answer.map Answer.byId) ∧
      ∀ (before : Journal) e after fs, journal = before ++ e :: after → e.answer = .ok (.flows fs) →
        fs.map (·.id) = before.created [] ∧
          (byId fs).Perm fs ∧ (byId fs).Pairwise fun f g => f.id < g.id := by
  intro journal
  constructor
  · rw [openStore_file haddress] at hopen
    cases hfile : ((empty codec).saved.openFile h path settings.history) with
    | error e =>
      rw [hfile] at hopen
      cases hopen
    | ok t =>
      rw [hfile] at hopen
      obtain rfl := openFile_empty hfile
      obtain rfl := Except.ok.inj hopen
      exact play_of_holds haddress hpath hhistory hfair rfl rfl hcodec (Table.holds_empty _ _)
        (Memory.empty_sound _) (Memory.empty_isFinite _)
  · intro before e after fs hj he
    obtain ⟨hids, hnodup⟩ :=
      Store.run_memory_flows (Memory.empty_sound _) (requests_wellFormed hfair) hj he
    exact ⟨hids, byId_perm fs, byId_ascending hnodup⟩

/-- Two flows that are stored in a file, which is closed and opened again before they are listed. -/
theorem play_eq_memory_twoFlows :
    let h : Host := ⟨fun _ => none, fun p => p == ".", fun _ => none⟩
    let settings : Settings := ⟨none, 2, 15.0, 30.0⟩
    let now : Moment := Instant.toMoment ⟨63000000000000000⟩
    let events : List Event :=
      [.ask now (.create (.bare "b")), .ask now (.create (.bare "a")), .reopen,
      .ask now .all]
    ∃ d, (empty .exact).openStore h false (some "sqlite://flows.db") (some settings) = .ok d ∧
      (∀ e ∈ events, e.IsFair) ∧
      d.play h false "sqlite://flows.db" settings events =
        .ok (((Store.memory (.empty 2)).run (requests events)).1.map fun e =>
          e.answer.map Answer.byId) := by
  intro h settings now events
  have hnow : now.WellFormed := Instant.toMoment_wellFormed (by decide)
  have hfair : ∀ e ∈ events, e.IsFair := by
    intro e he
    simp only [events, List.mem_cons, List.not_mem_nil, or_false] at he
    rcases he with rfl | rfl | rfl | rfl
    · exact ⟨hnow, Flow.bare_wellFormed (by decide) (by decide), rfl, trivial⟩
    · exact ⟨hnow, Flow.bare_wellFormed (by decide) (by decide), rfl, trivial⟩
    · exact trivial
    · exact ⟨hnow, trivial, rfl, trivial⟩
  exact ⟨_, rfl, hfair,
    (@play_eq_memory h false "sqlite://flows.db" settings .exact "flows.db" rfl rfl (by decide)
      Codec.exact_isLossless _ rfl events hfair).1⟩

end Depot

end Cadence
