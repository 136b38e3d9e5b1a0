/-
Which store is given out.

A program asks for its store again and again, and what is around it may change in between.
A call that says neither an address nor settings gets the store that was given out last; any
other call gets a store that is opened for it.  A call that fails leaves everything as it
was, so that the store that was given out last is still the one of the last call that did
not fail.

* `Registry.Call.build` — the store that is opened for a call: the settings that count, the
  place that counts, and what is stored there;
* `Depot.openStore_eq` — variables are looked at again when the settings have been read, and
  this changes nothing;
* `Registry.Use`, `Registry.served` — calls and requests in their order, and what the calls get;
* `Registry.Served.Consistent` — the open store is the one that was given out last, and no
  number is larger than its;
* `Registry.gives_latest_or_new` — what a call gets after any calls and requests.
-/
import Cadence.Store.Registry
import Cadence.Proofs.Validation.Checked

namespace Cadence

open Calendar

/-! ### The address that counts -/

/-- The first text that is not empty. -/
def firstGiven (texts : List (Option String)) : Option String :=
  texts.findSome? fun text => text.filter (!·.isEmpty)

theorem firstGiven_cons (text : Option String) (texts : List (Option String)) :
    firstGiven (text :: texts) = (text.filter (!·.isEmpty)).or (firstGiven texts) := by
  unfold firstGiven
  rw [List.findSome?_cons]
  cases text.filter (!·.isEmpty) <;> rfl

theorem firstGiven_nil : firstGiven [] = none := rfl

namespace Registry.Call

/-- Whether neither an address nor settings are said. -/
def IsBare (c : Call) : Prop := c.address = none ∧ c.settings = none

/-- The settings that count: those of the call, or else those in the file around the program. -/
def config (c : Call) : Except DepotFault Settings :=
  match c.settings with
  | some s => .ok s
  | none => (Settings.read c.host (Settings.path c.host none)).mapError .settings

/-- The address that counts: that of the call, of one variable, of the other one, or of the
settings. -/
def address? (c : Call) (s : Settings) : Option String :=
  firstGiven [c.address, c.host.env? "NEXFLOW_DATABASE_URL", c.host.env? "DATABASE_URL", s.store]

/-- The place of the store; without an address it is in memory. -/
def site (c : Call) (s : Settings) : Except DepotFault Site :=
  match c.address? s with
  | none => .ok .memory
  | some address => Site.ofAddress c.servers address

/-- The store that a call opens with settings, where the files of a depot are. -/
def opening (c : Call) (d : Depot) (s : Settings) : Except DepotFault OpenStore := do
  let site ← c.site s
  let store ← d.openAt c.host s.history site
  pure ⟨site, s.history, store⟩

/-- The store that is opened for a call. -/
def build (c : Call) (d : Depot) : Except DepotFault OpenStore := do c.opening d (← c.config)

end Registry.Call

/-! ### Opening a store -/

/-- How many runs a history keeps, if the store is at hand. -/
def Store.limit? : Store → Option Int
  | .memory m => some m.limit
  | .table t => some t.limit
  | .remote => none

namespace Depot

open Registry

variable {h : Host} {limit : Nat} {d : Depot}

/-- Tables are opened with the limit that is asked for, also where they had another one before. -/
theorem openFile_limit {path : String} {t : Table}
    (ht : d.openFile h path limit = .ok t) : t.limit = limit := by
  unfold openFile at ht
  -- the tables are new ones, or those that were in the file, or there are none
  repeat' split at ht
  all_goals cases ht
  all_goals rfl

theorem openAt_limit {site : Site} {store : Store} (hopen : d.openAt h limit site = .ok store) :
    ∀ n ∈ store.limit?, n = limit := by
  intro n hn
  cases site with
  | memory =>
    cases hopen
    exact (Option.some.inj hn).symm
  | file path =>
    have hmap : (d.openFile h path limit).map Store.table = .ok store := hopen
    cases ht : d.openFile h path limit with
    | error fault =>
      rw [ht] at hmap
      cases hmap
    | ok t =>
      rw [ht] at hmap
      cases hmap
      exact (Option.some.inj hn).symm.trans (openFile_limit ht)
  | server address =>
    cases hopen
    cases hn

/-- The address of settings counts after the variables. -/
theorem known_eq (h : Host) (store : Option String) :
    ((Settings.storeVariable? h).orElse fun _ => store.filter (!·.isEmpty)) =
      firstGiven [h.env? "NEXFLOW_DATABASE_URL", h.env? "DATABASE_URL", store] := by
  simp only [firstGiven_cons, firstGiven_nil, Settings.storeVariable?, Host.setting?,
    Option.orElse_eq_or, Option.or_none, Option.or_assoc]

/-- Settings into which the address of the variables was put have the same address that counts. -/
theorem known_again (h : Host) (store : Option String) :
    firstGiven [h.env? "NEXFLOW_DATABASE_URL", h.env? "DATABASE_URL",
      (Settings.storeVariable? h).orElse fun _ => store] =
      firstGiven [h.env? "NEXFLOW_DATABASE_URL", h.env? "DATABASE_URL", store] := by
  rw [← known_eq, ← known_eq]
  cases Settings.storeVariable? h <;> rfl

/-- Where the store of given settings is. -/
theorem locate_given (c : Call) (s : Settings) :
    locate c.host c.servers c.address (some s) = (c.site s).map fun site => (s, site) := by
  have haddress : ((c.address.filter (!·.isEmpty)).orElse fun _ =>
      (Settings.storeVariable? c.host).orElse fun _ =>
          s.store.filter (!·.isEmpty)) = c.address? s := by
    rw [known_eq, Option.orElse_eq_or, ← firstGiven_cons]
    rfl
  simp only [locate, pure_bind, haddress, Call.site]
  cases c.address? s with
  | none => rfl
  | some address => cases Site.ofAddress c.servers address <;> rfl

/-- A call with settings opens its store with them. -/
theorem openStore_given (c : Call) (d : Depot) (s : Settings) :
    d.openStore c.host c.servers c.address (some s) =
      (c.opening d.saved s).map fun o => { d.saved with current := some o } := by
  rw [openStore, locate_given, Call.opening]
  cases c.site s with
  | error fault => rfl
  | ok site =>
    rw [ok_bind]
    show (d.saved.openAt c.host s.history site >>= fun store => _) = _
    cases d.saved.openAt c.host s.history site <;> rfl

/-- A call without settings loads those around the program. -/
theorem openStore_loaded (c : Call) (d : Depot) :
    d.openStore c.host c.servers c.address none =
      (Settings.load c.host none).mapError .settings >>= fun s =>
        d.openStore c.host c.servers c.address (some s) := by
  have hlocate : locate c.host c.servers c.address none =
      (Settings.load c.host none).mapError .settings >>= fun s =>
        locate c.host c.servers c.address (some s) := rfl
  simp only [openStore, hlocate, bind_assoc]

/-- Settings into which the address of the variables was put open the same store. -/
theorem opening_variables (c : Call) (d : Depot) (s : Settings) :
    c.opening d { s with store := (Settings.storeVariable? c.host).orElse fun _ => s.store } =
      c.opening d s := by
  simp only [Call.opening, Call.site, Call.address?, firstGiven_cons (c.address), known_again]

/-- What a call opens is the store that is built for it, whether its settings are given or
loaded. -/
theorem openStore_eq (c : Call) (d : Depot) :
    d.openStore c.host c.servers c.address c.settings =
      (c.build d.saved).map fun o => { d.saved with current := some o } := by
  unfold Call.build Call.config
  cases c.settings with
  | some s => exact openStore_given c d s
  | none =>
    rw [openStore_loaded]
    simp only [openStore_given, Settings.load]
    cases Settings.read c.host (Settings.path c.host none) with
    | error fault => rfl
    | ok s =>
      show (c.opening d.saved _).map _ = (c.opening d.saved s).map _
      rw [opening_variables]

/-- The store that is built keeps as many runs as the settings say. -/
theorem build_limit {c : Call} {o : OpenStore} (h : c.build d = .ok o) :
    ∀ n ∈ o.store.limit?, n = o.limit := by
  obtain ⟨s, _, hopening⟩ := bind_eq_ok.mp h
  obtain ⟨site, _, hplaced⟩ := bind_eq_ok.mp hopening
  obtain ⟨store, hstore, ho⟩ := bind_eq_ok.mp hplaced
  cases ho
  exact openAt_limit hstore

theorem keeps_iff (c : Call) :
    d.keeps c.address c.settings = true ↔ c.IsBare ∧ d.current.isSome = true := by
  simp only [keeps, Call.IsBare, Bool.and_eq_true, Option.isNone_iff_eq_none]
  exact ⟨fun ⟨⟨hopen, ha⟩, hs⟩ => ⟨⟨ha, hs⟩, hopen⟩, fun ⟨⟨ha, hs⟩, hopen⟩ => ⟨⟨hopen, ha⟩, hs⟩⟩

end Depot

/-! ### Calls and requests in their order -/

namespace Registry

/-- What is done with the stores of a program: one is asked for, or the open one is asked
something. -/
inductive Use where
  | call (call : Call)
  | request (now : Moment) (operation : Operation)

/-- What the calls got, the last one first, and the registry after them. -/
structure Served where
  answers : List (Except DepotFault Nat)
  registry : Registry

namespace Served

/-- One use after others. -/
def next (s : Served) : Use → Served
  | .call c => ⟨(s.registry.call c).1 :: s.answers, (s.registry.call c).2⟩
  | .request now op => { s with registry := s.registry.request now op }

/-- The number of the store that the last call got that did not fail. -/
def latest? (s : Served) : Option Nat := s.answers.findSome? Except.toOption

/-- The open store is the one that was given out last, and it is the newest one. -/
structure Consistent (s : Served) : Prop where
  latest : s.latest? = s.registry.depot.current.map fun _ => s.registry.opened
  newest : ∀ n, .ok n ∈ s.answers → n ≤ s.registry.opened

end Served

/-- What the uses of stores get from the start of a program. -/
def served (codec : Codec) (uses : List Use) : Served := uses.foldl .next ⟨[], .empty codec⟩

/-- What a call can do: it gets the open store, it fails, or it gets a store that is opened
for it. -/
theorem call_cases (r : Registry) (c : Call) :
    (c.IsBare ∧ r.depot.current.isSome = true ∧ r.call c = (.ok r.opened, r)) ∨
    (¬(c.IsBare ∧ r.depot.current.isSome = true) ∧
      ((∃ fault, c.build r.depot.saved = .error fault ∧ r.call c = (.error fault, r)) ∨
        ∃ o, c.build r.depot.saved = .ok o ∧
          r.call c = (.ok (r.opened + 1),
            ⟨{ r.depot.saved with current := some o }, r.opened + 1⟩))) := by
  by_cases hkeeps : r.depot.keeps c.address c.settings = true
  · left
    obtain ⟨hbare, hopen⟩ := (Depot.keeps_iff c).mp hkeeps
    refine ⟨hbare, hopen, ?_⟩
    simp only [call, Depot.obtain, hkeeps, if_true]
  · right
    refine ⟨fun h => hkeeps ((Depot.keeps_iff c).mpr h), ?_⟩
    cases hbuild : c.build r.depot.saved with
    | error fault =>
      left
      refine ⟨fault, rfl, ?_⟩
      simp only [call, Depot.obtain, hkeeps, Bool.false_eq_true, if_false,
        Depot.openStore_eq, hbuild, Except.map]
    | ok o =>
      right
      refine ⟨o, rfl, ?_⟩
      simp only [call, Depot.obtain, hkeeps, Bool.false_eq_true, if_false,
        Depot.openStore_eq, hbuild, Except.map]

/-- A request opens no store and closes none. -/
theorem request_opened (r : Registry) (now : Moment) (op : Operation) :
    (r.request now op).opened = r.opened := by
  unfold request
  split <;> rfl

/-- A request changes neither the place of the open store nor its limit. -/
theorem request_place (r : Registry) (now : Moment) (op : Operation) :
    (r.request now op).depot.current.map (fun o => (o.site, o.limit)) =
      r.depot.current.map fun o => (o.site, o.limit) := by
  unfold request Depot.withStore
  split
  · rfl
  · exact Option.map_map ..

namespace Served

variable {s : Served}

/-- A store is given out: the open one, or a newer one. -/
theorem Consistent.ok (h : s.Consistent) {d : Depot} {n : Nat} (hopen : d.current.isSome = true)
    (hle : s.registry.opened ≤ n) : Consistent ⟨.ok n :: s.answers, ⟨d, n⟩⟩ := by
  obtain ⟨o, ho⟩ := Option.isSome_iff_exists.mp hopen
  constructor
  · rw [ho]
    rfl
  · intro k hk
    obtain hnew | hold := List.mem_cons.mp hk
    · cases hnew
      exact Nat.le_refl _
    · exact Nat.le_trans (h.newest k hold) hle

/-- A call fails, and gives out no store. -/
theorem Consistent.error (h : s.Consistent) (fault : DepotFault) :
    Consistent ⟨.error fault :: s.answers, s.registry⟩ := by
  constructor
  · exact h.latest
  · intro n hn
    exact h.newest n ((List.mem_cons.mp hn).resolve_left nofun)

/-- Every use keeps the open store the one that was given out last. -/
theorem Consistent.next (h : s.Consistent) (use : Use) : (s.next use).Consistent := by
  cases use with
  | request now op =>
    constructor
    · have hplace := congrArg (Option.map fun _ => s.registry.opened)
        (request_place s.registry now op)
      rw [Option.map_map, Option.map_map] at hplace
      rw [Served.next, request_opened]
      exact h.latest.trans hplace.symm
    · intro n hn
      rw [Served.next, request_opened]
      exact h.newest n hn
  | call c =>
    show Consistent ⟨(s.registry.call c).1 :: s.answers, (s.registry.call c).2⟩
    rcases call_cases s.registry c
      with ⟨_, hopen, hcall⟩ | ⟨_, ⟨fault, _, hcall⟩ | ⟨o, _, hcall⟩⟩ <;> rw [hcall]
    · exact h.ok hopen (Nat.le_refl _)
    · exact h.error fault
    · exact h.ok rfl (Nat.le_succ _)

theorem Consistent.foldl (h : s.Consistent) (uses : List Use) :
    (uses.foldl Served.next s).Consistent := by
  induction uses generalizing s with
  | nil => exact h
  | cons use uses ih => exact ih (h.next use)

end Served

theorem served_consistent (codec : Codec) (uses : List Use) : (served codec uses).Consistent := by
  have hempty : Served.Consistent ⟨[], .empty codec⟩ := by
    constructor
    · rfl
    · intro n hn
      cases hn
  exact hempty.foldl uses

/-- **A call gets the store that was given out last, or a new one.**  After any calls and
requests, whatever was around the program at each of them: a call that says neither an
address nor settings gets the store of the last call that did not fail, and nothing changes.
If there is none, or an address or settings are said, the store is built: at the address
that counts, with the history of the settings that count, and it gets a number that was not
given out before.  Where this fails, and whenever a call fails, everything stays as it
was. -/
theorem gives_latest_or_new (codec : Codec) (uses : List Use) (c : Call) :
    (c.IsBare → ∀ n, (served codec uses).latest? = some n →
      (served codec uses).registry.call c = (.ok n, (served codec uses).registry)) ∧
    ((c.IsBare → (served codec uses).latest? = none) →
      match c.build (served codec uses).registry.depot.saved with
      | .error fault =>
        (served codec uses).registry.call c = (.error fault, (served codec uses).registry)
      | .ok o => (∀ n ∈ o.store.limit?, n = o.limit) ∧ ∃ n, .ok n ∉ (served codec uses).answers ∧
          (served codec uses).registry.call c =
            (.ok n, ⟨{ (served codec uses).registry.depot.saved with current := some o }, n⟩)) ∧
    ∀ fault, ((served codec uses).registry.call c).1 = .error fault →
      ((served codec uses).registry.call c).2 = (served codec uses).registry := by
  have h := served_consistent codec uses
  generalize served codec uses = s at h ⊢
  have hlatest : s.latest?.isSome = s.registry.depot.current.isSome := by
    rw [h.latest, Option.isSome_map]
  refine ⟨?_, ?_, ?_⟩
  · intro hbare n hn
    rw [hn] at hlatest
    rcases call_cases s.registry c with ⟨_, hopen, hcall⟩ | ⟨hnot, _⟩
    · rw [hcall]
      rw [h.latest] at hn
      obtain ⟨o, _, rfl⟩ := Option.map_eq_some_iff.mp hn
      rfl
    · exact absurd ⟨hbare, hlatest.symm⟩ hnot
  · intro hnew
    rcases call_cases s.registry c
      with ⟨hbare, hopen, _⟩ | ⟨_, ⟨fault, hbuild, hcall⟩ | ⟨o, hbuild, hcall⟩⟩
    · rw [hnew hbare, hopen] at hlatest
      cases hlatest
    · rw [hbuild]
      exact hcall
    · rw [hbuild]
      refine ⟨Depot.build_limit hbuild, s.registry.opened + 1, ?_, hcall⟩
      intro hmem
      exact absurd (h.newest _ hmem) (Nat.not_succ_le_self _)
  · intro fault hfault
    rcases call_cases s.registry c with ⟨_, _, hcall⟩ | ⟨_, ⟨_, _, hcall⟩ | ⟨o, _, hcall⟩⟩
    · rw [hcall]
    · rw [hcall]
    · rw [hcall] at hfault
      cases hfault

/-- A store in memory, an address of an unknown kind, and then calls where a variable says a
file. -/
theorem gives_latest_or_new_otherFile :
    let bare : Host := ⟨fun _ => none, fun _ => false, fun _ => none⟩
    let named : Host := ⟨fun _ => none, fun path => path == ".", fun name =>
      if name == "DATABASE_URL" then some "sqlite://flows.db" else none⟩
    let settings : Settings := ⟨some "sqlite://other.db", 2, 15.0, 30.0⟩
    let s := served default [.call ⟨bare, true, none, none⟩,
      .call ⟨bare, true, some "mysql://flows", none⟩]
    s.answers = [.error (.unsupported "mysql://flows"), .ok 1] ∧
      s.registry.call ⟨named, true, none, none⟩ = (.ok 1, s.registry) ∧
      (∃ n, .ok n ∉ s.answers ∧ s.registry.call ⟨named, true, some "", some settings⟩ =
        (.ok n, ⟨⟨default, [], some ⟨.file "flows.db", 2, .table (.empty default 2)⟩⟩, n⟩)) ∧
      (s.registry.call ⟨named, false, some "postgres://flows", none⟩).2 = s.registry := by
  intro bare named settings s
  let uses : List Use :=
    [.call ⟨bare, true, none, none⟩, .call ⟨bare, true, some "mysql://flows", none⟩]
  refine ⟨rfl, ?_, ?_, ?_⟩
  · exact (gives_latest_or_new default uses ⟨named, true, none, none⟩).1 ⟨rfl, rfl⟩ 1 rfl
  · have hbuild : Call.build ⟨named, true, some "", some settings⟩
        (served default uses).registry.depot.saved =
        .ok ⟨.file "flows.db", 2, .table (.empty default 2)⟩ := rfl
    have hnew := (gives_latest_or_new default uses ⟨named, true, some "", some settings⟩).2.1
      fun hbare => nomatch hbare.1
    rw [hbuild] at hnew
    exact hnew.2
  · exact (gives_latest_or_new default uses ⟨named, false, some "postgres://flows", none⟩).2.2
      .noServers rfl

end Registry

end Cadence
