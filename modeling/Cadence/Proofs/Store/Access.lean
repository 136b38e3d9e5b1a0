/-
How a store is accessed: under a lock, and in tables within transactions.

A request is carried out statement by statement.  In memory the statements that change
something are carried out under a lock; nothing takes them back, so whatever may be refused
is asked first.  Tables are read and written under a lock, and what a request changes is
changed within a transaction, which is rolled back if a statement fails.  A document may be
refused when it is to be written down, also after other statements.

* `Access`, `Access.Steps` — a store with its lock and its open transaction, and what is
  done with it;
* `Access.locked`, `Access.transacted` — statements under the lock, and within a transaction;
* `Memory.steps`, `Table.steps` — the requests, statement by statement;
* `Memory.steps_rest`, `Table.steps_rest` — they come to what the stores come to, unless a
  document is refused;
* `Access.Serves` — whatever is refused changes nothing, and nothing stays locked or open;
* `Access.refused_unchanged` — this holds of stores of either kind after any requests, and a
  run of a flow that is not stored is put into the history of this flow.
-/
import Cadence.Proofs.Store.Alike

namespace Cadence

open Calendar

/-! ### Locks and transactions -/

/-- A store that is accessed: what it keeps, what it kept when the open transaction began,
and whether its lock is taken. -/
structure Access (σ : Type) where
  records : σ
  begun : Option σ
  taken : Bool

/-- Why a statement is not carried out. -/
inductive AccessFault where
  | refused (fault : StoreFault)
  /-- The lock is taken, and whoever waits for it waits forever. -/
  | locked
  /-- A transaction is open already. -/
  | nested

namespace Access

variable {σ α β : Type}

/-- What is done with a store. What was done before something fails stays done. -/
abbrev Steps (σ α : Type) := ExceptT AccessFault (StateM (Access σ)) α

/-- A row of statements on what a store keeps. -/
abbrev Statements (σ α : Type) := ExceptT StoreFault (StateM σ) α

/-- A store of which nobody holds the lock, without an open transaction. -/
def rest (records : σ) : Access σ := ⟨records, none, false⟩

/-- Statements that are carried out one after the other. -/
def statements (x : Statements σ α) : Steps σ α := fun s =>
  ((x s.records).1.mapError .refused, { s with records := (x s.records).2 })

/-- Takes the lock, and gives it back however things end. -/
def locked (x : Steps σ α) : Steps σ α := fun s =>
  if s.taken then (.error .locked, s)
  else ((x { s with taken := true }).1, { (x { s with taken := true }).2 with taken := false })

/-- Opens a transaction. -/
def begin : Steps σ Unit := fun s =>
  match s.begun with
  | some _ => (.error .nested, s)
  | none => (.ok (), { s with begun := some s.records })

/-- Keeps what was done in the open transaction. -/
def commit (s : Access σ) : Access σ := { s with begun := none }

/-- Takes back what was done in the open transaction. -/
def rollBack (s : Access σ) : Access σ :=
  { s with records := s.begun.getD s.records, begun := none }

/-- Closes the open transaction, as things ended. -/
def closing (x : Steps σ α) : Steps σ α := fun s =>
  match x s with
  | (.ok a, s) => (.ok a, s.commit)
  | (.error e, s) => (.error e, s.rollBack)

/-- What is done under the lock and within a transaction. -/
def transacted (x : Steps σ α) : Steps σ α := locked (do begin; closing x)

/-- What statements come to for a store at rest. -/
def served (x : Except StoreFault α × σ) : Except AccessFault α × Access σ :=
  (x.1.mapError .refused, rest x.2)

theorem closing_statements (x : Statements σ α) (s : Access σ) :
    closing (statements x) s = match x s.records with
      | (.ok a, r) => (.ok a, { s with records := r, begun := none })
      | (.error e, r) =>
        (.error (.refused e), { s with records := s.begun.getD r, begun := none }) := by
  unfold closing statements
  cases x s.records with
  | mk result r => cases result <;> rfl

/-- **A transaction keeps all that was done or takes all of it back, and it is closed in
either case.** -/
theorem transacted_rest (x : Statements σ α) (r : σ) :
    transacted (statements x) (rest r) = match x r with
      | (.ok a, r') => (.ok a, rest r')
      | (.error e, _) => (.error (.refused e), rest r) := by
  show ((closing (statements x) ⟨r, some r, true⟩).1,
    { (closing (statements x) ⟨r, some r, true⟩).2 with taken := false }) = _
  rw [closing_statements]
  cases x r with
  | mk result r' => cases result <;> rfl

/-- Whatever is asked of a store at rest, it answers and is at rest again, or it refuses and
is as it was. -/
structure Serves (ask : Moment → Operation → Steps σ Answer) (s : Access σ) : Prop where
  atRest : s = rest s.records
  settles : ∀ now op, (∃ a r, ask now op s = (.ok a, rest r)) ∨
    ∃ fault, ask now op s = (.error (.refused fault), s)

/-- What becomes of a store that is asked for one thing after another, answered or not. -/
def serve (ask : Moment → Operation → Steps σ Answer) (s : Access σ)
    (asked : List (Moment × Operation)) : Access σ :=
  asked.foldl (fun s q => (ask q.1 q.2 s).2) s

theorem serve_cons (ask : Moment → Operation → Steps σ Answer) (s : Access σ) (now : Moment)
    (op : Operation) (asked : List (Moment × Operation)) :
    serve ask s ((now, op) :: asked) = serve ask (ask now op s).2 asked :=
  rfl

end Access

/-! ### In memory -/

namespace Memory

open Access

variable {m : Memory} {now : Moment} {op : Operation}

/-- Gives the flow of an id, which must be there. -/
def require (id : String) : Statements Memory StoredFlow := fun m => (m.find id, m)

/-- Stores a new flow, statement by statement. -/
def creating (f : Flow) (now : Moment) : Statements Memory Answer := do
  let r := StoredFlow.new f now
  if ((← get).flows.lookup r.id).isSome then throw (.problem (.flowExists r.id))
  modify (·.putFlow r)
  pure (.flow r)

/-- Changes a stored flow, statement by statement. -/
def changing (id : String) (f : StoredFlow → StoredFlow) : Statements Memory Answer := do
  let r ← require id
  modify fun m => { m with flows := put id (f r) m.flows }
  pure (.flow (f r))

/-- Removes a flow and then its history. -/
def removing (id : String) : Statements Memory Answer := do
  let _ ← require id
  modify fun m => { m with flows := m.flows.filter fun e => e.1 != id }
  modify fun m => { m with histories := m.histories.filter fun e => e.1 != id }
  pure .done

/-- Puts the time of a run into its flow, if it is stored. -/
def noting (run : RunRecord) : Statements Memory Answer := do
  match (← get).flows.lookup run.flowId with
  | none => pure .done
  | some f =>
    modify fun m => { m with flows := put run.flowId (f.ranAt run.finishedAt) m.flows }
    pure .done

/-- Puts a history in the place of the one before. -/
def putHistory (m : Memory) (id : String) (runs : List RunRecord) : Memory :=
  { m with histories := put id runs m.histories }

/-- Puts a run at the head of its history, cuts the history off and then looks for the flow. -/
def appending (run : RunRecord) : Statements Memory Answer := do
  modify fun m => m.putHistory run.flowId (run :: m.history run.flowId)
  modify fun m => m.putHistory run.flowId (keepFirst m.limit (m.history run.flowId))
  noting run

/-- Gives the history of a flow, or its beginning. -/
def listing (id : String) (limit : Option Int) : Statements Memory Answer := do
  let _ ← require id
  let runs := (← get).history id
  pure (.runs (match limit with
    | none => runs
    | some n => keepFirst n runs))

/-- The requests, statement by statement: under the lock if they change something. -/
def steps (now : Moment) : Operation → Steps Memory Answer
  | .create f => locked (statements (creating f now))
  | .revise id f => locked (statements (changing id (·.revise id f now)))
  | .remove id => locked (statements (removing id))
  | .find id => statements do return .flow (← require id)
  | .all => statements do return .flows ((← get).flows.map (·.2))
  | .setEnabled id enabled => locked (statements (changing id (·.setEnabled enabled now)))
  | .isEnabled id => statements do return .enabled (← require id).definition.enabled
  | .append run => locked (statements (appending run))
  | .runs id limit => statements (listing id limit)

/-- What a request comes to: a refused one leaves the memory as it was. -/
def outcome (m : Memory) : Except StoreFault (Answer × Memory) → Except StoreFault Answer × Memory
  | .ok (a, m') => (.ok a, m')
  | .error e => (.error e, m)

/-- Where there is no such flow, nothing further is done. -/
theorem require_bind (id : String) (k : StoredFlow → Statements Memory Answer) (m : Memory) :
    (require id >>= k) m = match m.find id with
      | .ok r => k r m
      | .error e => (.error e, m) := by
  show ExceptT.bindCont k (m.find id) m = _
  cases m.find id <;> rfl

theorem creating_run (f : Flow) (now : Moment) (m : Memory) :
    creating f now m = m.outcome (m.create f now) := by
  have hcreating : creating f now = get >>= fun m =>
      if (m.flows.lookup (StoredFlow.new f now).id).isSome
      then throw (.problem (.flowExists (StoredFlow.new f now).id))
      else (do modify (·.putFlow (StoredFlow.new f now)); pure (.flow (StoredFlow.new f now))) := by
    unfold creating
    congr 1
  rw [hcreating, create]
  show (if _ then _ else _ : Statements Memory Answer) m = _
  split <;> rfl

theorem changing_run (id : String) (f : StoredFlow → StoredFlow) (m : Memory) :
    changing id f m = m.outcome (m.change id f) := by
  rw [changing, require_bind, change]
  cases m.find id <;> rfl

theorem removing_run (id : String) (m : Memory) : removing id m = m.outcome (m.remove id) := by
  rw [removing, require_bind, remove]
  cases m.find id <;> rfl

theorem listing_run (id : String) (limit : Option Int) (m : Memory) :
    listing id limit m = m.outcome (m.apply now (.runs id limit)) := by
  rw [listing, require_bind, show m.apply now (.runs id limit) =
    (m.find id).map fun _ => _ from rfl]
  cases m.find id <;> rfl

theorem query_run (id : String) (g : StoredFlow → Answer) (m : Memory) :
    (do return g (← require id) : Statements Memory Answer) m =
      m.outcome ((m.find id).map fun f => (g f, m)) := by
  rw [require_bind]
  cases m.find id <;> rfl

theorem putHistory_again (m : Memory) (id : String) (runs runs' : List RunRecord) :
    (m.putHistory id runs).putHistory id runs' = m.putHistory id runs' :=
  congrArg (fun histories => { m with histories := histories }) (put_put runs)

theorem history_putHistory (m : Memory) (id : String) (runs : List RunRecord) :
    (m.putHistory id runs).history id = runs := by
  rw [history, putHistory, lookup_put_self]
  rfl

theorem appending_run (run : RunRecord) (m : Memory) :
    appending run m = (.ok .done, m.append run) := by
  have happending : appending run m =
      noting run (((m.putHistory run.flowId (run :: m.history run.flowId)).putHistory
      run.flowId (keepFirst m.limit
        ((m.putHistory run.flowId (run :: m.history run.flowId)).history run.flowId)))) := rfl
  rw [happending, history_putHistory, putHistory_again, append]
  show (match m.flows.lookup run.flowId with
    | none => _
    | some f => _ : Statements Memory Answer) _ = _
  cases m.flows.lookup run.flowId <;> rfl

theorem steps_rest (m : Memory) (now : Moment) (op : Operation) :
    steps now op (rest m) = served (m.outcome (m.apply now op)) := by
  cases op with
  | create f => exact congrArg served (creating_run f now m)
  | revise id f => exact congrArg served (changing_run id _ m)
  | remove id => exact congrArg served (removing_run id m)
  | find id => exact congrArg served (query_run id .flow m)
  | all => rfl
  | setEnabled id enabled => exact congrArg served (changing_run id _ m)
  | isEnabled id => exact congrArg served (query_run id (fun f => .enabled f.definition.enabled) m)
  | append run => exact congrArg served (appending_run run m)
  | runs id limit => exact congrArg served (listing_run id limit m)

/-- **A memory settles whatever it is asked.** -/
theorem serves (m : Memory) : Serves steps (rest m) where
  atRest := rfl
  settles := fun now op => by
    rw [steps_rest]
    cases m.apply now op with
    | ok x => exact Or.inl ⟨x.1, x.2, rfl⟩
    | error e => exact Or.inr ⟨e, rfl⟩

/-- Statement by statement a memory comes to what the requests come to. -/
theorem serve_rest (m : Memory) (asked : List (Moment × Operation)) :
    ∃ m', serve steps (rest m) asked = rest m' ∧ ((Store.memory m).run asked).2 = .memory m' := by
  induction asked generalizing m with
  | nil => exact ⟨m, rfl, rfl⟩
  | cons q asked ih =>
    obtain ⟨now, op⟩ := q
    rw [serve_cons, steps_rest, Store.run_cons, Store.apply]
    cases m.apply now op with
    | ok x => exact ih x.2
    | error e => exact ih m

/-- What changes with a run of a flow that is not stored: the history of this flow, which
begins with the run. -/
structure Adds (m : Memory) (r : RunRecord) (m' : Memory) : Prop where
  flows : m'.flows = m.flows
  history : m'.history r.flowId = keepFirst m.limit (r :: m.history r.flowId)
  others : ∀ id, id ≠ r.flowId → m'.history id = m.history id

theorem append_adds {r : RunRecord} (h : m.flows.lookup r.flowId = none) :
    m.Adds r (m.append r) where
  flows := by rw [append_eq, h]
  history := by rw [history_append, if_pos rfl]
  others := fun id hne => by rw [history_append, if_neg fun heq => hne heq.symm]

end Memory

/-! ### In tables -/

namespace Table

open Access

variable {α β : Type} {t : Table} {m : Memory} {now : Moment} {op : Operation}
  {refuse : Json → Option StoreFault}

/-- Asks whether a document can be written down. -/
def writing (refuse : Json → Option StoreFault) (v : Json) : Script Unit :=
  match refuse v with
  | none => pure ()
  | some fault => throw fault

/-- Stores a new flow, statement by statement. -/
def creating (refuse : Json → Option StoreFault) (f : Flow) (now : Moment) : Script Answer := do
  let r := StoredFlow.new f now
  if ((← get).document? r.id).isSome then throw (.problem (.flowExists r.id))
  writing refuse r.toJson
  modify (·.insertFlow r.id (written r.toJson))
  pure (.flow r)

/-- Changes a stored flow, statement by statement. -/
def changing (refuse : Json → Option StoreFault) (id : String)
    (f : StoredFlow → StoredFlow) : Script Answer := do
  let r := f (← find id)
  writing refuse r.toJson
  putFlow r
  pure (.flow r)

/-- Removes a flow and then its history. -/
def removing (id : String) : Script Answer := do
  let _ ← find id
  modify (·.deleteFlow id)
  modify (·.deleteRuns id)
  pure .done

/-- Stores a run, removes the runs beyond the limit and then looks for the flow. -/
def appending (refuse : Json → Option StoreFault) (run : RunRecord) : Script Answer := do
  writing refuse run.toJson
  checkRun run
  modify (·.insertRun run)
  checkLimit (← get).limit
  modify (·.trimRuns run.flowId)
  match ← flow? run.flowId with
  | none => pure .done
  | some f =>
    let f := f.ranAt run.finishedAt
    writing refuse f.toJson
    putFlow f
    pure .done

/-- Gives the rows of all flows, and how they are read. -/
def rowsOfFlows : Script (Codec × List Json) := do
  let t ← get
  return (t.codec, t.documents)

/-- Gives the rows of the history of a flow, or of its beginning, and how they are read. -/
def rowsOf (id : String) (limit : Option Int) : Script (Codec × List RunRow) := do
  let _ ← find id
  checkLimit (limit.getD (-1))
  let t ← get
  return (t.codec, t.latestRuns id (limit.getD (-1)))

/-- Gives what was read, unless the reading failed. -/
def reading (x : Except StoreFault Answer) : Script Answer :=
  match x with
  | .ok a => pure a
  | .error e => throw e

/-- Gets rows under the lock, and reads them when the lock is given back. -/
def fetching (rows : Script β) (read : β → Except StoreFault Answer) : Steps Table Answer := do
  let rows ← locked (statements rows)
  statements (reading (read rows))

/-- Reads rows of flows. -/
def readFlows (rows : Codec × List Json) : Except StoreFault Answer :=
  (rows.2.mapM (readFlow rows.1)).map .flows

/-- Reads rows of runs. -/
def readRuns (rows : Codec × List RunRow) : Except StoreFault Answer :=
  (rows.2.mapM fun r => readRun rows.1 r.document).map .runs

/-- The requests, statement by statement: under the lock, and within a transaction if they
change something. -/
def steps (refuse : Json → Option StoreFault) (now : Moment) : Operation → Steps Table Answer
  | .create f => transacted (statements (creating refuse f now))
  | .revise id f => transacted (statements (changing refuse id (·.revise id f now)))
  | .remove id => transacted (statements (removing id))
  | .find id => locked (statements do return .flow (← find id))
  | .all => fetching rowsOfFlows readFlows
  | .setEnabled id enabled =>
    transacted (statements (changing refuse id (·.setEnabled enabled now)))
  | .isEnabled id => locked (statements do return .enabled (← find id).definition.enabled)
  | .append run => transacted (statements (appending refuse run))
  | .runs id limit => fetching (rowsOf id limit) readRuns

/-- A script that comes to what another one comes to, unless a document is refused. -/
def Stricter (refuse : Json → Option StoreFault) (x y : Script α) : Prop :=
  ∀ t, x t = y t ∨ ∃ v fault t', refuse v = some fault ∧ x t = (.error fault, t')

theorem Stricter.refl (x : Script α) : Stricter refuse x x := fun _ => Or.inl rfl

theorem Stricter.bind {x y : Script α} {f g : α → Script β} (h : Stricter refuse x y)
    (hf : ∀ a, Stricter refuse (f a) (g a)) : Stricter refuse (x >>= f) (y >>= g) := by
  intro t
  rcases h t with heq | ⟨v, fault, t', hv, heq⟩
  · cases hy : y t with
    | mk result t' =>
      rw [hy] at heq
      cases result with
      | ok a =>
        rw [bind_ok heq, bind_ok hy]
        exact hf a t'
      | error e =>
        left
        rw [bind_error heq, bind_error hy]
  · exact Or.inr ⟨v, fault, t', hv, bind_error heq⟩

theorem stricter_writing (v : Json) {x y : Script α} (h : Stricter refuse x y) :
    Stricter refuse (do writing refuse v; x) y := by
  intro t
  cases hv : refuse v with
  | none =>
    have hwriting : writing refuse v t = (.ok (), t) := by rw [writing, hv]; rfl
    rw [bind_ok hwriting]
    exact h t
  | some fault =>
    have hwriting : writing refuse v t = (.error fault, t) := by rw [writing, hv]; rfl
    exact Or.inr ⟨v, fault, t, hv, bind_error hwriting⟩

/-- A document that is refused takes back what was done before. -/
theorem Stricter.transaction {x y : Script Answer} (h : Stricter refuse x y) (t : Table) :
    transacted (statements x) (rest t) = served (Table.transaction y t) ∨
      ∃ v fault, refuse v = some fault ∧ transacted (statements x) (rest t) =
        (.error (.refused fault), rest t) := by
  rw [transacted_rest]
  rcases h t with heq | ⟨v, fault, t', hv, heq⟩
  · left
    rw [heq, Table.transaction]
    cases y t with
    | mk result t' => cases result <;> rfl
  · right
    exact ⟨v, fault, hv, by rw [heq]⟩

/-- What is read after the lock is given back is what would be read under it. -/
theorem fetching_rest (rows : Script β) (read : β → Except StoreFault Answer) (t : Table) :
    fetching rows read (rest t) = served ((rows >>= fun r => reading (read r)) t) := by
  show ExceptT.bindCont (fun r => statements (reading (read r)))
    ((rows t).1.mapError .refused) (rest (rows t).2) = _
  cases hrows : rows t with
  | mk result t' =>
    cases result with
    | ok r => rw [bind_ok hrows]; rfl
    | error e => rw [bind_error hrows]; rfl

theorem all_eq : all = rowsOfFlows >>= fun rows => reading (readFlows rows) := by
  funext t
  rw [all_run]
  show _ = reading ((t.documents.mapM (readFlow t.codec)).map .flows) t
  cases t.documents.mapM (readFlow t.codec) <;> rfl

theorem history_eq (id : String) (limit : Option Int) :
    history id limit = rowsOf id limit >>= fun rows => reading (readRuns rows) := by
  unfold history rowsOf readRuns
  simp only [bind_assoc, pure_bind]
  congr 1
  funext _
  congr 1
  funext _
  congr 1
  funext t
  cases (t.latestRuns id (limit.getD (-1))).mapM fun r => readRun t.codec r.document <;> rfl

theorem steps_change (refuse : Json → Option StoreFault) (id : String)
    (f : StoredFlow → StoredFlow) (t : Table) :
    transacted (statements (changing refuse id f)) (rest t) = served (Table.change id f t) ∨
      ∃ v fault, refuse v = some fault ∧ transacted (statements (changing refuse id f)) (rest t) =
        (.error (.refused fault), rest t) := by
  refine Stricter.transaction ?_ t
  exact (Stricter.refl (find id)).bind fun r => stricter_writing _ (.refl _)

/-- **A request comes to what the tables come to, unless a document is refused, which
changes nothing.** -/
theorem steps_rest (refuse : Json → Option StoreFault) (t : Table) (now : Moment) (op : Operation) :
    steps refuse now op (rest t) = served (t.apply now op) ∨
      ∃ v fault, refuse v = some fault ∧ steps refuse now op (rest t) =
        (.error (.refused fault), rest t) := by
  cases op with
  | create f =>
    refine Stricter.transaction (Stricter.bind (.refl get) fun t => ?_) t
    split
    · exact .refl _
    · exact stricter_writing _ (.refl _)
  | revise id f => exact steps_change refuse id _ t
  | remove id => exact (Stricter.refl (removing id)).transaction t
  | find id => exact Or.inl rfl
  | all => exact Or.inl ((fetching_rest _ _ t).trans (congrArg served (congrFun all_eq t).symm))
  | setEnabled id enabled => exact steps_change refuse id _ t
  | isEnabled id => exact Or.inl rfl
  | append run =>
    refine Stricter.transaction (stricter_writing _ (.bind (.refl (checkRun run)) fun _ => ?_)) t
    refine .bind (.refl _) fun _ => .bind (.refl get) fun t => ?_
    refine .bind (.refl (checkLimit t.limit)) fun _ => .bind (.refl _) fun _ => ?_
    refine .bind (.refl (flow? run.flowId)) fun f => ?_
    cases f with
    | none => exact .refl _
    | some f => exact stricter_writing _ (.refl _)
  | runs id limit =>
    exact Or.inl
      ((fetching_rest _ _ t).trans
      (congrArg served (congrFun (history_eq id limit) t).symm))

/-- **Tables settle whatever they are asked, whichever documents are refused.** -/
theorem serves (refuse : Json → Option StoreFault) (t : Table) :
    Serves (steps refuse) (rest t) where
  atRest := rfl
  settles := fun now op => by
    rcases steps_rest refuse t now op with heq | ⟨_, fault, _, heq⟩
    · rw [heq]
      cases hx : t.apply now op with
      | mk result t' =>
        cases result with
        | ok a => exact Or.inl ⟨a, t', rfl⟩
        | error e =>
          obtain rfl := of_error hx
          exact Or.inr ⟨e, rfl⟩
    · exact Or.inr ⟨fault, heq⟩

/-- Statement by statement tables come to what those requests come to of which no document
is refused. -/
theorem serve_rest (refuse : Json → Option StoreFault) (t : Table)
    (asked : List (Moment × Operation)) :
    ∃ t' asked', serve (steps refuse) (rest t) asked = rest t' ∧
      ((Store.table t).run asked').2 = .table t' ∧
      asked'.Sublist asked ∧ ((∀ v, refuse v = none) → asked' = asked) := by
  induction asked generalizing t with
  | nil => exact ⟨t, [], rfl, rfl, .refl _, fun _ => rfl⟩
  | cons q asked ih =>
    obtain ⟨now, op⟩ := q
    rw [serve_cons]
    rcases steps_rest refuse t now op with heq | ⟨v, fault, hv, heq⟩
    · obtain ⟨t', asked', hserve, hrun, hsub, hall⟩ := ih (t.apply now op).2
      rw [heq]
      exact ⟨t', (now, op) :: asked', hserve, hrun, hsub.cons_cons _, fun h => by rw [hall h]⟩
    · obtain ⟨t', asked', hserve, hrun, hsub, _⟩ := ih t
      rw [heq]
      exact ⟨t', asked', hserve, hrun, hsub.cons _, fun h => by cases (h v).symm.trans hv⟩

theorem appending_run {r : RunRecord} (hmissing : t.document? r.flowId = none)
    (hwritten : refuse r.toJson = none) (hwrites : t.codec.writes r = true) :
    appending refuse r t =
      if isLimit t.limit then (.ok .done, t.withRun r) else (.error .limit, t.insertRun r) := by
  have hwriting : writing refuse r.toJson t = (.ok (), t) := by
    rw [writing, hwritten]
    rfl
  have hcheck := checkRun_run r t
  rw [Option.isNone_iff_eq_none.mp hwrites] at hcheck
  have hlimit := checkLimit_run (t.insertRun r).limit (t.insertRun r)
  have hflow := flow?_run r.flowId (t.withRun r)
  rw [show (t.withRun r).document? r.flowId = t.document? r.flowId from rfl, hmissing] at hflow
  rw [appending, bind_ok hwriting, bind_ok hcheck, bind_ok (modify_run _ t), bind_ok (get_run _)]
  cases htakes : isLimit t.limit with
  | true =>
    rw [show isLimit (t.insertRun r).limit = true from htakes] at hlimit
    rw [bind_ok hlimit, bind_ok (modify_run _ _)]
    exact bind_ok hflow
  | false =>
    rw [show isLimit (t.insertRun r).limit = false from htakes] at hlimit
    exact bind_error hlimit

/-- A run of a flow that is not stored, if it can be written down, is put in just if the
limit is one that tables know. -/
theorem Holds.steps_append (h : t.Holds m) (hs : m.Sound) {r : RunRecord}
    (hmissing : t.document? r.flowId = none) (hwritten : refuse r.toJson = none)
    (hwrites : t.codec.writes r = true) (now : Moment) :
    if isLimit t.limit then
      ∃ t' m', steps refuse now (.append r) (rest t) = (.ok .done, rest t') ∧
      t'.Holds m' ∧ m.Adds r m'
    else steps refuse now (.append r) (rest t) = (.error (.refused .limit), rest t) := by
  have hsteps : steps refuse now (.append r) (rest t) =
      transacted (statements (appending refuse r)) (rest t) := rfl
  rw [hsteps, transacted_rest, appending_run hmissing hwritten hwrites]
  split
  · next htakes =>
    have happend : Table.append r t = (.ok .done, t.withRun r) := by
      rw [append_run, Option.isNone_iff_eq_none.mp hwrites]
      simp only [if_pos htakes, hmissing]
    have hnone : m.flows.lookup r.flowId = none := by
      rw [h.document?_eq, Option.map_eq_none_iff] at hmissing
      exact hmissing
    exact ⟨t.withRun r, m.append r, rfl, (h.of_append hs happend).2, Memory.append_adds hnone⟩
  · rfl

end Table

namespace Access

/-- **Whatever a store refuses changes nothing, and nothing stays locked or open; a run of a
flow that is not stored is not refused, and it is put into the history of this flow.**  A
new store of either kind is asked for one thing after another; tables refuse some documents,
also after other statements.  Then it keeps what comes of the requests that it did not
refuse for a document, and it settles whatever it is asked next.  Tables refuse the run,
however, if it cannot be written down or their limit is beyond their integers. -/
theorem refused_unchanged (codec : Codec) (limit : Nat) (refuse : Json → Option StoreFault)
    {asked : List (Moment × Operation)} (ha : Store.AreWellFormed asked) :
    (∃ m : Memory, serve Memory.steps (rest (.empty limit)) asked = rest m ∧
      ((Store.memory (.empty limit)).run asked).2 = .memory m ∧ Serves Memory.steps (rest m) ∧
      ∀ now r, m.flows.lookup r.flowId = none →
        ∃ m', Memory.steps now (.append r) (rest m) = (.ok .done, rest m') ∧ m.Adds r m') ∧
    ∃ (t : Table) (asked' : List (Moment × Operation)),
      serve (Table.steps refuse) (rest (.empty codec limit)) asked = rest t ∧
      ((Store.table (.empty codec limit)).run asked').2 = .table t ∧ asked'.Sublist asked ∧
      ((∀ v, refuse v = none) → asked' = asked) ∧ Serves (Table.steps refuse) (rest t) ∧
      ∃ m, t.Holds m ∧ ∀ now r, t.document? r.flowId = none → refuse r.toJson = none →
      codec.writes r = true →
        if Table.isLimit limit then
          ∃ t' m', Table.steps refuse now (.append r) (rest t) = (.ok .done, rest t') ∧
          t'.Holds m' ∧ m.Adds r m'
        else Table.steps refuse now (.append r) (rest t) = (.error (.refused .limit), rest t) := by
  constructor
  · obtain ⟨m, hserve, hrun⟩ := Memory.serve_rest (.empty limit) asked
    refine ⟨m, hserve, hrun, Memory.serves m, fun now r hmissing =>
      ⟨m.append r, ?_, Memory.append_adds hmissing⟩⟩
    exact Memory.steps_rest m now (.append r)
  · obtain ⟨t, asked', hserve, hrun, hsub, hall⟩ :=
      Table.serve_rest refuse (.empty codec limit) asked
    obtain ⟨m, hholds, hsound, hfollows⟩ := Store.Holds.run (s := .table (.empty codec limit))
      (Table.holds_empty codec limit) (Memory.empty_sound limit) fun q hq => ha q (hsub.subset hq)
    obtain ⟨t', ht', hcodec⟩ := Store.run_table (.empty codec limit) asked'
    rw [hrun] at hholds ht'
    obtain rfl : t = t' := Store.table.inj ht'
    refine ⟨t, asked', hserve, hrun, hsub, hall, Table.serves refuse t, m, hholds,
      fun now r hmissing hwritten hwrites => ?_⟩
    have happend := Table.Holds.steps_append hholds hsound hmissing hwritten
      (hcodec.symm ▸ hwrites) now
    rw [show t.limit = limit from hholds.limit.trans hfollows.limit] at happend
    exact happend

/-- A flow is stored, another one of its name and one whose document is refused are not, and
a run of a fourth one is kept. -/
theorem refused_unchanged_ghost :
    let clock : Instant := ⟨63000000000000000⟩
    let now := clock.toMoment
    let asked := [(now, Operation.create (.bare "a")), (now, .create (.bare "a")),
      (now, .create (.bare "b"))]
    let refuse := fun v : Json => match v.get? "id" with
      | some (.str "b") => some (StoreFault.outage "refused")
      | _ => none
    let r : RunRecord :=
      ⟨"run", "ghost", "ghost", .success, .manual, now, now, [], [], .bare "ghost"⟩
    (∃ m m', serve Memory.steps (rest (.empty (2 : Nat))) asked = rest m ∧
      Memory.steps now (.append r) (rest m) = (.ok .done, rest m') ∧ m'.flows = m.flows ∧
      m'.history "ghost" = [r]) ∧
    ∃ t t', serve (Table.steps refuse) (rest (.empty default (2 : Nat))) asked = rest t ∧
      t.flows.map (·.id) = ["a"] ∧
      Table.steps refuse now (.append r) (rest t) = (.ok .done, rest t') ∧
      (t'.runsOf "ghost").map (·.document) = [Table.written r.toJson] := by
  intro clock now asked refuse r
  have hnow : now.WellFormed := Instant.toMoment_wellFormed (by decide +kernel)
  have ha : Store.AreWellFormed asked := by
    intro q hq
    simp only [asked, List.mem_cons, List.not_mem_nil, or_false] at hq
    rcases hq with rfl | rfl | rfl
    · exact ⟨hnow, Flow.bare_wellFormed (by decide) (by decide)⟩
    · exact ⟨hnow, Flow.bare_wellFormed (by decide) (by decide)⟩
    · exact ⟨hnow, Flow.bare_wellFormed (by decide) (by decide)⟩
  obtain ⟨⟨m, hserve, hrun, _, happend⟩, t, _, htable, _, _, _, _, n, hholds, hput⟩ :=
    refused_unchanged default 2 refuse ha
  constructor
  · have hempty : (match ((Store.memory (.empty (2 : Nat))).run asked).2 with
        | .memory m =>
          (m.flows.lookup "ghost").isNone && (m.history "ghost").isEmpty && m.limit == 2
        | _ => false) = true := by decide +kernel
    rw [hrun] at hempty
    simp only [Bool.and_eq_true, Option.isNone_iff_eq_none, List.isEmpty_iff, beq_iff_eq] at hempty
    obtain ⟨⟨hmissing, hhistory⟩, hlimit⟩ := hempty
    obtain ⟨m', hsteps, hadds⟩ := happend now r hmissing
    refine ⟨m, m', hserve, hsteps, hadds.flows, ?_⟩
    rw [show "ghost" = r.flowId from rfl, hadds.history, hlimit,
      show m.history r.flowId = [] from hhistory]
    rfl
  · have hrows :
        (let t := (serve (Table.steps refuse) (rest (.empty default (2 : Nat)))
        asked).records
        (t.flows.map (·.id) == ["a"]) && (t.document? "ghost").isNone &&
          (t.runsOf "ghost").isEmpty && t.limit == 2) =
        true := by decide +kernel
    rw [htable] at hrows
    simp only [rest, Bool.and_eq_true, Option.isNone_iff_eq_none, List.isEmpty_iff, beq_iff_eq]
      at hrows
    obtain ⟨⟨⟨hflows, hmissing⟩, hruns⟩, hlimit⟩ := hrows
    have hhistory : n.history "ghost" = [] := by
      have hdocuments := hholds.runs "ghost"
      rw [hruns] at hdocuments
      exact List.map_eq_nil_iff.mp hdocuments.symm
    have hput := hput now r hmissing (by decide +kernel) rfl
    rw [if_pos (by decide)] at hput
    obtain ⟨t', n', hsteps, hholds', hadds⟩ := hput
    refine ⟨t, t', htable, hflows, hsteps, ?_⟩
    have hdocuments := hholds'.runs r.flowId
    rw [hadds.history, ← hholds.limit, hlimit, show n.history r.flowId = [] from hhistory]
      at hdocuments
    exact List.reverse_eq_iff.mp hdocuments

end Access

end Cadence
