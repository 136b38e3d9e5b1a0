/-
The keys of stored flows.

* `Store.keys`, `Store.idUnder?` — the keys of a store, and the id in the record that is
  kept under a key;
* `Store.IsKeyed` — each key stands once, has the form of an id, and is the id of the flow
  that is kept under it;
* `Store.Holds.forms_apply`, `Store.Holds.forms_run` — requests leave the keys in the form of ids;
* `Store.ids_canonical` — ids are canonical, and they are what stores tell flows apart by.
-/
import Cadence.Proofs.Flow.Id
import Cadence.Proofs.Store.Interchange

namespace Cadence

open Calendar Text

/-- The id of a well-formed flow has the form of an id. -/
theorem Flow.WellFormed.isSlug_id {f : Flow} (h : f.WellFormed) : Flow.IsSlug f.id.toList :=
  (Flow.idOfName_isSlug f.name).resolve_left h.id_ne

namespace Store

/-! ### Keys -/

/-- The keys under which the flows of a store are kept. -/
def keys : Store → List String
  | .memory m => names m.flows
  | .table t => t.flows.map (·.id)
  | .remote => []

/-- The id in the record that a store keeps under a key. -/
def idUnder? (key : String) : Store → Option String
  | .memory m => (m.flows.lookup key).map (·.id)
  | .table t =>
    match (t.document? key).bind (·.get? "id") with
    | some (.str id) => some id
    | _ => none
  | .remote => none

/-- Each key stands once, has the form of an id, and is the id of the flow that is kept under it. -/
structure IsKeyed (s : Store) : Prop where
  once : s.keys.Nodup
  form : ∀ key ∈ s.keys, Flow.IsSlug key.toList
  own : ∀ key ∈ s.keys, s.idUnder? key = some key

variable {s : Store} {m : Memory} {now : Moment} {op : Operation}

theorem Holds.keys_eq (h : s.Holds m) : s.keys = names m.flows := by
  cases s with
  | memory m₀ =>
    obtain rfl : m₀ = m := h
    rfl
  | table t =>
    show t.flows.map (·.id) = names m.flows
    rw [Table.Holds.flows h, List.map_map]
    rfl
  | remote => exact h.elim

theorem Holds.idUnder?_eq (h : s.Holds m) (key : String) :
    s.idUnder? key = (m.flows.lookup key).map (·.id) := by
  cases s with
  | memory m₀ =>
    obtain rfl : m₀ = m := h
    rfl
  | table t =>
    rw [idUnder?, Table.Holds.document?_eq h]
    cases m.flows.lookup key with
    | none => rfl
    | some r => rfl
  | remote => exact h.elim

/-- A flow is created just if its id is no key. -/
theorem Holds.create_eq (h : s.Holds m) (f : Flow) (now : Moment) :
    (s.apply now (.create f)).1 =
      if f.id ∈ s.keys then .error (.problem (.flowExists f.id)) else .ok (.flow (.new f now)) := by
  have hmem : f.id ∈ names m.flows ↔ (m.flows.lookup f.id).isSome = true := by
    rw [Option.isSome_iff_ne_none, Ne, lookup_eq_none_iff_names, not_not]
  simp only [h.keys_eq, hmem]
  cases s with
  | memory m₀ =>
    obtain rfl : m₀ = m := h
    rw [apply, show m₀.apply now (.create f) = if (m₀.flows.lookup f.id).isSome then
      .error (.problem (.flowExists f.id))
        else .ok (.flow (.new f now), m₀.putFlow (.new f now)) from rfl]
    cases (m₀.flows.lookup f.id).isSome <;> rfl
  | table t =>
    show (Table.create f now t).1 = _
    rw [Table.create_run, Table.Holds.document?_eq h, Option.isSome_map]
    cases (m.flows.lookup f.id).isSome <;> rfl
  | remote => exact h.elim

/-! ### What requests make of the keys -/

/-- The keys after a request are those that it leaves or makes. -/
theorem Holds.keys_apply (h : s.Holds m) (hs : m.Sound) (now : Moment) (op : Operation) :
    (s.apply now op).2.keys = if (s.apply now op).1.toOption.isSome then op.created s.keys
      else s.keys := by
  obtain ⟨e, he, hsame⟩ | ⟨a, a', m', ha, hm, hholds⟩ := h.becomes hs now op
  · rw [hsame.keys_eq, h.keys_eq, he]
    rfl
  · rw [hholds.keys_eq, h.keys_eq, ha, Memory.names_of_apply hs hm]
    rfl

/-- Keys in the form of ids stay so. -/
theorem Holds.forms_apply (h : s.Holds m) (hs : m.Sound) (hop : op.WellFormed)
    (hform : ∀ key ∈ s.keys, Flow.IsSlug key.toList) :
    ∀ key ∈ (s.apply now op).2.keys, Flow.IsSlug key.toList := by
  rw [h.keys_apply hs]
  split
  · cases op with
    | create f =>
      intro key hkey
      rcases List.mem_append.mp hkey with hkey | hkey
      · exact hform key hkey
      · rw [List.mem_singleton.mp hkey]
        exact Flow.WellFormed.isSlug_id hop
    | remove id => exact fun key hkey => hform key (List.mem_of_mem_filter hkey)
    | _ => exact hform
  · exact hform

theorem Holds.forms_run (h : s.Holds m) (hs : m.Sound) {asked : List (Moment × Operation)}
    (ha : AreWellFormed asked) (hform : ∀ key ∈ s.keys, Flow.IsSlug key.toList) :
    ∀ key ∈ (s.run asked).2.keys, Flow.IsSlug key.toList := by
  induction asked generalizing s m with
  | nil => exact hform
  | cons q rest ih =>
    obtain ⟨now, op⟩ := q
    obtain ⟨hnow, hop⟩ := ha _ List.mem_cons_self
    obtain ⟨m', hm', hs', _⟩ := h.step hs hop hnow
    exact ih hm' hs' (fun q hq => ha q (List.mem_cons_of_mem _ hq)) (h.forms_apply hs hop hform)

/-- A sound memory keeps each flow once, under its own id. -/
theorem Holds.isKeyed (h : s.Holds m) (hs : m.Sound)
    (hform : ∀ key ∈ s.keys, Flow.IsSlug key.toList) : s.IsKeyed where
  once := by
    rw [h.keys_eq]
    exact hs.single
  form := hform
  own := by
    intro key hkey
    rw [h.keys_eq] at hkey
    obtain ⟨r, hr⟩ := Option.ne_none_iff_exists'.mp fun hnone =>
      lookup_eq_none_iff_names.mp hnone hkey
    rw [h.idUnder?_eq, hr, Option.map_some, (hs.flow key r hr).own]

/-- **Ids are canonical.** The id of a name is the runs of letters and digits of its
lower-case form, joined by single dashes; and in every store that was empty once the flows
are kept under ids of that form, each under its own, so that a flow is created just if its
id is no key yet. -/
theorem ids_canonical :
    (∀ name, ∃ runs,
      (∀ runs', HasRuns (fun c => !c.isAlphanum) (lower name).toList runs' ↔ runs' = runs) ∧
      Flow.idOfName name = String.ofList (['-'].intercalate runs) ∧
      (Flow.idOfName name).toList =
        stripWhile (· == '-') (dashed (fun c => !Flow.isIdChar c) (lower name).toList) ∧
      (Flow.idOfName name = "" ∨ Flow.IsSlug (Flow.idOfName name).toList) ∧
      Flow.idOfName (Flow.idOfName name) = Flow.idOfName name ∧
      ∀ other, Flow.idOfName other = Flow.idOfName name ↔
        HasRuns (fun c => !c.isAlphanum) (lower other).toList runs) ∧
    ∀ (codec : Codec) (kept : Nat) (asked : List (Moment × Operation)), AreWellFormed asked →
      ∀ s₀, s₀ = .memory (.empty kept) ∨ s₀ = .table (.empty codec kept) →
        let s := (Store.run s₀ asked).2
        s.IsKeyed ∧
        (∀ now f, (s.apply now (.create f)).1 =
          if f.id ∈ s.keys then .error (.problem (.flowExists f.id))
            else .ok (.flow (.new f now))) ∧
        (∀ now id f, (s.apply now (.revise id f)).2.keys = s.keys) ∧
        ∀ now key r, (s.apply now (.find key)).1 = .ok (.flow r) → key ∈ s.keys ∧ r.id = key := by
  constructor
  · intro name
    refine ⟨Flow.idRuns (lower name), fun runs' => ?_, rfl, Flow.toList_idOfName name,
      Flow.idOfName_isSlug name, Flow.idOfName_idOfName name, fun other => ?_⟩
    · rw [Flow.hasRuns_lower_iff, eq_comm]
    · rw [Flow.hasRuns_lower_iff, Flow.idOfName_eq_iff]
  · intro codec kept asked hasked s₀ hs₀ s
    have hempty := Store.holds_empty hs₀
    obtain ⟨m, hm, hsound, _⟩ := hempty.run (Memory.empty_sound kept) hasked
    have hform := hempty.forms_run (Memory.empty_sound kept) hasked
      (by rw [hempty.keys_eq]; exact nofun)
    refine ⟨hm.isKeyed hsound hform, fun now f => hm.create_eq f now, fun now id f => ?_,
      fun now key r hr => ?_⟩
    · rw [hm.keys_apply hsound]
      exact ite_self _
    · have hlookup := ((hm.find_iff hsound).mp hr).1
      refine ⟨?_, (hsound.flow key r hlookup).own⟩
      rw [hm.keys_eq]
      by_contra hnot
      cases hlookup.symm.trans (lookup_eq_none_iff_names.mpr hnot)

/-- A flow that gets another name stays under its key. So the name that it had is still
taken, also in other letters, and the name that it has is free. -/
theorem ids_canonical_renamed :
    let now : Moment := Instant.toMoment ⟨63000000000000000⟩
    let price := Flow.bare "Daily BTC Price!"
    let report := Flow.bare "Weekly İ_Report"
    let asked : List (Moment × Operation) :=
      [(now, .create price), (now, .revise "daily-btc-price" report)]
    let s := ((Store.table (.empty default (2 : Nat))).run asked).2
    AreWellFormed asked ∧ s.keys = ["daily-btc-price"] ∧ report.id = "weekly-i-report" ∧
      s.idUnder? "daily-btc-price" = some "daily-btc-price" ∧
      (s.apply now (.create (Flow.bare "--daily   btc PRICE"))).1 =
        .error (.problem (.flowExists "daily-btc-price")) ∧
      (s.apply now (.create report)).1 = .ok (.flow (.new report now)) := by
  intro now price report asked s
  have hnow : now.WellFormed := Instant.toMoment_wellFormed (by decide)
  have hprice : price.id = "daily-btc-price" :=
    show Flow.idOfName "Daily BTC Price!" = _ by decide +kernel
  have hreport : report.id = "weekly-i-report" :=
    show Flow.idOfName "Weekly İ_Report" = _ by decide +kernel
  have htaken : (Flow.bare "--daily   btc PRICE").id = "daily-btc-price" :=
    show Flow.idOfName "--daily   btc PRICE" = _ by decide +kernel
  have hasked : AreWellFormed asked := by
    intro q hq
    rcases List.mem_cons.mp hq with rfl | hq
    · exact ⟨hnow, Flow.bare_wellFormed (by decide) (by rw [hprice]; rfl)⟩
    · rw [List.mem_singleton.mp hq]
      exact ⟨hnow, Flow.bare_wellFormed (by decide) (by rw [hreport]; rfl)⟩
  have hcreated : ((Store.table (.empty default (2 : Nat))).apply now (.create price)).2.keys =
      [price.id] := by rfl
  have hkeys : s.keys = ["daily-btc-price"] := by
    have hfirst : AreWellFormed [(now, .create price)] :=
      fun q hq => hasked q (List.mem_cons.mpr (Or.inl (List.mem_singleton.mp hq)))
    obtain ⟨_, _, hrevise, _⟩ := ids_canonical.2 default 2 _ hfirst _ (Or.inr rfl)
    rw [← hprice, ← hcreated]
    exact hrevise now "daily-btc-price" report
  obtain ⟨hkeyed, hcreate, _⟩ := ids_canonical.2 default 2 asked hasked _ (Or.inr rfl)
  refine ⟨hasked, hkeys, hreport,
    hkeyed.own _ (by rw [hkeys]; exact List.mem_singleton_self _), ?_, ?_⟩
  · rw [hcreate, htaken, hkeys, if_pos (List.mem_singleton_self _)]
  · rw [hcreate, hreport, hkeys, if_neg (by decide)]

end Store

end Cadence
