/-
What one step of a run leaves behind.

However the other side behaves, a step adds to the log, keeps a result only if it is a fetch
that succeeds, and fails only for a reason that can be put into words.

* `Timing.named` — every failure of the other side is of some kind, and otherwise anything
  may be answered;
* `Http.SendFault.Origin`, `Http.sendHops_origin` — where the fault of a request comes from;
* `Http.send_named` — every failure of a request is of some kind too;
* `Step.Leaves` — what a step leaves behind, if it fails and if it has an output;
* `Step.perform_leaves` — what every step leaves behind.
-/
import Cadence.Proofs.Task.Ends

namespace Cadence

open Calendar

/-! ### Reasons in words -/

theorem append_ne_empty {s : String} (h : s ≠ "") (t : String) : s ++ t ≠ "" :=
  fun heq => h (String.append_eq_empty_iff.mp heq).1

theorem Decimal.IntegerFault.message_ne (f : Decimal.IntegerFault) : f.message ≠ "" := by
  cases f <;>
  · repeat refine append_ne_empty ?_ _
    decide

theorem RuleFault.message_ne (f : RuleFault) : f.message ≠ "" := by
  cases f with
  | path f => exact f.message_ne
  | text f => exact f.message_ne
  | tooLarge => decide

theorem Json.HalfFault.message_ne (f : Json.HalfFault) : f.message ≠ "" := by
  unfold message
  split <;>
  · repeat refine append_ne_empty ?_ _
    decide

namespace Http

/-- A failure of some kind. -/
def Failure.IsNamed (f : Failure) : Prop := f.kind ≠ ""

/-- A reply that, if it is a failure, is one of some kind. -/
def Reply.IsNamed (r : Reply) : Prop := Faults Failure.IsNamed r.outcome

/-- A fault that, if it is a failure of the other side, is one of some kind. -/
def SendFault.IsNamed : SendFault → Prop
  | .failed f => f.IsNamed
  | _ => True

theorem HostFault.message_ne (f : HostFault) : f.message ≠ "" := by
  cases f <;>
  · repeat refine append_ne_empty ?_ _
    decide

theorem UrlFault.message_ne (f : UrlFault) : f.message ≠ "" := by
  cases f with
  | host f => exact f.message_ne
  | _ =>
    repeat refine append_ne_empty ?_ _
    decide

theorem UnmarkedFault.message_ne (f : UnmarkedFault) : f.message ≠ "" := by
  unfold UnmarkedFault.message
  dsimp only
  repeat refine append_ne_empty ?_ _
  split <;> decide

/-- A failure without a text is put into words by its kind. -/
theorem Failure.message_ne {f : Failure} (h : f.IsNamed) : f.message ≠ "" := by
  unfold Failure.message
  split_ifs with hempty
  · exact h
  · exact fun heq => hempty (by rw [heq]; rfl)

theorem SendFault.message_ne {f : SendFault} (h : f.IsNamed) : f.message ≠ "" := by
  cases f with
  | url f => exact f.message_ne
  | noScheme address => exact append_ne_empty (by decide) _
  | notAscii cs i =>
    unfold SendFault.message
    dsimp only
    split <;>
    · repeat refine append_ne_empty ?_ _
      decide
  | failed f => exact Failure.message_ne h
  | overdue => decide

end Http

/-! ### Requests -/

/-- Every failure of the other side is of some kind, and otherwise anything may be answered
at any time. -/
def Timing.named : Timing
  | .exchange _, _, x, _ => Http.Reply.IsNamed x
  | _, _, _, _ => True

/-- Every reply has some property, and otherwise anything may be answered at any time. -/
def Timing.replying (Q : Http.Reply → Prop) : Timing
  | .exchange _, _, x, _ => Q x
  | _, _, _, _ => True

theorem Timing.named_eq : Timing.named = .replying Http.Reply.IsNamed := by
  funext e c x d
  cases e <;> rfl

/-- Every failure of the other side is of some kind. -/
def Server.IsNamed (server : Server) : Prop := ∀ earlier r, (server earlier r).IsNamed

/-- What holds at the end of a task however its effects are answered holds of its run in
surroundings. -/
theorem Task.Ends.run_named {α : Type} {P : α → Prop} {t : Task α} {w : Surroundings} {c : Instant}
    (hw : Server.IsNamed w.server) (h : t.Ends .named (fun _ a => P a) c) : P (t.run w).1 := by
  induction t generalizing w c with
  | done a => exact h
  | ask e next ih =>
    have hserver : (w.perform e).2.server = w.server := by cases e <;> rfl
    have hanswer : Timing.named e c (w.perform e).1 c := by
      cases e with
      | exchange r => exact hw _ _
      | _ => trivial
    exact ih _ (hserver ▸ hw) (h _ c hanswer)

namespace Http

variable {c : Instant}

theorem asciiFault?_named {s : String} {f : SendFault}
    (h : asciiFault? s = some f) : f.IsNamed := by
  obtain ⟨i, -, rfl⟩ := Option.map_eq_some_iff.mp h
  exact True.intro

theorem headersFault?_named {hs : Headers} {f : SendFault}
    (h : headersFault? hs = some f) : f.IsNamed := by
  obtain ⟨⟨name, value⟩, -, hf⟩ := List.exists_of_findSome?_eq_some h
  cases hn : asciiFault? name with
  | some g =>
    simp only [hn, Option.orElse_some, Option.some.injEq] at hf
    exact hf ▸ asciiFault?_named hn
  | none =>
    simp only [hn, Option.orElse_none] at hf
    exact asciiFault?_named hf

theorem Request.build_named (method : Method) (url : String) (headers extra : Headers)
    (body : String) :
    Faults SendFault.IsNamed (Request.build method url headers extra body) := by
  unfold Request.build
  split
  · exact Faults.error True.intro
  · split
    next f hf => exact Faults.error (headersFault?_named hf)
    next => exact Faults.ok _

/-- Where the fault of a request comes from, if every reply is of some kind. Only under a
limit can it be overdue. -/
inductive SendFault.Origin (Q : Reply → Prop) (patience : Nat) (limited : Prop) : SendFault → Prop
  | url (f : UrlFault) : Origin Q patience limited (.url f)
  | noScheme (address : String) : Origin Q patience limited (.noScheme address)
  | location (text : String) : Origin Q patience limited (.failed ⟨"RemoteProtocolError", text⟩)
  | hops : Origin Q patience limited (.failed tooManyRedirects)
  | late {reply : Reply} (hreply : Q reply) (hlate : patience < reply.delay) :
    Origin Q patience limited (.failed ⟨"ReadTimeout", ""⟩)
  | refused {reply : Reply} {f : Failure} (hreply : Q reply) (hf : reply.outcome = .error f) :
    Origin Q patience limited (.failed f)
  | overdue (h : limited) : Origin Q patience limited .overdue

section Origin

variable {Q : Reply → Prop} {patience : Nat} {limited : Prop}

theorem exchange_replying (r : Request) :
    (Task.exchange r).Ends (.replying Q) (fun _ reply => Q reply) c :=
  fun _ _ h => h

/-- What one hop comes to: a fault from somewhere, or a response, and no limit if there was none. -/
structure HopOrigin (Q : Reply → Prop) (patience : Nat) (limited : Prop)
    (x : Except SendFault (Response × Option Nat)) : Prop where
  fault : Faults (SendFault.Origin Q patience limited) x
  left : ∀ response left, x = .ok (response, left) → left.isSome = true → limited

theorem HopOrigin.error {f : SendFault} (h : f.Origin Q patience limited) :
    HopOrigin Q patience limited (.error f) :=
  ⟨Faults.error h, fun _ _ heq => by cases heq⟩

theorem HopOrigin.ok {left : Option Nat} (h : left.isSome = true → limited) (response : Response) :
    HopOrigin Q patience limited (.ok (response, left)) :=
  ⟨Faults.ok _, fun _ _ heq => by cases heq; exact h⟩

theorem hop_origin {left : Option Nat} (hleft : left.isSome = true → limited) (r : Request) :
    (hop patience left r).Ends (.replying Q) (fun _ x => HopOrigin Q patience limited x) c := by
  refine Task.Ends.bind (exchange_replying r) fun d reply hreply => ?_
  obtain ⟨delay, outcome⟩ := reply
  -- within the limit the request comes to what the reply is, unless the reply is late
  have hlast {x : Except SendFault (Response × Option Nat)} (hx : HopOrigin Q patience limited x) :
      Task.Ends (.replying Q) (fun _ x => HopOrigin Q patience limited x) (do
        Task.wait (min delay patience)
        if patience < delay then return .error (.failed ⟨"ReadTimeout", ""⟩) else return x) d := by
    refine Task.Ends.bind (Task.Ends.trivial _) fun _ _ _ => ?_
    split_ifs with hlate
    · exact .error (.late hreply hlate)
    · exact hx
  have hoverdue {l : Nat} (hl : left = some l) :
      Task.Ends (.replying Q) (fun _ x => HopOrigin Q patience limited x) (do
      Task.wait l
      return .error .overdue) d :=
    Task.Ends.bind (Task.Ends.trivial _) fun _ _ _ => .error (.overdue (hleft (hl ▸ rfl)))
  have hrest : (left.map (· - min delay patience)).isSome = true → limited := by
    rwa [Option.isSome_map]
  cases left with
  | none =>
    cases outcome with
    | error f => exact hlast (.error (.refused hreply rfl))
    | ok response => exact hlast (.ok hrest response)
  | some l =>
    by_cases hl : l ≤ min delay patience
    · simp only [if_pos hl]
      exact hoverdue rfl
    · simp only [if_neg hl]
      cases outcome with
      | error f => exact hlast (.error (.refused hreply rfl))
      | ok response => exact hlast (.ok hrest response)

theorem redirectUrl_origin (u : Url) (location : String) :
    Faults (SendFault.Origin Q patience limited) (redirectUrl u location) := by
  unfold redirectUrl
  cases Url.parse location with
  | error f => exact Faults.error (.location _)
  | ok v =>
    simp only
    split
    · exact Faults.error (.url _)
    -- however the address is then completed, no fault remains
    · repeat' split
      all_goals exact Faults.ok _

theorem redirect?_origin {r : Request} {response : Response} {x : Except SendFault Request}
    (h : redirect? r response = some x) : Faults (SendFault.Origin Q patience limited) x := by
  unfold redirect? at h
  split at h
  · obtain ⟨location, -, rfl⟩ := Option.map_eq_some_iff.mp h
    exact (redirectUrl_origin r.url location).map _
  · cases h

/-- **Where the fault of a request comes from**, whatever it leads to. -/
theorem sendHops_origin (client : Client) (hops : Nat) {left : Option Nat}
    (hleft : left.isSome = true → limited) (own : Jar) (r : Request) :
    (sendHops client hops left own r).Ends (.replying Q)
      (fun _ x => Faults (SendFault.Origin Q client.patience limited) x.1) c := by
  induction hops generalizing left own r c with
  | zero => exact Faults.error .hops
  | succ hops ih =>
    refine Task.Ends.bind (Task.Ends.trivial _) fun _ jar _ => ?_
    simp only
    split
    · exact Faults.error (.noScheme _)
    refine Task.Ends.bind (hop_origin hleft _) fun _ x hx => ?_
    match x, hx with
    | .error f, hx => exact Faults.error (hx.fault f rfl)
    | .ok (response, left), hx =>
      simp only
      split
      · exact Faults.error (.noScheme _)
      refine Task.Ends.bind (Task.Ends.trivial _) fun _ jar _ => ?_
      cases hredirect : redirect? r response with
      | none => exact Faults.ok response
      | some x =>
        match x, hredirect with
        | .error f, hredirect => exact Faults.error (redirect?_origin hredirect f rfl)
        | .ok next, _ =>
          simp only
          split
          · exact ih (hx.left response left rfl) jar next
          · exact Faults.ok response

end Origin

theorem SendFault.Origin.isNamed {patience : Nat} {limited : Prop} {f : SendFault}
    (h : f.Origin Reply.IsNamed patience limited) : f.IsNamed := by
  cases h with
  | location text => exact show "RemoteProtocolError" ≠ "" by decide
  | hops => exact show "TooManyRedirects" ≠ "" by decide
  | late => exact show "ReadTimeout" ≠ "" by decide
  | refused hreply hf => exact hreply _ hf
  | _ => exact True.intro

theorem send_named (client : Client) (limit : Option Nat) (jar : Jar) (r : Request) :
    (send client limit jar r).Ends .named (fun _ x => Faults SendFault.IsNamed x.1) c := by
  rw [Timing.named_eq]
  have hleft : limit.isSome = true → True := fun _ => True.intro
  have hends := sendHops_origin (Q := Reply.IsNamed) (c := c)
    { client with patience := limit.getD client.patience } maxHops hleft jar r.withCredentials
  exact hends.mono fun _ _ h f hf => (h f hf).isNamed

end Http

/-! ### Steps -/

/-- Whether a step decides if the run goes on. -/
def Step.decides : Step → Bool
  | .condition _ | .logic .. => true
  | _ => false

/-- The results after a step with an output: a fetch adds its output to them. -/
def Step.keep (s : Step) (output : Json) (results : Results) : Results :=
  match s.fetchId? with
  | some id => put id output results
  | none => results

/-- What a step leaves behind: the log goes on, and only a fetch that succeeds has a result. -/
inductive Step.Leaves (s : Step) (before : Context) : Except StepFault Json × Context → Prop
  | failed {fault : StepFault} {after : Context} (words : fault.message ≠ "")
      (log : before.log <+: after.log) (results : after.results = before.results) :
      s.Leaves before (.error fault, after)
  | done {output : Json} {after : Context} (log : before.log <+: after.log)
      (results : after.results = s.keep output before.results)
      (decision : s.decides = true → ∃ b, output = .bool b) : s.Leaves before (.ok output, after)

section Steps

variable {c : Instant} {before : Context} {client : Http.Client}

theorem Context.prefix_logged (c : Context) (line : String) : c.log <+: (c.logged line).log :=
  List.prefix_append _ _

/-- Every fault is put into words. -/
abbrev Worded {α : Type} (x : Except StepFault α) : Prop := Faults (·.message ≠ "") x

theorem microsOfMillis_worded (ms : Nat) : Worded (microsOfMillis ms) := by
  unfold microsOfMillis
  split
  · exact Faults.error (by decide)
  · exact Faults.ok _

theorem fillText_worded (template : Option String) : Worded (fillText before template) :=
  Faults.mapError fun e _ => e.message_ne

theorem withAttached_worded (message : String) (paths : Option (List String)) :
    Worded (withAttached before message paths) := by
  refine Faults.bind (Faults.mapM (fun p => Faults.mapError fun e _ => e.message_ne) _)
    fun values => ?_
  split
  · exact Faults.ok _
  · exact Faults.bind (Faults.mapError fun e _ => e.message_ne) fun _ => Faults.ok _

theorem unwritable_worded : (StepFault.integer .unwritable).message ≠ "" :=
  Decimal.IntegerFault.message_ne .unwritable

theorem Fetch.output_worded (response : Http.Response) : Worded (Fetch.output response) := by
  refine Faults.bind (Faults.mapError fun e _ => e.message_ne) fun body => ?_
  split
  · exact Faults.ok _
  · exact Faults.error unwritable_worded

theorem limit_worded (timeout : Option Nat) : Worded (timeout.mapM microsOfMillis) := by
  cases timeout with
  | none => exact Faults.ok none
  | some ms => exact (microsOfMillis_worded ms).map some

/-! ### What each step leaves behind -/

theorem Fetch.perform_leaves (f : Fetch) :
    (f.perform client before).Ends .named (fun _ x => Step.Leaves (.fetch f) before x) c := by
  unfold Fetch.perform
  split
  next he => exact .failed (limit_worded _ _ he) (List.prefix_refl _) rfl
  next he _ =>
    exact .failed (Http.SendFault.message_ne (Http.Request.build_named _ _ _ _ _ _ he))
      (List.prefix_refl _) rfl
  next limit request _ _ =>
    refine Task.Ends.bind (Http.send_named _ _ _ _) fun _ x hx => ?_
    obtain ⟨result, cookies⟩ := x
    match result, hx with
    | .error e, hx =>
      have hwords : e.message ≠ "" := Http.SendFault.message_ne (hx e rfl)
      cases f.timeout with
      | none => exact .failed hwords (List.prefix_refl _) rfl
      | some ms =>
        refine .failed ?_ (List.prefix_refl _) rfl
        split
        · repeat refine append_ne_empty ?_ _
          decide
        · exact hwords
    | .ok response, _ =>
      cases ho : Fetch.output response with
      | error e =>
        simp only [ho]
        exact .failed (Fetch.output_worded _ e ho) (List.prefix_refl _) rfl
      | ok value =>
        simp only [ho]
        exact .done (Context.prefix_logged _ _) rfl nofun

theorem Notice.payloadOf_worded (n : Notice) : Worded (n.payloadOf before) := by
  unfold Notice.payloadOf
  refine Faults.bind (fillText_worded _) fun message => ?_
  have hattached {name : String} :
      Worded (do pure (.obj [(name, .str (← withAttached before message n.attached))]) :
        Except StepFault Json) :=
    Faults.bind (withAttached_worded _ _) fun _ => Faults.ok _
  cases n.channel with
  | slack => exact hattached
  | teams => exact hattached
  | discord => exact hattached
  | webhook =>
    simp only
    split
    · exact Faults.ok _
    · refine Faults.bind (fillText_worded _) fun raw => ?_
      split
      · exact Faults.ok _
      next digits _ => exact Faults.error (Decimal.IntegerFault.tooLong digits).message_ne
      · exact Faults.error (append_ne_empty (by decide) _)

theorem Notice.request_worded (n : Notice) : Worded (n.request before) := by
  have hbuild (extra : Http.Headers) (body : String) :
      Worded ((Http.Request.build .post n.url [] extra body).mapError .send) :=
    Faults.mapError fun e he => Http.SendFault.message_ne (Http.Request.build_named _ _ _ _ _ e he)
  refine Faults.bind n.payloadOf_worded fun v => ?_
  split
  · exact hbuild _ _
  · refine Faults.bind (hbuild _ _) fun r => ?_
    split
    · split
      · exact Faults.ok r
      · next f _ => exact Faults.error (Json.HalfFault.message_ne _)
    · exact Faults.error (by decide)

theorem Notice.perform_leaves (n : Notice) :
    (n.perform client before).Ends .named (fun _ x => Step.Leaves (.notify n) before x) c := by
  unfold Notice.perform
  cases hr : n.request before with
  | error e => exact .failed (n.request_worded e hr) (List.prefix_refl _) rfl
  | ok request =>
    refine Task.Ends.bind (Http.send_named _ _ _ _) fun _ x hx => ?_
    obtain ⟨result, cookies⟩ := x
    match result, hx with
    | .error e, hx => exact .failed (Http.SendFault.message_ne (hx e rfl)) (List.prefix_refl _) rfl
    | .ok response, _ =>
      simp only
      split
      · exact .failed unwritable_worded (List.prefix_refl _) rfl
      split
      · exact .done (Context.prefix_logged _ _) rfl nofun
      · cases response.text with
        | error e => exact .failed e.message_ne (Context.prefix_logged _ _) rfl
        | ok text =>
          refine .failed ?_ (Context.prefix_logged _ _) rfl
          repeat refine append_ne_empty ?_ _
          decide

namespace Step

theorem performCondition_leaves (rule : Rule) :
    Leaves (.condition rule) before (performCondition rule before) := by
  unfold performCondition
  cases rule.holds before.results with
  | error e => exact .failed e.message_ne (List.prefix_refl _) rfl
  | ok b => exact .done (Context.prefix_logged _ _) rfl fun _ => ⟨b, rfl⟩

theorem performLogic_leaves (mode : Mode) (rules : List Rule) :
    Leaves (.logic mode rules) before (performLogic mode rules before) := by
  unfold performLogic
  cases mode.holds rules before.results with
  | error e => exact .failed e.message_ne (List.prefix_refl _) rfl
  | ok b => exact .done (Context.prefix_logged _ _) rfl fun _ => ⟨b, rfl⟩

theorem performDelay_leaves (duration : String) :
    (performDelay duration before).Ends .named
      (fun _ x => Leaves (.delay duration) before x) c := by
  unfold performDelay
  split
  · refine .failed ?_ (List.prefix_refl _) rfl
    repeat refine append_ne_empty ?_ _
    decide
  next digits _ =>
    exact .failed (Decimal.IntegerFault.tooLong digits).message_ne (List.prefix_refl _) rfl
  · split
    next he => exact .failed (microsOfMillis_worded _ _ he) (List.prefix_refl _) rfl
    · exact Task.Ends.bind (Task.Ends.trivial _) fun _ _ _ => .done (List.prefix_refl _) rfl nofun

theorem performLog_leaves (message : String) (attached : Option (List String)) :
    Leaves (.log message attached) before (performLog message attached before) := by
  have hline : Worded (do withAttached before (← fillText before (some message)) attached) :=
    Faults.bind (fillText_worded _) fun text => withAttached_worded text attached
  unfold performLog
  split
  next he => exact .failed (hline _ he) (List.prefix_refl _) rfl
  · exact .done (Context.prefix_logged _ _) rfl nofun

/-- **A step adds to the log, keeps a result only if it is a fetch that succeeds, and fails
in words.** -/
theorem perform_leaves (s : Step) :
    (s.perform client before).Ends .named (fun _ x => s.Leaves before x) c :=
  match s with
  | .fetch f => f.perform_leaves
  | .delay duration => performDelay_leaves duration
  | .condition rule => performCondition_leaves rule
  | .logic mode rules => performLogic_leaves mode rules
  | .log message attached => performLog_leaves message attached
  | .notify n => n.perform_leaves

/-- A run goes on after a step with an output, unless the step decides and its output is false. -/
theorem stopLine?_eq_none_iff {s : Step} {output : Json} :
    s.stopLine? output = none ↔ ¬(s.decides = true ∧ output = .bool false) := by
  constructor
  · rintro h ⟨hs, rfl⟩
    cases s with
    | condition rule => exact absurd h (Option.some_ne_none _)
    | logic mode rules => exact absurd h (Option.some_ne_none _)
    | _ => cases hs
  · intro h
    unfold stopLine?
    split
    · exact absurd ⟨rfl, rfl⟩ h
    · exact absurd ⟨rfl, rfl⟩ h
    · rfl

end Step

end Steps

end Cadence
