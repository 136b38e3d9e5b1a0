/-
Timeouts of fetches.

A fetch may have a timeout of its own.  It takes the place of the patience of the client,
and it bounds the request with all redirects that are followed: until then everything is as
if there were no timeout, and then the fetch fails.

* `Fetch.untimed` — a fetch without its timeout;
* `Fetch.settle`, `Fetch.conclude` — what becomes of a fetch, and of a run of it, when its
  request has ended;
* `Fetch.CutOff` — a run that is cut off by a timeout;
* `Fetch.run_timed` — the run of a fetch with a timeout is the run without one, or it is cut off;
* **`Fetch.timeout_bounds`** — a timeout bounds the whole fetch.
-/
import Cadence.Proofs.Decimal.Thousandth
import Cadence.Proofs.Http.Limit

namespace Cadence

open Calendar Http

/-! ### Fetches -/

/-- A number of milliseconds of at most 53 binary digits is a number of microseconds. -/
theorem microsOfMillis_of_lt {ms : Nat} (h : ms < 2 ^ 53) :
    microsOfMillis ms = .ok (1000 * ms) := by
  rw [microsOfMillis, Decimal.isInf_nearest_thousandth h]
  rfl

namespace Fetch

theorem limit_of_timeout {f : Fetch} {ms : Nat} (htimeout : f.timeout = some ms) (h : ms < 2 ^ 53) :
    f.timeout.mapM microsOfMillis = .ok (some (1000 * ms)) := by
  rw [htimeout]
  show some <$> microsOfMillis ms = _
  rw [microsOfMillis_of_lt h]
  rfl

variable (f : Fetch) (c : Context)

/-- How a timeout is worded. -/
def overdueText (ms : Nat) : String := s!"Request timed out after {ms}ms"

/-- A fetch without a timeout of its own. -/
def untimed : Fetch := { f with timeout := none }

theorem untimed_limit : f.untimed.timeout.mapM microsOfMillis = .ok none := rfl

/-- What becomes of a fetch when its request has ended. -/
def settle (x : Except SendFault Response × Jar) : Except StepFault Json × Context :=
  let c := { c with cookies := x.2 }
  match x.1, f.timeout with
  | .error e, some ms => (.error (if e.isTimeout then .problem (.timedOut ms) else .send e), c)
  | .error e, none => (.error (.send e), c)
  | .ok response, _ =>
    match output response with
    | .error e => (.error e, c)
    | .ok value =>
      let c := c.logged s!"[fetch:{f.id}] {f.method.word} {f.url} -> {response.status}"
      (.ok value, c.keep f.id value)

/-- A fetch sends its request and settles what it comes to. -/
theorem perform_of_request {client : Client} {limit : Option Nat} {request : Request}
    (hlimit : f.timeout.mapM microsOfMillis = .ok limit)
    (hrequest : Request.build f.method f.url f.sentHeaders [] (f.body.getD "") = .ok request) :
    f.perform client c = (send client limit c.cookies request).bind fun x =>
      .done (f.settle c x) := by
  unfold perform
  rw [hlimit, hrequest]
  refine congrArg (Task.bind _) (funext fun x => ?_)
  obtain ⟨result, cookies⟩ := x
  unfold settle
  cases result with
  | error e => cases f.timeout <;> rfl
  | ok response =>
    dsimp only
    cases output response <;> rfl

theorem perform_of_fault {client : Client} {limit : Option Nat} {fault : SendFault}
    (hlimit : f.timeout.mapM microsOfMillis = .ok limit)
    (hrequest : Request.build f.method f.url f.sentHeaders [] (f.body.getD "") = .error fault) :
    f.perform client c = .done (.error (.send fault), c) := by
  unfold perform
  rw [hlimit, hrequest]
  rfl

/-- The timeout does not matter to a request that does not time out. -/
theorem settle_untimed {x : Except SendFault Response × Jar}
    (h : ∀ e, x.1 = .error e → e.isTimeout = false) :
    f.settle c x = f.untimed.settle c x := by
  obtain ⟨result, cookies⟩ := x
  unfold settle untimed
  cases result with
  | error e =>
    cases f.timeout with
    | none => rfl
    | some ms => simp only [h e rfl, Bool.false_eq_true, if_false]
  | ok response => rfl

/-- Without a timeout of its own a fetch reports none. -/
theorem settle_ne_timedOut (hnone : f.timeout = none) (x : Except SendFault Response × Jar)
    (ms : Int) :
    (f.settle c x).1 ≠ .error (.problem (.timedOut ms)) := by
  obtain ⟨result, cookies⟩ := x
  unfold settle
  rw [hnone]
  cases result with
  | error e => exact nofun
  | ok response =>
    dsimp only
    cases ho : output response with
    | ok value => exact nofun
    | error e =>
      -- what is kept of a response fails only in its body or its status
      have hpart : Faults (fun e => (∃ fault, e = .body fault) ∨ e = .integer .unwritable)
          (output response) := by
        refine Faults.bind (Faults.mapError fun fault _ => Or.inl ⟨fault, rfl⟩) fun body => ?_
        split
        · exact Faults.ok _
        · exact Faults.error (Or.inr rfl)
      rcases hpart e ho with ⟨fault, rfl⟩ | rfl <;> exact nofun

end Fetch

/-- The end of a run whose last step comes to something. -/
def Step.finish (s : Step) (x : Except StepFault Json × Context) : Task Execution :=
  Task.now.bind fun time => match x.1 with
    | .error fault =>
      (Task.report .warning s!"Step {s.label} failed: {fault.message}").bind fun _ =>
        .done ⟨false, [⟨s.label, .null, some fault.message, time.toMoment⟩],
          x.2.logged s!"[{s.kind}] Error: {fault.message}"⟩
    | .ok output => .done ⟨true, [⟨s.label, output, none, time.toMoment⟩],
      match s.stopLine? output with
      | some line => x.2.logged line
      | none => x.2⟩

theorem runSteps_one (client : Client) (s : Step) (c : Context) :
    runSteps client [s] c = (s.perform client c).bind s.finish := by
  unfold runSteps
  refine congrArg (Task.bind _) (funext fun x => ?_)
  obtain ⟨result, after⟩ := x
  refine congrArg (Task.bind _) (funext fun time => ?_)
  cases result with
  | error fault => rfl
  | ok output =>
    dsimp only
    cases s.stopLine? output <;> rfl

theorem Step.finish_isQuiet (s : Step) (x : Except StepFault Json × Context) :
    (s.finish x).IsQuiet := by
  refine ⟨True.intro, fun time => ?_⟩
  obtain ⟨result, after⟩ := x
  cases result with
  | error fault => exact ⟨True.intro, fun _ => True.intro⟩
  | ok output => exact True.intro

namespace Fetch

variable (f : Fetch) (client : Client) (c : Context)

/-- The end of a run of one fetch, when its request has ended. -/
def conclude (x : Except SendFault Response × Jar) : Task Execution :=
  (Step.fetch f).finish (f.settle c x)

theorem conclude_isQuiet (x : Except SendFault Response × Jar) : (f.conclude c x).IsQuiet :=
  Step.finish_isQuiet _ _

theorem conclude_untimed {x : Except SendFault Response × Jar}
    (h : ∀ e, x.1 = .error e → e.isTimeout = false) :
    f.conclude c x = f.untimed.conclude c x := by
  rw [conclude, conclude, f.settle_untimed c h]
  rfl

/-- A request that is overdue is reported as such under the timeout of the fetch. -/
theorem run_conclude_overdue {ms : Nat} (htimeout : f.timeout = some ms)
    {x : Except SendFault Response × Jar} (hx : x.1 = .error .overdue) (w : Surroundings) :
    (f.conclude c x).run w =
      (⟨false, [⟨f.id, .null, some (overdueText ms), w.clock.toMoment⟩],
        { c with cookies := x.2 }.logged s!"[fetch] Error: {overdueText ms}"⟩,
        w.report .warning s!"Step {f.id} failed: {overdueText ms}") := by
  obtain ⟨result, cookies⟩ := x
  subst hx
  have hsettle : f.settle c (.error .overdue, cookies) =
      (.error (.problem (.timedOut ms)), { c with cookies }) := by
    unfold settle
    rw [htimeout]
    rfl
  rw [conclude, hsettle]
  rfl

/-- A run of one fetch that is cut off. -/
structure CutOff (f : Fetch) (ms : Nat) (c : Context) (w : Surroundings)
    (free timed : Execution × Surroundings) :
    Prop where
  success : timed.1.success = false
  outcomes : timed.1.outcomes =
    [⟨f.id, .null, some (overdueText ms), (w.clock.after (1000 * ms : Nat)).toMoment⟩]
  results : timed.1.context.results = c.results
  log : timed.1.context.log = c.log ++ [s!"[fetch] Error: {overdueText ms}"]
  clock : timed.2.clock = w.clock.after (1000 * ms : Nat)
  sent : ∃ new, free.2.sent = new ++ w.sent ∧
    timed.2.sent = new.filter (·.time < w.clock.after (1000 * ms : Nat)) ++ w.sent

/-- A request that is overdue when the timeout ends cuts off the run. -/
theorem CutOff.of_overdue {f : Fetch} {ms : Nat} (htimeout : f.timeout = some ms) {c : Context}
    {x : Except SendFault Response × Jar} (hx : x.1 = .error .overdue) {w w' : Surroundings}
    {free : Execution × Surroundings} (hclock : w'.clock = w.clock.after (1000 * ms : Nat))
    (hsent : ∃ new, free.2.sent = new ++ w.sent ∧
      w'.sent = new.filter (·.time < w.clock.after (1000 * ms : Nat)) ++ w.sent) :
    f.CutOff ms c w free ((f.conclude c x).run w') := by
  rw [f.run_conclude_overdue c htimeout hx]
  exact ⟨rfl, by rw [← hclock], rfl, rfl, hclock, hsent⟩

/-- The run of a fetch whose request can be built. -/
theorem runSteps_of_request {limit : Option Nat} {request : Request}
    (hlimit : f.timeout.mapM microsOfMillis = .ok limit)
    (hrequest : Request.build f.method f.url f.sentHeaders [] (f.body.getD "") = .ok request) :
    runSteps client [.fetch f] c = (send client limit c.cookies request).bind (f.conclude c) := by
  rw [runSteps_one]
  show (f.perform client c).bind _ = _
  rw [f.perform_of_request c hlimit hrequest, Task.bind_assoc]
  rfl

/-- The run of a fetch whose request cannot be built. -/
theorem runSteps_of_fault {limit : Option Nat} {fault : SendFault}
    (hlimit : f.timeout.mapM microsOfMillis = .ok limit)
    (hrequest : Request.build f.method f.url f.sentHeaders [] (f.body.getD "") = .error fault) :
    runSteps client [.fetch f] c = (Step.fetch f).finish (.error (.send fault), c) := by
  rw [runSteps_one]
  show (f.perform client c).bind _ = _
  rw [f.perform_of_fault c hlimit hrequest]
  rfl

/-- With more and more patience the run of a fetch without a timeout comes to what it would
without any. -/
theorem untimed_settles :
    Task.Settles fun patience => runSteps { client with patience } [.fetch f.untimed] c := by
  cases hrequest : Request.build f.method f.url f.sentHeaders [] (f.body.getD "") with
  | error fault =>
    simp only [runSteps_of_fault f.untimed _ _ f.untimed_limit hrequest]
    exact (Step.finish_isQuiet _ _).settles
  | ok request =>
    simp only [runSteps_of_request f.untimed _ _ f.untimed_limit hrequest]
    exact (sendHops_settles client maxHops c.cookies request.withCredentials).bind fun x =>
      (f.untimed.conclude_isQuiet c x).settles

theorem untimed_paces : (runSteps client [.fetch f.untimed] c).Paces client.patience := by
  cases hrequest : Request.build f.method f.url f.sentHeaders [] (f.body.getD "") with
  | error fault =>
    rw [runSteps_of_fault f.untimed _ _ f.untimed_limit hrequest]
    exact (Step.finish_isQuiet _ _).paces
  | ok request =>
    rw [runSteps_of_request f.untimed _ _ f.untimed_limit hrequest]
    exact (sendHops_paces client maxHops c.cookies request.withCredentials).bind fun x =>
      (f.untimed.conclude_isQuiet c x).paces

/-- **The run of a fetch with a timeout is the run without one, or it is cut off.** -/
theorem run_timed {ms : Nat} (htimeout : f.timeout = some ms) (hpos : 1 ≤ ms)
    (hsmall : ms < 2 ^ 50) {patience : Nat} (hpatience : 1000 * ms ≤ patience)
    (w : Surroundings) :
    let timed := (runSteps client [.fetch f] c).run w
    let untimed := runSteps { client with patience } [.fetch f.untimed] c
    let free := untimed.run w
    if free.2.clock < w.clock.after (1000 * ms : Nat) then
      timed.2.clock = free.2.clock ∧
        ((∀ reply ∈ untimed.replies w, reply.InTime patience) → timed = free)
    else f.CutOff ms c w free timed := by
  intro timed untimed free
  have hlimit := limit_of_timeout htimeout (Nat.lt_trans hsmall (by decide))
  cases hrequest : Request.build f.method f.url f.sentHeaders [] (f.body.getD "") with
  | error fault =>
    have htimed : timed = ((Step.fetch f).finish (.error (.send fault), c)).run w :=
      congrArg (Task.run · w) (f.runSteps_of_fault client c hlimit hrequest)
    have hfree : free = ((Step.fetch f).finish (.error (.send fault), c)).run w :=
      congrArg (Task.run · w)
        (f.untimed.runSteps_of_fault { client with patience } c f.untimed_limit hrequest)
    have hclock : free.2.clock < w.clock.after (1000 * ms : Nat) := by
      rw [hfree, (Step.finish_isQuiet _ _).clock]
      exact Int.lt_add_of_pos_right _ (Int.natCast_pos.mpr (by omega))
    rw [if_pos hclock, htimed, hfree]
    exact ⟨rfl, fun _ => rfl⟩
  | ok request =>
    let limited :=
      (sendHops { client with patience := 1000 * ms } maxHops (some (1000 * ms)) c.cookies
      request.withCredentials).run w
    let unlimited := sendHops { client with patience } maxHops none c.cookies
      request.withCredentials
    have htimed : timed = (f.conclude c limited.1).run limited.2 := by
      rw [← Task.run_bind]
      exact congrArg (Task.run · w) (f.runSteps_of_request client c hlimit hrequest)
    have huntimed : untimed = unlimited.bind (f.untimed.conclude c) :=
      f.untimed.runSteps_of_request { client with patience } c f.untimed_limit hrequest
    have hfree : free = (f.untimed.conclude c (unlimited.run w).1).run (unlimited.run w).2 := by
      rw [← Task.run_bind, ← huntimed]
    have hcut := sendHops_cut client (by omega) (Nat.le_refl _) hpatience maxHops c.cookies
      request.withCredentials w
    have hclock : free.2.clock = (unlimited.run w).2.clock := by
      rw [hfree, (f.untimed.conclude_isQuiet c _).clock]
    rw [hclock]
    change if (unlimited.run w).2.clock < _ then limited = unlimited.run w else _ at hcut
    split
    · next hin =>
      rw [if_pos hin] at hcut
      refine ⟨by rw [htimed, (f.conclude_isQuiet c _).clock, hcut], fun hreplies => ?_⟩
      rw [huntimed, Task.replies_bind] at hreplies
      have hfault := sendHops_isTimeout fun reply hreply =>
        hreplies reply (List.mem_append_left _ hreply)
      rw [htimed, hfree, hcut, f.conclude_untimed c hfault]
    · next hout =>
      rw [if_neg hout] at hcut
      obtain ⟨hoverdue, hlast, new, hnew, hkept⟩ := hcut
      rw [htimed]
      refine .of_overdue htimeout hoverdue hlast ⟨new, ?_, hkept⟩
      rw [hfree, (f.untimed.conclude_isQuiet c _).sent]
      exact hnew

/-- **A timeout bounds the whole fetch.** Let a fetch have a timeout of some milliseconds,
whatever the patience of the client and whatever the other side answers, redirects included.
Its run takes no longer than the timeout. Compare it with a run in which all replies are
waited for, as they are with enough patience and without the timeout. If the replies take
less than the timeout in all and none of them is itself a timeout, both runs are the same,
up to what is left in the surroundings. If they take as long as the timeout or longer, the
run fails with the timeout, keeps no result and has sent just those requests that were sent
before. A fetch without a timeout reports none. -/
theorem timeout_bounds (w : Surroundings) :
    (∀ ms, f.timeout = some ms → 1 ≤ ms → ms < 2 ^ 50 →
      let timed := (runSteps client [.fetch f] c).run w
      let untimed (patience : Nat) := runSteps { client with patience } [.fetch f.untimed] c
      timed.2.clock ≤ w.clock.after (1000 * ms : Nat) ∧
      (∃ enough, ∀ patience ≥ enough, ∀ reply ∈ (untimed patience).replies w,
        reply.delay ≤ patience) ∧
      ∀ patience, (∀ reply ∈ (untimed patience).replies w, reply.delay ≤ patience) →
        let free := (untimed patience).run w
        let replies := (untimed patience).replies w
        let total := (replies.map (·.delay)).sum
        ((∀ reply ∈ replies, ∀ e, reply.outcome = .error e → e.isTimeout = false) →
          total < 1000 * ms → timed = free) ∧
        (1000 * ms ≤ total → f.CutOff ms c w free timed)) ∧
    (f.timeout = none → ∀ ms, ((f.perform client c).run w).1.1 ≠
        .error (.problem (.timedOut ms))) := by
  constructor
  · intro ms htimeout hpos hsmall timed untimed
    refine ⟨?_, ?_, ?_⟩
    · have hrun := f.run_timed client c htimeout hpos hsmall (Nat.le_refl _) w
      dsimp only at hrun
      split at hrun
      · next hin => exact hrun.1 ▸ Int.le_of_lt hin
      · exact hrun.clock ▸ Int.le_refl _
    · obtain ⟨enough, x, replies, hall⟩ := f.untimed_settles client c w
      exact ⟨enough, fun patience hle => (hall patience).1.mp hle⟩
    · intro patience hwaits free replies total
      -- more patience changes nothing, so there may as well be enough of it for the timeout
      obtain ⟨hsame, hreplies⟩ :=
        (f.untimed_settles client c).same hwaits (Nat.le_max_left patience (1000 * ms))
      have hrun := f.run_timed client c htimeout hpos hsmall
        (Nat.le_max_right patience (1000 * ms)) w
      have hclock : free.2.clock = w.clock.after total :=
        (f.untimed_paces { client with patience } c).clock hwaits
      have hbefore : free.2.clock < w.clock.after (1000 * ms : Nat) ↔ total < 1000 * ms := by
        rw [hclock, Instant.after_lt_after_iff]
      dsimp only at hrun
      rw [hsame, hreplies] at hrun
      constructor
      · intro hfaults htotal
        rw [if_pos (hbefore.mpr htotal)] at hrun
        refine hrun.2 fun reply hreply => ⟨?_, hfaults reply hreply⟩
        exact Nat.le_trans (hwaits reply hreply) (Nat.le_max_left _ _)
      · intro htotal
        rwa [if_neg (fun hin => absurd (hbefore.mp hin) (Nat.not_lt.mpr htotal))] at hrun
  · intro hnone ms
    have hlimit : f.timeout.mapM microsOfMillis = .ok none := by rw [hnone]; rfl
    cases hrequest : Request.build f.method f.url f.sentHeaders [] (f.body.getD "") with
    | error fault =>
      rw [f.perform_of_fault c hlimit hrequest]
      exact nofun
    | ok request =>
      rw [f.perform_of_request c hlimit hrequest, Task.run_bind]
      exact f.settle_ne_timedOut c hnone _ ms

/-- A redirect whose two hops take 40 and 70 milliseconds, for a client that would not even
wait for the first of them: with a timeout of 100 milliseconds the second hop is cut off,
with one of 200 nothing is. -/
theorem timeout_bounds_redirect :
    let fetch (ms : Nat) : Fetch := ⟨"x", "http://host/", .get, none, none, some ms⟩
    let server : Server := fun earlier _ =>
      if earlier.isEmpty then ⟨40000, .ok ⟨302, [("location", "/next")], []⟩⟩
      else ⟨70000, .ok ⟨200, [], []⟩⟩
    let w : Surroundings := .start ⟨0⟩ server fun _ => ""
    let timed (ms : Nat) := (runSteps ⟨true, 1, false⟩ [.fetch (fetch ms)] (.fresh [])).run w
    let free := (runSteps ⟨true, 70000, false⟩ [.fetch (fetch 100).untimed] (.fresh [])).run w
    (timed 100).1.outcomes.map (·.error) = [some "Request timed out after 100ms"] ∧
      (timed 100).2.clock = ⟨100000⟩ ∧ (timed 100).2.sent.map (·.request.url.path) =
        ["/next", "/"] ∧
      timed 200 = free ∧ free.1.success = true ∧ free.2.clock = ⟨110000⟩ := by
  intro fetch server w timed free
  let replies := (runSteps ⟨true, 70000, false⟩ [.fetch (fetch 100).untimed] (.fresh [])).replies w
  have hwaits : ∀ reply ∈ replies, reply.delay ≤ 70000 := by decide +kernel
  have hanswered : ∀ reply ∈ replies, reply.outcome.isOk = true := by decide +kernel
  have hfaults : ∀ reply ∈ replies, ∀ e, reply.outcome = .error e → e.isTimeout = false := by
    intro reply hreply e he
    have hok := hanswered reply hreply
    rw [he] at hok
    cases hok
  obtain ⟨hshort, -⟩ := timeout_bounds (fetch 100) ⟨true, 1, false⟩ (.fresh []) w
  obtain ⟨hlong, -⟩ := timeout_bounds (fetch 200) ⟨true, 1, false⟩ (.fresh []) w
  obtain ⟨-, -, hshort⟩ := hshort 100 rfl (by decide) (by decide)
  obtain ⟨-, -, hlong⟩ := hlong 200 rfl (by decide) (by decide)
  have hcut := (hshort 70000 hwaits).2 (by decide +kernel)
  have hsame : timed 200 = free := (hlong 70000 hwaits).1 hfaults (by decide +kernel)
  refine ⟨?_, hcut.clock, by decide +kernel, hsame, by decide +kernel, by decide +kernel⟩
  rw [hcut.outcomes]
  decide +kernel

end Fetch

end Cadence
