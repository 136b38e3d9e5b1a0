/-
Requests under a time limit.

What is sent goes leg by leg: a request is answered, and the response is the last word or
leads to the next request.  A limit bounds all legs together, and it takes the place of the
patience with which each reply is waited for.

* `answer`, `Client.leg` — a request and its reply, and what it leads to, without a limit;
* `sendHops_within` — a request under a limit is the request without one, cut off at the limit;
* `sendHops_paces`, `sendHops_settles` — how long a request without a limit takes, and that
  more patience changes nothing once all replies are waited for;
* `sendHops_isTimeout` — without a limit a request times out only by a reply;
* **`sendHops_cut`** — a request under a limit, in a run.
-/
import Cadence.Proofs.Task.Within

namespace Cadence

open Calendar

namespace Http

/-! ### Replies -/

/-- What a reply comes to if it is waited for. -/
def Reply.verdict (patience : Nat) (reply : Reply) : Except SendFault Response :=
  if patience < reply.delay then .error (.failed ⟨"ReadTimeout", ""⟩)
    else reply.outcome.mapError .failed

/-- Sends a request and waits for its reply without a limit. -/
def answer (patience : Nat) (r : Request) : Task (Except SendFault Response) :=
  (Task.exchange r).bind fun reply =>
    (Task.wait (min reply.delay patience)).bind fun _ => .done (reply.verdict patience)

/-- A hop that is not cut off comes to what the reply is, and to what is then left of the limit. -/
theorem verdict_run {γ : Type} (patience : Nat) (reply : Reply) (f : Response → γ) :
    (if patience < reply.delay then return .error (.failed ⟨"ReadTimeout", ""⟩)
      else match reply.outcome with
        | .error e => return .error (.failed e)
        | .ok response => return .ok (f response) : Task (Except SendFault γ)) =
      .done ((reply.verdict patience).map f) := by
  unfold Reply.verdict
  split
  · rfl
  · cases reply.outcome <;> rfl

theorem hop_none (patience : Nat) (r : Request) :
    hop patience none r = (answer patience r).bind fun x => .done (x.map (·, none)) := by
  rw [answer, Task.bind_assoc]
  refine congrArg (Task.exchange r).bind (funext fun reply => ?_)
  show (Task.wait (min reply.delay patience)).bind _ =
    ((Task.wait (min reply.delay patience)).bind _).bind _
  rw [Task.bind_assoc]
  exact congrArg _ (funext fun _ => verdict_run patience reply (·, none))

/-- A hop within what is left of a limit is a hop without one, cut off at the limit. -/
theorem hop_some {patience other left : Nat} (hleft : 0 < left) (hpatience : left ≤ patience)
    (hother : left ≤ other) (r : Request) :
    hop patience (some left) r = ((answer other r).within left).bind fun x => .done (match x with
      | none => .error .overdue
      | some (y, left) => y.map (·, some left)) := by
  rw [answer, Task.within_bind, Task.within_exchange hleft, Task.bind_assoc, Task.bind_assoc]
  refine congrArg (Task.exchange r).bind (funext fun reply => ?_)
  show _ = (((Task.wait (min reply.delay other)).bind _).within left).bind _
  rw [Task.within_bind, Task.within_wait hleft, Task.bind_assoc]
  dsimp only
  by_cases hover : left ≤ reply.delay
  · have hspan : left ≤ min reply.delay patience := by omega
    have hspan' : left ≤ min reply.delay other := by omega
    rw [if_pos hspan, if_pos hspan', Task.bind_assoc]
    rfl
  · have hin : ¬left ≤ min reply.delay patience := by omega
    have hin' : ¬left ≤ min reply.delay other := by omega
    rw [if_neg hin, if_neg hin', Task.bind_assoc]
    have hspan : min reply.delay patience = reply.delay := by omega
    have hother : min reply.delay other = reply.delay := by omega
    have hverdict : reply.verdict patience = reply.verdict other := by
      rw [Reply.verdict, Reply.verdict, if_neg (by omega), if_neg (by omega)]
    rw [hspan, hother]
    refine congrArg _ (funext fun _ => ?_)
    refine (verdict_run patience reply fun response =>
      (response, some (left - reply.delay))).trans ?_
    rw [hverdict]
    rfl

/-! ### Legs -/

namespace Client

/-- Where a response leads: to a last word, or to the next request. -/
def onward (client : Client) (r : Request) (response : Response) :
    Except SendFault Response ⊕ Request :=
  match redirect? r response with
  | none => .inl (.ok response)
  | some (.error f) => .inl (.error f)
  | some (.ok next) => if client.follows then .inr next else .inl (.ok response)

/-- What is done when a request has been answered. -/
def arrive (client : Client) (jar : Jar) (r : Request) :
    Except SendFault Response → Task ((Except SendFault Response ⊕ Request) × Jar)
  | .error f => .done (.inl (.error f), jar)
  | .ok response =>
    if r.url.scheme.isEmpty then .done (.inl (.error (.noScheme r.url.text)), jar)
    else (client.keep jar r.url response).bind fun jar => .done (client.onward r response, jar)

/-- The way from one request to the next, or to a last word, without a limit. -/
def leg (client : Client) (own : Jar) (r : Request) :
    Task ((Except SendFault Response ⊕ Request) × Jar) :=
  (client.cookies own).bind fun jar =>
    if r.url.scheme.isEmpty && !jar.isBare then .done (.inl (.error (.noScheme r.url.text)), jar)
    else (answer client.patience (r.withCookies jar)).bind (client.arrive jar r)

theorem cookies_isQuiet (client : Client) (own : Jar) : (client.cookies own).IsQuiet := by
  unfold cookies
  split
  · exact ⟨True.intro, fun _ => True.intro⟩
  · exact True.intro

theorem keep_isQuiet (client : Client) (own : Jar) (u : Url) (response : Response) :
    (client.keep own u response).IsQuiet := by
  unfold keep
  refine (client.cookies_isQuiet own).bind fun jar => ⟨True.intro, fun now => ?_⟩
  dsimp only
  split
  · exact ⟨True.intro, fun _ => True.intro⟩
  · exact True.intro

theorem arrive_isQuiet (client : Client) (jar : Jar) (r : Request) (x : Except SendFault Response) :
    (client.arrive jar r x).IsQuiet := by
  cases x with
  | error f => exact True.intro
  | ok response =>
    rw [arrive]
    split
    · exact True.intro
    · refine (client.keep_isQuiet jar r.url response).bind fun jar => ?_
      exact True.intro

end Client

/-- What follows a leg. -/
def follow (client : Client) (hops : Nat) (left : Option Nat) :
    (Except SendFault Response ⊕ Request) × Jar → Task (Except SendFault Response × Jar)
  | (.inl x, jar) => .done (x, jar)
  | (.inr next, jar) => sendHops client hops left jar next

/-- What is sent goes leg by leg. -/
theorem sendHops_leg (client : Client) (hops : Nat) (left : Option Nat) (own : Jar) (r : Request) :
    sendHops client (hops + 1) left own r = (client.cookies own).bind fun jar =>
      if r.url.scheme.isEmpty && !jar.isBare then .done (.error (.noScheme r.url.text), jar)
      else (hop client.patience left (r.withCookies jar)).bind fun x => match x with
        | .error f => .done (.error f, jar)
        | .ok (response, left) =>
          (client.arrive jar r (.ok response)).bind (follow client hops left) := by
  rw [sendHops]
  refine congrArg (client.cookies own).bind (funext fun jar => ?_)
  dsimp only
  split
  · rfl
  · refine congrArg (Task.bind _) (funext fun x => ?_)
    match x with
    | .error f => rfl
    | .ok (response, left) =>
      unfold Client.arrive
      dsimp only
      split
      · rfl
      · rw [Task.bind_assoc]
        refine congrArg (Task.bind _) (funext fun jar => ?_)
        unfold Client.onward follow
        cases redirect? r response with
        | none => rfl
        | some x =>
          cases x with
          | error f => rfl
          | ok next =>
            show (if client.follows = true then _ else _) = _
            cases client.follows <;> rfl

/-- Without a limit a leg is followed by the others. -/
theorem sendHops_none (client : Client) (hops : Nat) (own : Jar) (r : Request) :
    sendHops client (hops + 1) none own r = (client.leg own r).bind (follow client hops none) := by
  rw [sendHops_leg, Client.leg, Task.bind_assoc]
  refine congrArg (client.cookies own).bind (funext fun jar => ?_)
  split
  · rfl
  · rw [hop_none, Task.bind_assoc, Task.bind_assoc]
    refine congrArg (Task.bind _) (funext fun x => ?_)
    cases x <;> rfl

/-- The end of a request, unless it is overdue. -/
def inTime? : Except SendFault Response × Jar → Option (Except SendFault Response × Jar)
  | (.error .overdue, _) => none
  | x => some x

/-- Within a limit a leg is cut off, or it is followed by the others within what is left of
the limit. -/
theorem sendHops_some (client : Client) {patience other left : Nat} (hleft : 0 < left)
    (hpatience : left ≤ patience) (hother : left ≤ other) (hops : Nat) (own : Jar) (r : Request) :
    (sendHops { client with patience } (hops + 1) (some left) own r).bind
      (fun x => .done (inTime? x)) =
      ((Client.leg { client with patience := other } own r).within left).bind fun x => match x with
        | none => .done none
        | some (y, left) =>
          (follow { client with patience } hops (some left) y).bind fun x => .done (inTime? x) := by
  rw [sendHops_leg, Client.leg, Task.within_bind, Task.bind_assoc,
    (Client.cookies_isQuiet _ own).within hleft, Task.bind_assoc, Task.bind_assoc]
  refine congrArg (client.cookies own).bind (funext fun jar => ?_)
  show _ = ((ite _ _ _ : Task _).within left).bind _
  dsimp only
  split
  · rfl
  · rw [hop_some hleft hpatience hother, Task.within_bind, Task.bind_assoc, Task.bind_assoc,
      Task.bind_assoc]
    refine Task.within_congr hleft rfl fun x left' hleft' hle => ?_
    cases x with
    | error f => rfl
    | ok response =>
      show ((Client.arrive _ _ _ _).bind _).bind _ = ((Client.arrive _ _ _ _).within left').bind _
      rw [(Client.arrive_isQuiet _ jar r _).within hleft', Task.bind_assoc, Task.bind_assoc]
      rfl

/-- **A request under a limit, however far it leads, is the request without one, cut off at
the limit.** -/
theorem sendHops_within (client : Client) {patience other left : Nat} (hleft : 0 < left)
    (hpatience : left ≤ patience) (hother : left ≤ other) (hops : Nat) (own : Jar) (r : Request) :
    (sendHops { client with patience } hops (some left) own r).bind (fun x => .done (inTime? x)) =
      ((sendHops { client with patience := other } hops none own r).within left).bind fun x =>
        .done (x.bind fun y => inTime? y.1) := by
  induction hops generalizing left own r with
  | zero => rfl
  | succ hops ih =>
    rw [sendHops_some client hleft hpatience hother, sendHops_none, Task.within_bind,
      Task.bind_assoc]
    refine Task.within_congr hleft rfl fun x left' hleft' hle => ?_
    obtain ⟨x, jar⟩ := x
    cases x with
    | inl x => rfl
    | inr next => exact ih hleft' (Nat.le_trans hle hpatience) (Nat.le_trans hle hother) jar next

/-! ### Waiting for replies -/

theorem run_answer (patience : Nat) (r : Request) (w : Surroundings) :
    let reply := w.server (w.sent.map (·.request)) r
    (answer patience r).run w =
        (reply.verdict patience, (w.perform (.exchange r)).2.pass (min reply.delay patience)) ∧
      (answer patience r).replies w = [reply] := by
  intro reply
  constructor
  · show ((Task.wait _).bind _).run _ = _
    rw [Task.run_bind, Task.run_wait]
    rfl
  · show _ :: ((Task.wait _).bind _).replies _ = _
    rw [Task.replies_bind, Task.replies_wait]
    rfl

theorem answer_paces (patience : Nat) (r : Request) : (answer patience r).Paces patience := by
  intro w
  obtain ⟨hrun, hreplies⟩ := run_answer patience r w
  rw [hrun, hreplies]
  rfl

theorem answer_settles (r : Request) : Task.Settles fun patience => answer patience r := by
  intro w
  let reply := w.server (w.sent.map (·.request)) r
  refine ⟨reply.delay,
    (reply.outcome.mapError .failed, (w.perform (.exchange r)).2.pass reply.delay), [reply],
    ?_⟩
  intro patience
  obtain ⟨hrun, hreplies⟩ := run_answer patience r w
  rw [hrun, hreplies]
  refine ⟨List.forall_mem_singleton (p := fun reply : Reply => reply.delay ≤ patience) |>.symm,
    fun hpatience => ?_⟩
  refine ⟨?_, rfl⟩
  rw [Reply.verdict, if_neg (Nat.not_lt.mpr hpatience), Nat.min_eq_left hpatience]

theorem Client.leg_paces (client : Client) (own : Jar) (r : Request) :
    (client.leg own r).Paces client.patience := by
  refine (client.cookies_isQuiet own).paces.bind fun jar => ?_
  split
  · exact Task.IsQuiet.paces (t := .done _) True.intro
  · exact (answer_paces _ _).bind fun x => (client.arrive_isQuiet jar r x).paces

theorem Client.leg_settles (client : Client) (own : Jar) (r : Request) :
    Task.Settles fun patience => Client.leg { client with patience } own r := by
  refine (client.cookies_isQuiet own).settles.bind fun jar => ?_
  split
  · exact Task.IsQuiet.settles (t := .done _) True.intro
  · exact (answer_settles _).bind fun x => (client.arrive_isQuiet jar r x).settles

theorem sendHops_paces (client : Client) (hops : Nat) (own : Jar) (r : Request) :
    (sendHops client hops none own r).Paces client.patience := by
  induction hops generalizing own r with
  | zero => exact Task.IsQuiet.paces (t := .done _) True.intro
  | succ hops ih =>
    rw [sendHops_none]
    refine (client.leg_paces own r).bind fun x => ?_
    obtain ⟨x | next, jar⟩ := x
    · exact Task.IsQuiet.paces (t := .done _) True.intro
    · exact ih jar next

theorem sendHops_settles (client : Client) (hops : Nat) (own : Jar) (r : Request) :
    Task.Settles fun patience => sendHops { client with patience } hops none own r := by
  induction hops generalizing own r with
  | zero => exact Task.IsQuiet.settles (t := .done _) True.intro
  | succ hops ih =>
    simp only [sendHops_none]
    refine (client.leg_settles own r).bind fun x => ?_
    obtain ⟨x | next, jar⟩ := x
    · exact Task.IsQuiet.settles (t := .done _) True.intro
    · exact ih jar next

/-! ### Runs under a limit -/

theorem eq_of_inTime? {x y : Except SendFault Response × Jar} (h : inTime? x = some y) : x = y := by
  unfold inTime? at h
  split at h
  · cases h
  · exact Option.some.inj h

theorem overdue_of_inTime? {x : Except SendFault Response × Jar} (h : inTime? x = none) :
    x.1 = .error .overdue := by
  unfold inTime? at h
  split at h
  · rfl
  · cases h

theorem inTime?_of_ne {x : Except SendFault Response × Jar} (h : x.1 ≠ .error .overdue) :
    inTime? x = some x := by
  unfold inTime?
  split
  · exact absurd rfl h
  · rfl

/-- Without a limit no request is overdue. -/
theorem sendHops_ne_overdue (client : Client) (hops : Nat) (own : Jar) (r : Request)
    (w : Surroundings) :
    ((sendHops client hops none own r).run w).1.1 ≠ .error .overdue := by
  have hends : (sendHops client hops none own r).Ends (.replying fun _ => True)
      (fun _ x => Faults (SendFault.Origin (fun _ => True) client.patience False) x.1) w.clock :=
    sendHops_origin client hops nofun own r
  intro heq
  cases hends.run_replying (fun _ _ => True.intro) _ heq with
  | overdue h => exact h

/-- A reply that is waited for and is not itself a timeout. -/
def Reply.InTime (patience : Nat) (reply : Reply) : Prop :=
  reply.delay ≤ patience ∧ ∀ e, reply.outcome = .error e → e.isTimeout = false

theorem SendFault.Origin.isTimeout_eq_false {patience : Nat} {fault : SendFault}
    (h : fault.Origin (Reply.InTime patience) patience False) : fault.isTimeout = false := by
  cases h with
  | url f => rfl
  | noScheme address => rfl
  | location text =>
    exact (by decide : "Timeout".toList.isSuffixOf "RemoteProtocolError".toList = false)
  | hops => decide
  | late hreply hlate => exact absurd hreply.1 (Nat.not_le.mpr hlate)
  | refused hreply hf => exact hreply.2 _ hf
  | overdue h => exact h.elim

/-- Without a limit a request times out only by a reply. -/
theorem sendHops_isTimeout {client : Client} {hops : Nat} {own : Jar} {r : Request}
    {w : Surroundings}
    (hreplies : ∀ reply ∈ (sendHops client hops none own r).replies w,
      reply.InTime client.patience) :
    Faults (·.isTimeout = false) ((sendHops client hops none own r).run w).1.1 := by
  have hends : (sendHops client hops none own r).Ends (.replying (Reply.InTime client.patience))
      (fun _ x => Faults (SendFault.Origin (Reply.InTime client.patience) client.patience False)
        x.1) w.clock :=
    sendHops_origin client hops nofun own r
  exact fun e he => (hends.run_replying hreplies e he).isTimeout_eq_false

/-- **A request under a limit, in a run**: if the run without a limit ends before the limit,
it is the same. Otherwise the request is overdue at the limit, and what the run without a
limit has sent until then has been sent. -/
theorem sendHops_cut (client : Client) {patience other limit : Nat} (hlimit : 0 < limit)
    (hpatience : limit ≤ patience) (hother : limit ≤ other) (hops : Nat) (own : Jar)
    (r : Request) (w : Surroundings) :
    let limited := (sendHops { client with patience } hops (some limit) own r).run w
    let free := (sendHops { client with patience := other } hops none own r).run w
    if free.2.clock < w.clock.after limit then limited = free
    else limited.1.1 = .error .overdue ∧ limited.2.clock = w.clock.after limit ∧
      ∃ new, free.2.sent = new ++ w.sent ∧
        limited.2.sent = new.filter (·.time < w.clock.after limit) ++ w.sent := by
  intro limited free
  have hrun := congrArg (Task.run · w) (sendHops_within client hlimit hpatience hother hops own r)
  simp only [Task.run_bind] at hrun
  obtain ⟨hvalue, hafter⟩ := Prod.mk.inj hrun
  have hcut := Task.run_within (sendHops { client with patience := other } hops none own r) w hlimit
  split at hcut
  · next hin =>
    obtain ⟨hsome, hsame⟩ := hcut
    obtain ⟨⟨x, left⟩, hwithin, hx⟩ := Option.map_eq_some_iff.mp hsome
    obtain rfl : x = free.1 := hx
    rw [hwithin] at hvalue
    have hfree : inTime? free.1 = some free.1 := inTime?_of_ne (sendHops_ne_overdue _ hops own r w)
    rw [if_pos hin]
    exact Prod.ext (eq_of_inTime? (hvalue.trans hfree)) (hafter.trans hsame)
  · next hout =>
    obtain ⟨hnone, hclock, new, hnew, hsent⟩ := hcut
    rw [if_neg hout]
    rw [hnone] at hvalue
    exact ⟨overdue_of_inTime? hvalue, hafter ▸ hclock, new, hnew, hafter ▸ hsent⟩

end Http

end Cadence
