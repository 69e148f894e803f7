import Mathlib.Algebra.Ring.Rat
import Sentrik.Checks.Base
import Sentrik.Api.Assessments
import Sentrik.Security.Budget
import Sentrik.Security.Egress

/-!
# The MCP server

Every tool of the server is one call of `_run_check_bound`: gates on the stored authorization, then a
guarded client, and the check does with it what it does. What a check and the target do together is
any run of the client's pool, so the requests of a tool call are those of such a run (`requestsOf`).

`exists_requestsOf` says when a client can send anything at all: the budget leaves room for a request,
and under some DNS answer some request is in scope and can be built (`Sendable`).
-/

namespace Sentrik

/-! ### The caller -/

/-- The organization of the authenticated protocol caller, none outside HTTP. -/
def current_org_id (principal_var : Option Principal) : Option ℕ := principal_var.map (·.org_id)

/-- How a tool call fails: with an error payload, or with an exception. -/
inductive ToolError
  | error (message : String)
  | uncaught (exc : PyExc)
  deriving DecidableEq

/-- The bucket of a new client has a token. -/
theorem acquire_init (g : ScopeGuard) (clock : ℚ) (i : ℕ) :
    ((Pool.init g () clock).rate.acquire i clock).2 = .acquired := by
  have hfull : ∀ c r : ℚ, min c (c + (clock - clock) * r) = c := by
    intro c r
    rw [sub_self, zero_mul, add_zero, min_self]
  simp only [Pool.init, RateLimiter.new, RateLimiter.acquire, RateLimiter.locked, Option.getD_none,
    if_pos, hfull]
  rw [if_neg (not_lt.2 (le_max_right _ _))]

section

variable [u : UnicodeTables]

/-! ### Running one check -/

/-- The arguments of `run_check`. -/
structure RunCheck where
  authorization_id : Text
  check_name : String
  url : Text
  method : Text := "GET".toList

/-- The gates in front of the client. -/
def bindCheck (registry : _Registry) (settings : Settings) (p : Platform) (a : RunCheck)
    (org_id : Option ℕ) (now : ℤ) (answer : DnsAnswer) : Except ToolError ScopeGuard :=
  match registry.get a.check_name with
  | none => .error (.error ("unknown check " ++ Text.repr a.check_name.toList))
  | some check =>
    match (p.getRecord a.authorization_id).filter fun r ↦
        org_id.all fun org_id ↦ r.record.org_id = org_id with
    | none => .error (.error "authorization record not found")
    | some row =>
      let guard : ScopeGuard := { record := row.record, _settings := settings }
      if ¬(guard.check_record_active now).allowed then
        let reason := (guard.check_record_active now).reason
        .error (.error s!"authorization not usable: {reason}")
      else if ¬(guard.check_class_allowed check.check_class.value check.intensity).allowed then
        let reason := (guard.check_class_allowed check.check_class.value check.intensity).reason
        .error (.error s!"check not permitted: {reason}")
      else
        match guard.check_request a.method a.url false answer with
        | .error exc => .error (.uncaught exc)
        | .ok d =>
          if ¬d.allowed then .error (.error s!"out of scope: {d.reason}") else .ok guard

/-- Past the gates the record is active. -/
theorem bindCheck_active {registry : _Registry} {settings : Settings} {p : Platform} {a : RunCheck}
    {org_id : Option ℕ} {now : ℤ} {answer : DnsAnswer} {g : ScopeGuard}
    (h : bindCheck registry settings p a org_id now answer = .ok g) :
    (g.check_record_active now).allowed = true := by
  rw [bindCheck] at h
  split at h
  · cases h
  split at h
  · cases h
  dsimp only at h
  split at h
  · cases h
  next hactive =>
  split at h
  · cases h
  split at h
  · cases h
  split at h
  · cases h
  next =>
    obtain rfl := Except.ok.inj h
    exact not_not.1 hactive

/-- The client of a tool call: no accounting callback and no sandbox. -/
def toolClient (httpx : Httpx) : Client Unit where
  httpx

/-- The requests of a run of the client over a guard. -/
def requestsOf (httpx : Httpx) (g : ScopeGuard) (clock : ℚ) (traffic : List Event) : List Sent :=
  ((Machine.run (Pool.step (toolClient httpx)) (Pool.init g () clock) traffic).map (·.sent)).getD []

/-- `_run_check_bound`: the requests it sends, `traffic` being what the check and the target do. -/
def _run_check_bound (registry : _Registry) (settings : Settings) (httpx : Httpx) (p : Platform)
    (a : RunCheck) (org_id : Option ℕ) (now : ℤ) (clock : ℚ) (answer : DnsAnswer)
    (traffic : List Event) : Except ToolError (List Sent) := do
  let guard ← bindCheck registry settings p a org_id now answer
  return requestsOf httpx guard clock traffic

/-! ### When a client can send -/

/-- The budget leaves room for a request, and some request is in scope and can be built. -/
structure Sendable (httpx : Httpx) (g : ScopeGuard) : Prop where
  budget : (g.check_budget 1).allowed = true
  request : ∃ method url answer q info headers params data json req, g.MethodAllowed method ∧
    g.LocationAllowed url answer q info ∧
    _build_pinned httpx method url info.resolved_ips headers params data json = .ok req

/-- Asked the same question with the same answer, the rebinding check passes. -/
theorem _assert_no_rebinding_same {g : ScopeGuard} {url : Text} {answer : DnsAnswer} {q : ParsedUrl}
    {info : HostInfo} (h : g.LocationAllowed url answer q info) :
    _assert_no_rebinding url info.resolved_ips answer = .ok () := by
  obtain ⟨-, hne, -, -⟩ := resolve_host_ok h.resolved
  have hany : info.resolved_ips.any info.resolved_ips.contains = true := by
    obtain ⟨ip, rest, hips⟩ := List.exists_cons_of_ne_nil hne
    have hip : ip ∈ info.resolved_ips := hips ▸ List.mem_cons_self
    exact List.any_eq_true.2 ⟨ip, hip, List.contains_iff_mem.2 hip⟩
  have hnew : info.resolved_ips.filter (!info.resolved_ips.contains ·) = [] := by
    rw [List.filter_eq_nil_iff]
    intro ip hip
    simpa using hip
  obtain ⟨scheme, host, port, path⟩ := q
  simp only [_assert_no_rebinding, h.parsed, h.resolved, hany, hnew, Bool.not_true, Bool.and_false]
  rw [if_neg Bool.false_ne_true, if_neg fun hchanged ↦ hchanged.2 (Text.sortedSet_eq_nil.2 rfl)]

/-- A request in scope and in budget passes the gates of the client. -/
theorem precheck_of_allowed {httpx : Httpx} {p : Pool Unit} {args : Args} {now : ℤ}
    {answer : DnsAnswer} {q : ParsedUrl} {info : HostInfo}
    (hactive : (p.guard.check_record_active now).allowed = true)
    (hbudget : (p.guard.check_budget 1).allowed = true) (hmethod : p.guard.MethodAllowed args.method)
    (hloc : p.guard.LocationAllowed args.url answer q info) :
    p.precheck (toolClient httpx) args now answer answer answer =
      .ok (ScopeGuard.allowDecision q info) := by
  have hrequest : p.guard.check_request args.method args.url false answer =
      .ok (ScopeGuard.allowDecision q info) :=
    (ScopeGuard.check_request_eq_allow_iff.2 ⟨hmethod, q, info, hloc, rfl⟩).1
  have hpass : (ScopeGuard.allowDecision q info).raise_if_denied = .ok () :=
    ScopeDecision.raise_if_denied_ok.2 rfl
  have hips : (ScopeGuard.allowDecision q info).details.ips.getD [] = info.resolved_ips := rfl
  have hactive' : (p.guard.check_record_active now).raise_if_denied = .ok () :=
    ScopeDecision.raise_if_denied_ok.2 hactive
  have hbudget' : (p.guard.check_budget 1).raise_if_denied = .ok () :=
    ScopeDecision.raise_if_denied_ok.2 hbudget
  simp only [Pool.precheck, bind, Except.bind, hactive', hbudget', hrequest, hpass, hips,
    _assert_no_rebinding_same hloc, toolClient]
  rfl

/-- A call that gets its token at once, on an open client without a callback, is sent if it can be
built. -/
theorem sent_of_acquired {cl : Client Unit} {p : Pool Unit} {i : ℕ} {c : Call}
    {r : RateLimiter × RateLimiter.Progress} {req : HttpxRequest} (hr : r.2 = .acquired)
    (hcallback : cl.on_request = none) (hopen : p.closed = false)
    (hbuild : Pool.build cl c = .ok req) :
    (p.limited cl i c r).1.sent = p.sent ++ [Pool.entry i c req] := by
  rw [Pool.build] at hbuild
  simp only [Pool.limited, hr, Pool.acquired, hcallback, Option.isSome_none, Bool.false_eq_true,
    and_false, if_false, Pool.send, hbuild, hopen]
  rfl

/-- A client that can send does so for the right call. -/
theorem requestsOf_of_sendable {httpx : Httpx} {g : ScopeGuard} (h : Sendable httpx g) {now : ℤ}
    (hactive : (g.check_record_active now).allowed = true) (clock : ℚ) :
    ∃ traffic, requestsOf httpx g clock traffic ≠ [] := by
  obtain ⟨hbudget, method, url, answer, q, info, headers, params, data, json, req, hmethod, hloc,
    hbuild⟩ := h
  let args : Args := { method, url, headers, params, data, json }
  let c : Call := { Pool.newCall args answer with current_ips := info.resolved_ips }
  have hpre : (Pool.init g () clock).precheck (toolClient httpx) args now answer answer answer =
      .ok (ScopeGuard.allowDecision q info) :=
    precheck_of_allowed hactive hbudget hmethod hloc
  have hrequest : (Pool.init g () clock).request (toolClient httpx) args now clock answer answer
      answer = (Pool.init g () clock).limited (toolClient httpx) 0 c
        ((Pool.init g () clock).rate.acquire 0 clock) := by
    rw [Pool.request, hpre]
    rfl
  have hbuilt : Pool.build (toolClient httpx) c = .ok req := hbuild
  have hopen : (Pool.init g () clock).closed = false := rfl
  have hsent := sent_of_acquired (i := 0) (acquire_init g clock 0) rfl hopen hbuilt
  refine ⟨[.request args now clock answer answer answer], ?_⟩
  rw [requestsOf, Machine.run_cons, Pool.step, hrequest, Option.bind_some, Machine.run_nil,
    Option.map_some, Option.getD_some]
  dsimp only
  rw [hsent]
  exact List.cons_ne_nil _ _

/-! ### When it cannot -/

/-- A pool of calls that are all over, which has sent nothing. -/
structure Idle (g : ScopeGuard) (p : Pool Unit) : Prop where
  guard : p.guard = g
  sent : p.sent = []
  stopped : ∀ (i : ℕ) (c : Call), p.calls[i]? = some c → c.stage.stopped = true

/-- Without budget no call gets past its gates. -/
theorem Idle.step {cl : Client Unit} {g : ScopeGuard} {p p' : Pool Unit} {e : Event}
    (hbudget : (g.check_budget 1).allowed = false) (h : Idle g p)
    (hstep : p.step cl e = some p') : Idle g p' := by
  cases Pool.move_of_step hstep with
  | aexit => exact ⟨h.guard, h.sent, h.stopped⟩
  | refused c _ stopped =>
    exact ⟨h.guard, h.sent, (Puts.append p.calls c).forall_slots h.stopped stopped fun _ _ _ hb ↦ hb⟩
  | begins c _ _ _ _ _ _ _ budget =>
    rw [h.guard, hbudget] at budget
    cases budget
  | resumes _ hc acquiring =>
    have hstopped := h.stopped _ _ hc
    rw [(Pool.ledger_of_stopped hstopped).1] at acquiring
    cases acquiring
  | emits _ hc inCallback =>
    have hstopped := h.stopped _ _ hc
    rw [(Pool.ledger_of_stopped hstopped).2] at inCallback
    cases inCallback
  | hops _ hc sending =>
    have hstopped := h.stopped _ _ hc
    rw [sending] at hstopped
    cases hstopped
  | stops _ hc live =>
    rw [h.stopped _ _ hc] at live
    cases live

/-- **When a client can send.** Some behaviour of the check and the target sends a request exactly
when the client can send at all. -/
theorem exists_requestsOf {httpx : Httpx} {g : ScopeGuard} {now : ℤ}
    (hactive : (g.check_record_active now).allowed = true) (clock : ℚ) :
    (∃ traffic, requestsOf httpx g clock traffic ≠ []) ↔ Sendable httpx g := by
  refine ⟨?_, fun h ↦ requestsOf_of_sendable h hactive clock⟩
  rintro ⟨traffic, hne⟩
  rw [requestsOf] at hne
  cases hrun : Machine.run (Pool.step (toolClient httpx)) (Pool.init g () clock) traffic with
  | none =>
    rw [hrun] at hne
    exact absurd rfl hne
  | some p =>
    rw [hrun, Option.map_some, Option.getD_some] at hne
    refine ⟨by_contra fun hbudget ↦ hne ?_, ?_⟩
    · have hidle : Idle g p := Machine.inv_of_run
        (fun hI hs ↦ Idle.step (Bool.not_eq_true _ ▸ hbudget) hI hs) hrun
        ⟨rfl, rfl, fun i c hc ↦ by cases hc⟩
      exact hidle.sent
    · obtain ⟨s, rest, hsent⟩ := List.exists_cons_of_ne_nil hne
      have hs : s ∈ p.sent := hsent ▸ List.mem_cons_self
      obtain ⟨⟨hmethod, q, info, hloc, hips⟩, ⟨headers, params, data, json, hbuilt⟩, -⟩ :=
        (Pool.EgressInv.run hrun).sent s hs
      rw [hips] at hbuilt
      exact ⟨s.method, s.url, s.answer, q, info, headers, params, data, json, s.request, hmethod,
        hloc, hbuilt⟩

end

end Sentrik
