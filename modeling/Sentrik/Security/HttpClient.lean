import Mathlib.Algebra.Order.Ring.Unbundled.Rat
import Sentrik.Security.Sandbox

/-!
# GuardedHttpClient

The single sanctioned egress path, as a **pool of coroutines** over one guard.

A call to `request` is cut at its `await` points: the rate limiter, the accounting callback and the
send. What runs between two of them is one step; between steps any other call of the pool may run. So
a run of the pool (a list of `Event`s) is one interleaving of any number of concurrent calls, and the
environment's part of it — clock readings, DNS answers, responses, failures, cancellations — is in the
events.

## What is a parameter

The HTTP library is `Httpx`: building a request, joining a URL and rendering one. Nothing is assumed
about it here. The callback's effect on whatever it writes to is a function on a store of any type.

## The log

`Pool.sent` lists every request handed to the library's `send`, with the method and URL it was made
for, the request as built, the call it belongs to, and the DNS answer under which that hop was
authorized. Only the last is bookkeeping of the model: the code does not keep it.
-/

namespace Sentrik

/-! ### Rate limiter -/

/-- A token bucket behind a lock. `queue` is the holder of the lock followed by the tasks waiting for
it, in order of arrival. -/
structure RateLimiter where
  rate : ℚ
  capacity : ℚ
  tokens : ℚ
  updated : ℚ
  queue : List ℕ := []

namespace RateLimiter

def new (rate_per_sec : ℚ) (burst : Option ℚ) (now : ℚ) : RateLimiter :=
  let rate := max rate_per_sec (1 / 10)
  let capacity := burst.getD (max rate 1)
  { rate, capacity, tokens := capacity, updated := now }

/-- Where `acquire` is suspended, if it is. -/
inductive Progress
  | acquired
  | waitingLock
  | sleeping
  deriving DecidableEq, Repr

/-- The body under the lock, up to its first suspension: refill, then take a token or sleep. -/
def locked (r : RateLimiter) (now : ℚ) : RateLimiter × Progress :=
  let tokens := min r.capacity (r.tokens + (now - r.updated) * r.rate)
  if tokens < 1 then ({ r with tokens, updated := now }, .sleeping)
  else ({ r with tokens := tokens - 1, updated := now, queue := r.queue.tail }, .acquired)

/-- `acquire`, up to its first suspension: without contention the lock is taken at once. -/
def acquire (r : RateLimiter) (i : ℕ) (now : ℚ) : RateLimiter × Progress :=
  if r.queue = [] then locked { r with queue := [i] } now
  else ({ r with queue := r.queue ++ [i] }, .waitingLock)

/-- The sleep is over: the bucket is left empty and the lock released. -/
def slept (r : RateLimiter) (now : ℚ) : RateLimiter :=
  { r with tokens := 0, updated := now, queue := r.queue.tail }

/-- A cancelled task gives up the lock, or its place in the queue. -/
def abandon (r : RateLimiter) (i : ℕ) : RateLimiter := { r with queue := r.queue.filter (· ≠ i) }

end RateLimiter

/-! ### The HTTP library -/

/-- A URL as the library holds it. -/
structure Uri where
  scheme : Text
  host : Text
  port : Option ℕ
  path : Text
  query : Text := []
  fragment : Text := []
  deriving DecidableEq, Repr

/-- A request as the library holds it. -/
structure HttpxRequest where
  method : Text
  url : Uri
  headers : List (Text × Text) := []
  sni_hostname : Option Text := none
  content : Text := []
  deriving DecidableEq, Repr

/-- What a caller passes to `request`; `data` and `json` are the bodies as rendered. Empty parameters are not
the same as none. -/
structure Args where
  method : Text
  url : Text
  headers : List (Text × Text) := []
  params : Option (List (Text × Text)) := none
  data : Option Text := none
  json : Option Text := none
  max_redirects : ℕ := 3
  deriving DecidableEq, Repr

/-- The HTTP library, as far as the client uses it. -/
structure Httpx where
  /-- Build a request from a method, a URL, headers, parameters and the two kinds of body. -/
  build_request : Text → Text → List (Text × Text) → Option (List (Text × Text)) → Option Text →
    Option Text → Except PyExc HttpxRequest
  /-- Resolve a `Location` against the URL of the response, and render the result. -/
  join : Uri → Text → Except PyExc Text
  /-- Render a URL. -/
  str : Uri → Text

/-- A response; the names of its headers are lower-case. -/
structure Response where
  status_code : ℕ
  headers : List (Text × Text) := []
  text : Text := []
  content_length : ℕ := 0
  deriving DecidableEq, Repr

structure GuardedResponse where
  status_code : ℕ
  headers : List (Text × Text)
  text : Text
  url : Text
  request_method : Text
  request_headers : List (Text × Text)
  request_body : Option Text
  deriving DecidableEq, Repr

def _body_repr (data json : Option Text) : Option Text :=
  match json, data with
  | some json, _ => some (json.take 4096)
  | none, some data => some (data.take 4096)
  | none, none => none

/-! ### The pool -/

/-- Where a call stands. -/
inductive Stage
  /-- Suspended in the rate limiter, waiting for its lock or sleeping under it. -/
  | waitingLock
  | sleeping
  /-- Suspended in the accounting callback, called with this count. -/
  | callback (count : ℕ)
  /-- Suspended in the send. -/
  | sending (req : HttpxRequest)
  | returned (resp : GuardedResponse)
  | raised (exc : PyExc)
  deriving DecidableEq, Repr

/-- A call and its local variables. `answer` is the DNS answer of its last authorized hop. -/
structure Call where
  args : Args
  stage : Stage
  current_url : Text
  current_method : Text
  current_ips : List Text
  data : Option Text
  json : Option Text
  redirects : ℕ
  answer : DnsAnswer

/-- A request handed to the library's `send`. -/
structure Sent where
  call : ℕ
  method : Text
  url : Text
  ips : List Text
  answer : DnsAnswer
  request : HttpxRequest

/-- What does not change while the client is open: the library, the accounting callback as its effect
on a store, and the sandbox. -/
structure Client (κ : Type) where
  httpx : Httpx
  on_request : Option (ℕ → κ → κ) := none
  sandbox : Option Sandbox := none

/-- The client's mutable state with the state of every call made on it. -/
structure Pool (κ : Type) where
  guard : ScopeGuard
  rate : RateLimiter
  store : κ
  closed : Bool := false
  request_count : ℕ := 0
  error_count : ℕ := 0
  consecutive_errors : ℕ := 0
  calls : List Call := []
  sent : List Sent := []

/-- What the environment does next. -/
inductive Event
  /-- A new call, with the wall clock, the limiter's clock, and the answers to the resolver questions
  of the scope check, the rebinding check and the sandbox. -/
  | request (args : Args) (now : ℤ) (clock : ℚ) (scope rebinding sandbox : DnsAnswer)
  /-- The limiter's lock is handed to a waiting call. -/
  | lockGranted (i : ℕ) (clock : ℚ)
  /-- A call's sleep in the limiter is over. -/
  | slept (i : ℕ) (clock : ℚ)
  /-- The accounting callback of a call has finished. -/
  | calledBack (i : ℕ)
  /-- The target has answered; `answer` is for the resolver question of a redirect. -/
  | responded (i : ℕ) (resp : Response) (clock : ℚ) (answer : DnsAnswer)
  /-- The send has failed with an error of the library. -/
  | httpError (i : ℕ) (message : String)
  /-- Any other exception at the point where the call is suspended, cancellation included. -/
  | interrupted (i : ℕ) (exc : PyExc)
  /-- The client's context is left. -/
  | aexit

/-- The call an event resumes. -/
def Event.call? : Event → Option ℕ
  | .request .. | .aexit => none
  | .lockGranted i _ | .slept i _ | .calledBack i | .responded i .. | .httpError i _
  | .interrupted i _ => some i

/-- Too many consecutive connection failures. -/
def Pool.unhealthy {κ : Type} (p : Pool κ) : Bool :=
  p.guard._settings.target_health_max_consecutive_errors ≤ p.consecutive_errors

/-- The client's state when it is entered. -/
def Pool.init {κ : Type} (guard : ScopeGuard) (store : κ) (clock : ℚ) : Pool κ where
  guard
  rate := RateLimiter.new
    (if guard.record.rate_limit_per_sec = 0 then guard._settings.default_rate_limit_per_sec
      else guard.record.rate_limit_per_sec) none clock
  store

section

variable [u : UnicodeTables]

/-- Build a request whose connection target is the validated address, with the host name kept in
the `Host` header and the TLS name. Address literals are left alone. -/
def _build_pinned (httpx : Httpx) (method url : Text) (ips : List Text)
    (headers : List (Text × Text)) (params : Option (List (Text × Text))) (data json : Option Text) :
    Except PyExc HttpxRequest := do
  let req ← httpx.build_request method url headers params data json
  match parse_url url with
  | .error (.NetGuardError _) => .ok req
  | .error exc => .error exc
  | .ok ⟨scheme, host, port, _⟩ =>
    if (IpAddress.ip_address host).isSome then .ok req
    else
      match ips.head?.filter (· ≠ []) with
      | none => .ok req
      | some pinned =>
        let default_port := if scheme = "https".toList then 443 else 80
        let host_header := if port = default_port then host else host ++ ':' :: (toString port).toList
        .ok { req with
          url := { req.url with host := pinned }
          headers := ("Host".toList, host_header) :: req.headers.filter
            fun h ↦ u.lower h.1 ≠ "host".toList
          sni_hostname := some host }

/-- Re-resolve and reject if the resolution changed to an unvalidated address. -/
def _assert_no_rebinding (url : Text) (validated_ips : List Text) (answer : DnsAnswer) :
    Except PyExc Unit :=
  match parse_url url with
  | .error (.NetGuardError _) => .ok ()
  | .error exc => .error exc
  | .ok ⟨_, host, port, _⟩ =>
    match resolve_host host port true answer with
    | .error (.NetGuardError _) => .ok ()
    | .error exc => .error exc
    | .ok info =>
      let name := String.ofList host
      if (info.is_hard_blocked || info.is_private || info.is_loopback) && validated_ips ≠ [] &&
          !info.resolved_ips.any validated_ips.contains then
        let reason := s!"DNS rebinding detected: {name} now resolves to " ++
          Text.renderList (info.resolved_ips.map Text.repr) ++ " (was " ++
          Text.renderList (validated_ips.map Text.repr) ++ ")"
        .error (.ScopeViolation reason "dns_rebinding"
          { host := host, now := info.resolved_ips, validated := validated_ips })
      else
        let new := Text.sortedSet (info.resolved_ips.filter (!validated_ips.contains ·))
        if validated_ips ≠ [] ∧ new ≠ [] then
          let reason := s!"DNS rebinding detected: {name} resolution changed, new IPs " ++
            Text.renderList (new.map Text.repr)
          .error (.ScopeViolation reason "dns_rebinding"
            { host := host, new_ips := new, validated := validated_ips })
        else .ok ()

namespace Pool

variable {κ : Type}

/-- The gates in front of the rate limiter. -/
def precheck (cl : Client κ) (p : Pool κ) (args : Args) (now : ℤ) (scope rebinding sandbox : DnsAnswer) :
    Except PyExc ScopeDecision := do
  (p.guard.check_record_active now).raise_if_denied
  (p.guard.check_budget 1).raise_if_denied
  let decision ← p.guard.check_request args.method args.url false scope
  decision.raise_if_denied
  _assert_no_rebinding args.url (decision.details.ips.getD []) rebinding
  if let some s := cl.sandbox then
    s.assert_egress_allowed (decision.details.host.getD []) (decision.details.port.getD 0) sandbox
  return decision

/-- The head of the loop, up to the send. -/
def send (cl : Client κ) (p : Pool κ) (i : ℕ) (c : Call) : Pool κ × Call :=
  let p := { p with request_count := p.request_count + 1 }
  match _build_pinned cl.httpx c.current_method c.current_url c.current_ips c.args.headers
      c.args.params c.data c.json with
  | .error exc => (p, { c with stage := .raised exc })
  | .ok req =>
    if p.closed then
      let exc := .RuntimeError "Cannot send a request, as the client has been closed."
      (p, { c with stage := .raised exc })
    else
      let sent : Sent := ⟨i, c.current_method, c.current_url, c.current_ips, c.answer, req⟩
      ({ p with sent := p.sent ++ [sent] }, { c with stage := .sending req })

/-- The token is there: count the request, then, on a first hop, call the callback. -/
def acquired (cl : Client κ) (p : Pool κ) (i : ℕ) (c : Call) : Pool κ × Call :=
  let p := { p with guard := p.guard.note_requests 1 }
  if c.redirects = 0 ∧ cl.on_request.isSome then
    (p, { c with stage := .callback p.guard.requests_made })
  else p.send cl i c

/-- Go on from the state the limiter is left in. -/
def limited (cl : Client κ) (p : Pool κ) (i : ℕ) (c : Call) (r : RateLimiter × RateLimiter.Progress) :
    Pool κ × Call :=
  let p := { p with rate := r.1 }
  match r.2 with
  | .acquired => p.acquired cl i c
  | .waitingLock => (p, { c with stage := .waitingLock })
  | .sleeping => (p, { c with stage := .sleeping })

/-- The response is final. -/
def finish (cl : Client κ) (c : Call) (req : HttpxRequest) (resp : Response) : Call :=
  { c with stage := .returned {
      status_code := resp.status_code
      headers := resp.headers
      text := if resp.content_length < 2000000 then resp.text else resp.text.take 2000000
      url := cl.httpx.str req.url
      request_method := c.current_method
      request_headers := c.args.headers
      request_body := _body_repr c.data c.json } }

/-- A redirect within the allowed number: authorize the new location, switch the method, check the
budget, and wait for the limiter. -/
def redirect (cl : Client κ) (p : Pool κ) (i : ℕ) (c : Call) (req : HttpxRequest) (resp : Response)
    (location : Text) (clock : ℚ) (answer : DnsAnswer) : Pool κ × Call :=
  match cl.httpx.join req.url location with
  | .error exc => (p, { c with stage := .raised exc })
  | .ok location =>
    match p.guard.check_request "GET".toList location true answer with
    | .error exc => (p, { c with stage := .raised exc })
    | .ok decision =>
      if ¬decision.allowed then
        let reason := s!"redirect to out-of-scope location blocked: {decision.reason}"
        (p, { c with stage := .raised (.ScopeViolation reason decision.code decision.details) })
      else
        let c := if resp.status_code ∈ [301, 302, 303] then
          { c with current_method := "GET".toList, data := none, json := none } else c
        let c := { c with
          current_url := location
          current_ips := decision.details.ips.getD []
          answer }
        match (p.guard.check_budget 1).raise_if_denied with
        | .error exc => (p, { c with stage := .raised exc })
        | .ok () => p.limited cl i c (p.rate.acquire i clock)

/-- The target has answered. -/
def respond (cl : Client κ) (p : Pool κ) (i : ℕ) (c : Call) (req : HttpxRequest) (resp : Response)
    (clock : ℚ) (answer : DnsAnswer) : Pool κ × Call :=
  let p := { p with consecutive_errors := 0 }
  match resp.headers.lookup "location".toList with
  | some location =>
    if resp.status_code ∈ [301, 302, 303, 307, 308] then
      let c := { c with redirects := c.redirects + 1 }
      if c.args.max_redirects < c.redirects then (p, finish cl c req resp)
      else p.redirect cl i c req resp location clock answer
    else (p, finish cl c req resp)
  | none => (p, finish cl c req resp)

/-- A call on which nothing has happened yet. -/
def newCall (args : Args) (answer : DnsAnswer) : Call where
  args
  stage := .waitingLock
  current_url := args.url
  current_method := args.method
  current_ips := []
  data := args.data
  json := args.json
  redirects := 0
  answer

/-- A new call, up to its first suspension. -/
def request (cl : Client κ) (p : Pool κ) (args : Args) (now : ℤ) (clock : ℚ)
    (scope rebinding sandbox : DnsAnswer) : Pool κ × Call :=
  let c := newCall args scope
  match p.precheck cl args now scope rebinding sandbox with
  | .error exc => (p, { c with stage := .raised exc })
  | .ok decision =>
    p.limited cl p.calls.length { c with current_ips := decision.details.ips.getD [] }
      (p.rate.acquire p.calls.length clock)

/-- Resume call `i`: what it does from where it is suspended, if the event fits that. -/
def resume (cl : Client κ) (p : Pool κ) (i : ℕ) (c : Call) (e : Event) : Option (Pool κ × Call) :=
  match e, c.stage with
  | .lockGranted _ clock, .waitingLock =>
    if p.rate.queue.head? = some i then some (p.limited cl i c (p.rate.locked clock)) else none
  | .slept _ clock, .sleeping =>
    some (p.limited cl i c (p.rate.slept clock, .acquired))
  | .calledBack _, .callback count =>
    some ({ p with store := (cl.on_request.getD fun _ s ↦ s) count p.store }.send cl i c)
  | .responded _ resp clock answer, .sending req => some (p.respond cl i c req resp clock answer)
  | .httpError _ message, .sending _ =>
    let p := { p with
      error_count := p.error_count + 1
      consecutive_errors := p.consecutive_errors + 1 }
    let message := s!"request to {String.ofList c.current_url} failed: {message}"
    some (p, { c with stage := .raised (.TargetUnreachable message) })
  | .interrupted _ exc, .waitingLock | .interrupted _ exc, .sleeping =>
    some ({ p with rate := p.rate.abandon i }, { c with stage := .raised exc })
  | .interrupted _ exc, .callback _ | .interrupted _ exc, .sending _ =>
    some (p, { c with stage := .raised exc })
  | _, _ => none

/-- One step of the pool. -/
def step (cl : Client κ) (p : Pool κ) : Event → Option (Pool κ)
  | .request args now clock scope rebinding sandbox =>
    let (p', c) := p.request cl args now clock scope rebinding sandbox
    some { p' with calls := p'.calls ++ [c] }
  | .aexit => some { p with closed := true }
  | e => do
    let i ← e.call?
    let c ← p.calls[i]?
    let (p', c') ← p.resume cl i c e
    return { p' with calls := p'.calls.set i c' }

end Pool

end

end Sentrik
