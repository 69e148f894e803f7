import Sentrik.Orchestration.Lifetime
import Sentrik.Services.Sessions
import Sentrik.Services.Verdicts

/-!
# Login traffic

An execution builds the sessions of the target's accounts before it tests anything, and a session that comes
back without being active is renewed once. What a login sends leaves through a client of its own, beside the
guarded client of the execution.

The machine here is an assessment with its guarded clients, any number of executions long, and the sessions
that are being built. Each request of a login is noted as it leaves, every hop of a redirect included, with
the guard of the execution before and after it.

## Main results

* `asks_build_sessions_iff`: which accounts send anything, from what they are and the clock alone.
* `Traffic.Uncounted.step`: no request of a login changes a guard, so none is counted.
* `Traffic.logins_guarded_iff`: login traffic is in scope, counted and contained in every state of a run
  exactly when there is none.
-/

namespace Sentrik

open Sessions

section

variable [u : UnicodeTables] [lib : StandardLibrary] [n : NumberTables] [httpx : LoginHttpx]
  [f : Fernet]

/-! ### Building the sessions of a target -/

/-- The clocks of one attempt: when the secret's age is looked at, and when the session is. -/
structure Readings where
  check : Instant
  use : Instant

/-- An account whose session is built, with the clocks of the attempt and of the renewal. -/
structure AccountVisit where
  account : TestAccount
  first : Readings
  renewal : Readings

/-- One attempt at a session: its state, and what the checks are given. -/
def attemptSession (account : TestAccount) (r : Readings) : LoginProgram (SessionState × AuthSession) := do
  let state ← establish_session account r.check
  return (state, state.to_auth_session r.use)

/-- The session of one account: one that comes back expired or failed is renewed once. -/
def buildSession (v : AccountVisit) : LoginProgram AuthSession := do
  let (state, auth) ← attemptSession v.account v.first
  if auth.expired ∧ state.status ≠ .pending_mfa then
    let (_, renewed_auth) ← attemptSession v.account v.renewal
    return if renewed_auth.expired then auth else renewed_auth
  else return auth

def _build_sessions : List AccountVisit → LoginProgram (List AuthSession)
  | [] => return []
  | v :: rest => do
    let auth ← buildSession v
    return auth :: (← _build_sessions rest)

/-- Nothing is sent for this account, at neither clock. -/
def Quiet (v : AccountVisit) : Prop :=
  ¬Sends v.account v.first.check ∧ ¬Sends v.account v.renewal.check

/-- Building the session of this account raises. -/
def Failing (v : AccountVisit) : Prop :=
  Breaks v.account v.first.check ∨ Breaks v.account v.renewal.check

/-- Nothing is sent for the accounts that are reached: one that raises is the last. -/
def QuietVisits : List AccountVisit → Prop
  | [] => True
  | v :: rest => Quiet v ∧ (Failing v ∨ QuietVisits rest)

/-! ### What is asked first -/

/-- The program sends a request before it ends. -/
def Asks {α : Type} (m : LoginProgram α) : Prop := ∃ r next, m.run = .ask r next

theorem establish_session_of_error {account : TestAccount} {now : Instant} {exc : LoginError}
    (h : start account now = .error exc) : establish_session account now = throw exc := by
  rw [establish_session_eq, h]
  rfl

theorem establish_session_of_inl {account : TestAccount} {now : Instant} {state : SessionState}
    (h : start account now = .ok (.inl state)) : establish_session account now = pure state := by
  rw [establish_session_eq, h]
  rfl

theorem asks_attemptSession {account : TestAccount} {r : Readings} (h : Sends account r.check) :
    Asks (attemptSession account r) := by
  obtain ⟨request, hstart⟩ := h
  rw [attemptSession, establish_session_eq, hstart]
  exact ⟨request, _, rfl⟩

omit u lib n httpx f in
theorem Asks.bind {α β : Type} {m : LoginProgram α} (h : Asks m) (k : α → LoginProgram β) :
    Asks (m >>= k) := by
  obtain ⟨r, next, hm⟩ := h
  refine ⟨r, fun x ↦ next x >>= ExceptT.bindCont k, ?_⟩
  show m.run >>= ExceptT.bindCont k = _
  rw [hm]
  rfl

omit u lib n httpx f in
theorem asks_bind_pure_iff {α β : Type} {m : LoginProgram α} {g : α → β} :
    Asks (m >>= fun a ↦ pure (g a)) ↔ Asks m := by
  refine ⟨?_, fun h ↦ h.bind _⟩
  rintro ⟨r, next, h⟩
  have hrun : m.run >>= ExceptT.bindCont (fun a ↦ (pure (g a) : LoginProgram β)) = .ask r next := h
  cases hm : m.run with
  | done x =>
    rw [hm] at hrun
    cases x with
    | error exc => cases hrun
    | ok a => cases hrun
  | ask query rest => exact ⟨query, rest, hm⟩

/-- An account whose secret is stale is visited twice: its session has come back without being active. -/
theorem buildSession_of_stale {v : AccountVisit}
    (h : start v.account v.first.check = .ok (.inl (staleState v.account))) :
    buildSession v = (attemptSession v.account v.renewal >>= fun p ↦
      pure (if p.2.expired then (staleState v.account).to_auth_session v.first.use else p.2)) := by
  rw [buildSession, attemptSession, establish_session_of_inl h]
  rfl

/-- **An account that is not quiet sends a request.** -/
theorem asks_buildSession {v : AccountVisit} (h : ¬Quiet v) : Asks (buildSession v) := by
  by_cases hfirst : Sends v.account v.first.check
  · exact (asks_attemptSession hfirst).bind _
  have hrenewal : Sends v.account v.renewal.check := by_contra fun hnot ↦ h ⟨hfirst, hnot⟩
  rcases start_of_clocks v.account v.first.check v.renewal.check with hs | hs | hs
  · rw [buildSession_of_stale hs]
    exact (asks_attemptSession hrenewal).bind _
  · obtain ⟨r, hr⟩ := hrenewal
    rw [hs] at hr
    cases hr
  · exact absurd (hs ▸ hrenewal : ∃ r, start v.account v.first.check = .ok (.inr r)) hfirst

/-- A quiet attempt ends without a request. -/
theorem attemptSession_of_not_sends {account : TestAccount} {r : Readings} (h : ¬Sends account r.check) :
    (∃ exc, start account r.check = .error exc ∧ attemptSession account r = throw exc) ∨
      ∃ state, start account r.check = .ok (.inl state) ∧
        attemptSession account r = pure (state, state.to_auth_session r.use) := by
  rw [attemptSession]
  cases hstart : start account r.check with
  | error exc =>
    rw [establish_session_of_error hstart]
    exact .inl ⟨exc, rfl, rfl⟩
  | ok next =>
    cases next with
    | inl state =>
      rw [establish_session_of_inl hstart]
      exact .inr ⟨state, rfl, rfl⟩
    | inr request => exact absurd ⟨request, hstart⟩ h

/-- **A quiet account sends nothing**: building its session raises, or gives one, at once. -/
theorem buildSession_of_quiet {v : AccountVisit} (h : Quiet v) :
    (Failing v ∧ ∃ exc, buildSession v = throw exc) ∨
      (¬Failing v ∧ ∃ auth, buildSession v = pure auth) := by
  rcases attemptSession_of_not_sends h.1 with ⟨exc, hstart, hfirst⟩ | ⟨state, hstart, hfirst⟩
  · rw [buildSession, hfirst]
    exact .inl ⟨.inl ⟨exc, hstart⟩, exc, rfl⟩
  have hnot : ¬Breaks v.account v.first.check := by
    rintro ⟨exc, hexc⟩
    rw [hstart] at hexc
    cases hexc
  rcases attemptSession_of_not_sends h.2 with ⟨exc, hstart', hsecond⟩ | ⟨state', hstart', hsecond⟩
  · -- only a stale secret makes the two starts differ, and then the second attempt is made
    have hstale : start v.account v.first.check = .ok (.inl (staleState v.account)) := by
      rcases start_of_clocks v.account v.first.check v.renewal.check with hs | hs | hs
      · exact hs
      · rw [hstart'] at hs
        cases hs
      · rw [hstart, hstart'] at hs
        cases hs
    rw [buildSession_of_stale hstale, hsecond]
    exact .inl ⟨.inr ⟨exc, hstart'⟩, exc, rfl⟩
  · have hnot' : ¬Failing v := by
      rintro (hbreaks | ⟨exc, hexc⟩)
      · exact hnot hbreaks
      · rw [hstart'] at hexc
        cases hexc
    rw [buildSession, hfirst, pure_bind]
    dsimp only
    split
    · rw [hsecond]
      exact .inr ⟨hnot', _, rfl⟩
    · exact .inr ⟨hnot', _, rfl⟩

/-- **Building sessions asks nothing exactly when all accounts that are reached are quiet.** -/
theorem asks_build_sessions_iff {visits : List AccountVisit} :
    Asks (_build_sessions visits) ↔ ¬QuietVisits visits := by
  induction visits with
  | nil => exact iff_of_false (fun ⟨_, _, h⟩ ↦ by cases h) fun h ↦ h trivial
  | cons v rest ih =>
    rw [_build_sessions, QuietVisits]
    by_cases hquiet : Quiet v
    · rcases buildSession_of_quiet hquiet with ⟨hfailing, exc, hbuild⟩ | ⟨hfailing, auth, hbuild⟩
      · rw [hbuild]
        exact iff_of_false (fun ⟨_, _, h⟩ ↦ by cases h) fun h ↦ h ⟨hquiet, .inl hfailing⟩
      · have hrest : QuietVisits rest ↔ Quiet v ∧ (Failing v ∨ QuietVisits rest) := by
          rw [or_iff_right hfailing, and_iff_right hquiet]
        rw [hbuild, pure_bind, ← hrest, ← ih]
        exact asks_bind_pure_iff
    · exact iff_of_true ((asks_buildSession hquiet).bind _) fun h ↦ hquiet h.1

/-! ### A target's traffic -/

/-- A request of a login as it left, with the guard of the execution before and after. -/
structure SentLogin where
  request : Outgoing
  guard : ScopeGuard
  guard_after : ScopeGuard

namespace SentLogin

/-- The record of the run allows the request, for some answer of the resolver. -/
def InScope (e : SentLogin) : Prop :=
  ∃ answer d, e.guard.check_request e.request.method e.request.url false answer = .ok d ∧
    d.allowed = true

/-- The request counts against the budget of the run. -/
def Counted (e : SentLogin) : Prop := e.guard.requests_made < e.guard_after.requests_made

/-- A request with the credentials goes to an allowed host. -/
def Contained (e : SentLogin) : Prop :=
  e.request.payload.isSome = true →
    ∃ p, parse_url e.request.url = .ok p ∧ e.guard._host_in_scope p.host = true

end SentLogin

/-- A building of sessions, as it goes on. -/
abbrev Building := Interaction Outgoing LoginAnswer (Except LoginError (List AuthSession))

/-- The engine's requests, and the sessions it is building. -/
structure Traffic where
  life : Lifetime
  /-- The rest of the building, at a request that has been sent. -/
  building : Option Building := none
  sent : List SentLogin := []

inductive TrafficEvent
  /-- Anything an assessment does that is no login. -/
  | life (e : LifetimeEvent)
  /-- The sessions of the target's accounts are built. -/
  | build (visits : List AccountVisit)
  /-- The request of a login is answered, or fails. -/
  | answered (x : LoginAnswer)

/-- What may happen while sessions are built: the client's context is not left. -/
def LifetimeEvent.beside (building : Bool) : LifetimeEvent → Bool
  | .login _ => false
  | .leave => !building
  | _ => true

namespace Traffic

/-- Go on to the building's next request, which is sent, or to its end. A login's client is its own: what
it sends passes no guard. -/
def advance (cl : Client ℕ) (t : Traffic) : Building → Option Traffic
  | .done _ => some { t with building := none }
  | .ask request next => do
    let p ← t.life.current
    let life ← t.life.step cl (.login 1)
    let p' ← life.current
    return { life, building := some (.ask request next), sent := t.sent ++ [⟨request, p.guard, p'.guard⟩] }

def step (cl : Client ℕ) (t : Traffic) : TrafficEvent → Option Traffic
  | .life e =>
    if e.beside t.building.isSome then do
      let life ← t.life.step cl e
      return { t with life }
    else none
  | .build visits =>
    -- sessions are built inside the context of the execution's client, one building at a time
    if t.life.current.isSome ∧ t.building.isNone then advance cl t (_build_sessions visits).run else none
  | .answered x =>
    match t.building with
    | some (.ask _ next) => advance cl t (next x)
    | _ => none

/-- Every login request that was sent is allowed by the record, counted, and leaks nothing. -/
def Guarded (t : Traffic) : Prop := ∀ e ∈ t.sent, e.InScope ∧ e.Counted ∧ e.Contained

/-- No login request was sent, and none is about to be answered. -/
def Silent (t : Traffic) : Prop := t.sent = [] ∧ t.building = none

/-- The accounts whose sessions a step builds are quiet. -/
def QuietStep (_ : Traffic) : TrafficEvent → Prop
  | .build visits => QuietVisits visits
  | _ => True

/-! ### Logins pass no guard -/

/-- **What logins leave alone**: no request of a login has changed the counter of a guard. -/
structure Uncounted (t : Traffic) : Prop where
  sent : ∀ e ∈ t.sent, e.guard_after = e.guard
  building : t.building.isSome = true → t.sent ≠ []

variable {cl : Client ℕ} {t t' : Traffic} {e : TrafficEvent}

omit lib n httpx f in
/-- What an advance does: the building is over, or a request is sent beside the client. -/
theorem advance_cases {m : Building} (h : t.advance cl m = some t') :
    (∃ x, m = .done x ∧ t' = { t with building := none }) ∨
      ∃ request next p, m = .ask request next ∧ t.life.current = some p ∧
        t' = {
          life := { t.life with logins := t.life.logins + 1 }
          building := some (.ask request next)
          sent := t.sent ++ [⟨request, p.guard, p.guard⟩] } := by
  cases m with
  | done x => exact .inl ⟨x, rfl, (Option.some.inj h).symm⟩
  | ask request next =>
    obtain ⟨p, hp, h⟩ := Option.bind_eq_some_iff.1 h
    obtain ⟨life, hlife, h⟩ := Option.bind_eq_some_iff.1 h
    obtain rfl := Option.some.inj hlife
    obtain ⟨p', hp', h⟩ := Option.bind_eq_some_iff.1 h
    obtain rfl := Option.some.inj (hp.symm.trans hp')
    exact .inr ⟨request, next, p, rfl, hp, (Option.some.inj h).symm⟩

omit lib n httpx f in
theorem Uncounted.advance {m : Building} (hI : t.Uncounted) (h : t.advance cl m = some t') :
    t'.Uncounted := by
  rcases advance_cases h with ⟨x, -, rfl⟩ | ⟨request, next, p, -, -, rfl⟩
  · exact ⟨hI.sent, fun hsome ↦ by cases hsome⟩
  · refine ⟨fun e he ↦ ?_, fun _ ↦ List.append_ne_nil_of_right_ne_nil _ (List.cons_ne_nil _ _)⟩
    rcases List.mem_append.1 he with he | he
    · exact hI.sent e he
    · rw [List.mem_singleton.1 he]

theorem Uncounted.step (hI : t.Uncounted) (h : t.step cl e = some t') : t'.Uncounted := by
  cases e with
  | life e =>
    rw [Traffic.step] at h
    split at h
    · obtain ⟨life, -, h⟩ := Option.bind_eq_some_iff.1 h
      obtain rfl := Option.some.inj h
      exact ⟨hI.sent, hI.building⟩
    · cases h
  | build visits =>
    rw [Traffic.step] at h
    split at h
    · exact hI.advance h
    · cases h
  | answered x =>
    rw [Traffic.step] at h
    split at h
    · exact hI.advance h
    · cases h

omit lib n httpx f in
/-- A login request that was sent breaks the promise, whatever the request is. -/
theorem Uncounted.guarded_iff (hI : t.Uncounted) : t.Guarded ↔ t.Silent := by
  constructor
  · intro h
    have hsent : t.sent = [] := by
      refine List.eq_nil_iff_forall_not_mem.2 fun e he ↦ ?_
      have hcounted : e.guard.requests_made < e.guard_after.requests_made := (h e he).2.1
      rw [hI.sent e he] at hcounted
      exact lt_irrefl _ hcounted
    refine ⟨hsent, Option.not_isSome_iff_eq_none.1 fun hsome ↦ hI.building hsome hsent⟩
  · intro h e he
    rw [h.1] at he
    cases he

/-- A step from silence stays silent exactly when the accounts it builds sessions for are quiet. -/
theorem silent_step (hs : t.Silent) (h : t.step cl e = some t') : t'.Silent ↔ QuietStep t e := by
  cases e with
  | life e =>
    rw [Traffic.step] at h
    split at h
    · obtain ⟨life, -, h⟩ := Option.bind_eq_some_iff.1 h
      obtain rfl := Option.some.inj h
      exact iff_of_true hs trivial
    · cases h
  | build visits =>
    rw [Traffic.step] at h
    split at h
    · show _ ↔ QuietVisits visits
      rw [← not_iff_not, ← asks_build_sessions_iff]
      rcases advance_cases h with ⟨x, hm, rfl⟩ | ⟨request, next, p, hm, -, rfl⟩
      · refine iff_of_false (not_not.2 ⟨hs.1, rfl⟩) ?_
        rintro ⟨r, next, hask⟩
        rw [hm] at hask
        cases hask
      · exact iff_of_true (fun hsilent ↦ by cases hsilent.2) ⟨request, next, hm⟩
    · cases h
  | answered x =>
    rw [Traffic.step, hs.2] at h
    cases h

/-- **Login traffic is guarded only where there is none.** From a state without login traffic, and with any
assessment around it: in every state of a run all login requests are in scope, counted and contained
exactly when every time the sessions are built the accounts that are reached are quiet. -/
theorem logins_guarded_iff {life : Lifetime} {es : List TrafficEvent}
    (h : Machine.run (Traffic.step cl) ⟨life, none, []⟩ es = some t) :
    (∀ es' t', es' <+: es → Machine.run (Traffic.step cl) ⟨life, none, []⟩ es' = some t' → t'.Guarded) ↔
      Machine.Along (Traffic.step cl) QuietStep ⟨life, none, []⟩ es := by
  have hinit : Uncounted ⟨life, none, []⟩ :=
    ⟨fun e he ↦ absurd he List.not_mem_nil, fun hsome ↦ by cases hsome⟩
  have hI : ∀ {es' t'}, Machine.run (Traffic.step cl) ⟨life, none, []⟩ es' = some t' → t'.Uncounted :=
    fun hrun ↦ Machine.inv_of_run (fun hI hs ↦ Uncounted.step hI hs) hrun hinit
  rw [← Machine.always_iff_along (fun hs hstep ↦ silent_step hs hstep) h ⟨rfl, rfl⟩]
  exact forall₄_congr fun es' t' _ hrun ↦ (hI hrun).guarded_iff

end Traffic

end

section

attribute [local instance] asciiTables plainNumbers literalLibrary

/-- A library that posts to absolute addresses, and repeats a request where a response redirects it with its
method and body. -/
@[reducible] def plainLogin : LoginHttpx where
  post _ url payload :=
    match url with
    | .str url => .ok { method := "POST".toList, url, payload := some payload }
    | _ => .error (.raised .TypeError)
  redirect request resp :=
    if resp.status_code = 307 ∨ resp.status_code = 308 then
      .ok (resp.location.map fun url ↦ { request with url })
    else .ok none

/-- Every token is its own plaintext. -/
@[reducible] def openFernet : Fernet where
  open? := some

attribute [local instance] plainLogin openFernet

/-- An account that logs in at the target. -/
def bearerAccount : TestAccount where
  auth_type := "bearer".toList
  username := "alice".toList
  secret_enc := "s3cret".toList
  login_config := Dict.recipe [("login_url", .text "https://app.example/login")]

/-- An account with a static header. -/
def basicAccount : TestAccount where
  auth_type := "basic".toList
  username := "alice".toList
  secret_enc := "s3cret".toList

def visit (account : TestAccount) : AccountVisit := ⟨account, ⟨0, 0⟩, ⟨0, 0⟩⟩

/-- An assessment of one public host. -/
def sampleLife : Lifetime := ⟨sampleRecord, {}, 0, none, [], 0⟩

/-- An execution that builds the session of one account without a login. -/
def basicLogin : List TrafficEvent := [.life (.enter 0), .build [visit basicAccount], .life .leave]

/-- A login whose response redirects it to another host. -/
def redirectedLogin : List TrafficEvent := [
  .life (.enter 0), .build [visit bearerAccount],
  .answered (.ok { status_code := 307, location := some "https://evil.example/login".toList })]

theorem logins_guarded_basic :
    ∃ t, Machine.run (Traffic.step accountingClient) ⟨sampleLife, none, []⟩ basicLogin = some t ∧
      ((∀ es' t', es' <+: basicLogin →
          Machine.run (Traffic.step accountingClient) ⟨sampleLife, none, []⟩ es' = some t' → t'.Guarded) ↔
        Machine.Along (Traffic.step accountingClient) Traffic.QuietStep ⟨sampleLife, none, []⟩ basicLogin) := by
  obtain ⟨t, ht⟩ : ∃ t, Machine.run (Traffic.step accountingClient) ⟨sampleLife, none, []⟩ basicLogin = some t :=
    Option.isSome_iff_exists.1 (by decide +kernel)
  exact ⟨t, ht, Traffic.logins_guarded_iff ht⟩

/-- The credentials of a login follow a redirect to a host that is not allowed, uncounted. -/
theorem redirected_login_escapes :
    ∃ t e, Machine.run (Traffic.step accountingClient) ⟨sampleLife, none, []⟩ redirectedLogin = some t ∧
      e ∈ t.sent ∧ ¬e.InScope ∧ ¬e.Counted ∧ ¬e.Contained := by
  have hparse : parse_url "https://evil.example/login".toList =
      .ok ⟨"https".toList, "evil.example".toList, 443, "/login".toList⟩ := by decide +kernel
  have hrun : (Machine.run (Traffic.step accountingClient) ⟨sampleLife, none, []⟩ redirectedLogin).map
      (fun t ↦ t.sent.getLast?.map fun e ↦ (e.request.url, e.request.payload.isSome,
        e.guard._host_in_scope "evil.example".toList, e.guard.requests_made, e.guard_after.requests_made)) =
      some (some ("https://evil.example/login".toList, true, false, 0, 0)) := by decide +kernel
  obtain ⟨t, ht, hlast⟩ := Option.map_eq_some_iff.1 hrun
  obtain ⟨e, he, hvalues⟩ := Option.map_eq_some_iff.1 hlast
  simp only [Prod.mk.injEq] at hvalues
  obtain ⟨hurl, hpayload, hhost, hbefore, hafter⟩ := hvalues
  refine ⟨t, e, ht, List.mem_of_getLast? he, ?_, ?_, ?_⟩
  · rintro ⟨answer, d, hd⟩
    obtain ⟨-, p, info, hloc⟩ := ScopeGuard.check_request_allowed_iff.1 ⟨d, hd⟩
    have hparsed := hloc.parsed
    rw [hurl, hparse] at hparsed
    obtain rfl := Except.ok.inj hparsed
    exact absurd (hhost.symm.trans hloc.host) (by decide)
  · intro hcounted
    rw [SentLogin.Counted, hbefore, hafter] at hcounted
    exact lt_irrefl _ hcounted
  · intro hcontained
    obtain ⟨p, hparsed, hallowed⟩ := hcontained hpayload
    rw [hurl, hparse] at hparsed
    obtain rfl := Except.ok.inj hparsed
    exact absurd (hhost.symm.trans hallowed) (by decide)

end

end Sentrik
