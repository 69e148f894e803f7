import Sentrik.Library.Glob
import Sentrik.Security.Netguard

/-!
# ScopeGuard

Deny-by-default authorization bound to one `AuthorizationRecord`.

The guard is the record, the settings and the mutable request counter. Each choke point is a function
returning a `ScopeDecision` with the source's reason, code and details.

## The factoring of `check_request`

`check_request` reads its method, then its location. `MethodAllowed` is the part about the method and
`LocationAllowed` the part about host, port, path and network; `check_request_allowed_iff` says that
an allowed request is exactly both. The location part does not see the method nor whether the request
follows a redirect, which is what lets a decision taken for one method be used for another.
-/

namespace Sentrik

/-! ### Decisions -/

structure ScopeDecision where
  allowed : Bool
  reason : String
  code : String := "ok"
  details : Details := {}
  deriving DecidableEq, Repr

def ScopeDecision.raise_if_denied (d : ScopeDecision) : Except PyExc Unit :=
  if d.allowed then .ok () else .error (.ScopeViolation d.reason d.code d.details)

theorem ScopeDecision.raise_if_denied_ok {d : ScopeDecision} {x : Unit} :
    d.raise_if_denied = .ok x ↔ d.allowed = true := by
  unfold raise_if_denied
  split <;> simp_all

/-- Intensity ordering for graduated permissions. -/
def _INTENSITY_RANK : TestIntensity → ℕ
  | .PASSIVE => 0
  | .SAFE_ACTIVE => 1
  | .INVASIVE => 2

/-- The guard: a record, the settings, and the request counter. -/
structure ScopeGuard where
  record : AuthorizationRecord
  requests_made : ℕ := 0
  _settings : Settings := {}

namespace ScopeGuard

/-! ### The record itself -/

/-- The record is verified and the time is inside its testing window. -/
def check_record_active (g : ScopeGuard) (now : ℤ) : ScopeDecision :=
  if g.record.status ≠ VerificationStatus.VERIFIED.value then
    { allowed := false, reason := s!"authorization not verified (status={g.record.status})"
      code := "authz_unverified" }
  else
    match g.record.window_start.filter (now < ·.instant) with
    | some ws =>
      { allowed := false, reason := s!"outside testing window (starts {ws.isoformat})"
        code := "window_not_started" }
    | none =>
      match g.record.window_end.filter (·.instant < now) with
      | some we =>
        { allowed := false, reason := s!"outside testing window (ended {we.isoformat})"
          code := "window_ended" }
      | none => { allowed := true, reason := "record active" }

/-! ### Budgets -/

/-- The limit the budget check compares with: the smaller of the record's and the global one. -/
def limit (g : ScopeGuard) : ℤ := min g.record.max_requests g._settings.max_requests_per_assessment

/-- A limit of zero is falsy, and reads as no limit. -/
def check_budget (g : ScopeGuard) (additional : ℕ) : ScopeDecision :=
  if g.limit ≠ 0 ∧ g.limit < g.requests_made + additional then
    { allowed := false, reason := s!"request budget exhausted ({g.requests_made}/{g.limit})"
      code := "budget_exhausted", details := { made := g.requests_made, limit := g.limit } }
  else { allowed := true, reason := "within budget" }

def note_requests (g : ScopeGuard) (n : ℕ) : ScopeGuard :=
  { g with requests_made := g.requests_made + n }

@[simp] theorem note_requests_record (g : ScopeGuard) (n : ℕ) :
    (g.note_requests n).record = g.record := rfl

@[simp] theorem note_requests_settings (g : ScopeGuard) (n : ℕ) :
    (g.note_requests n)._settings = g._settings := rfl

@[simp] theorem note_requests_requests_made (g : ScopeGuard) (n : ℕ) :
    (g.note_requests n).requests_made = g.requests_made + n := rfl

@[simp] theorem note_requests_limit (g : ScopeGuard) (n : ℕ) : (g.note_requests n).limit = g.limit :=
  rfl

/-- Where there is a limit, a passed check leaves room for what it was asked about. -/
theorem check_budget_allowed {g : ScopeGuard} {n : ℕ} :
    (g.check_budget n).allowed = true ↔ (g.limit ≠ 0 → (g.requests_made + n : ℤ) ≤ g.limit) := by
  unfold check_budget
  split
  next h => simpa using h
  next h => simpa using fun hne ↦ not_lt.1 fun hlt ↦ h ⟨hne, hlt⟩

/-! ### Check classes -/

section

variable [u : UnicodeTables]

/-- The gate on a check's class and intensity. -/
def check_class_allowed (g : ScopeGuard) (check_class : String) (intensity : TestIntensity) :
    ScopeDecision :=
  if g.record.allowed_check_classes ≠ [] ∧ check_class ∉ g.record.allowed_check_classes then
    { allowed := false
      reason := "check class " ++ Text.repr check_class.toList ++ " not in authorized set"
      code := "check_not_authorized" }
  else
    let rec_intensity := _coerce_intensity g.record.intensity
    if _INTENSITY_RANK rec_intensity < _INTENSITY_RANK intensity then
      { allowed := false
        reason := s!"check intensity {intensity.value} exceeds authorized {rec_intensity.value}"
        code := "intensity_exceeded" }
    else if intensity = .INVASIVE ∧ _coerce_env g.record.environment = .PRODUCTION then
      { allowed := false, reason := "invasive checks are forbidden in production"
        code := "invasive_in_prod" }
    else { allowed := true, reason := "check class permitted" }

theorem check_class_allowed_iff {g : ScopeGuard} {c : String} {i : TestIntensity} :
    (g.check_class_allowed c i).allowed = true ↔
      (g.record.allowed_check_classes ≠ [] → c ∈ g.record.allowed_check_classes) ∧
        _INTENSITY_RANK i ≤ _INTENSITY_RANK (_coerce_intensity g.record.intensity) ∧
        ¬(i = .INVASIVE ∧ _coerce_env g.record.environment = .PRODUCTION) := by
  unfold check_class_allowed
  split
  next h => simpa using fun hin _ ↦ absurd (hin h.1) h.2
  next h =>
    have hclass : g.record.allowed_check_classes ≠ [] → c ∈ g.record.allowed_check_classes :=
      fun hne ↦ by_contra fun hnot ↦ h ⟨hne, hnot⟩
    dsimp only
    split
    next hrank => simpa using fun _ hle ↦ absurd hle (not_le.2 hrank)
    next hrank =>
      split
      next hinv => simpa using fun _ _ ↦ hinv
      next hinv => simpa using ⟨hclass, not_lt.1 hrank, fun h₁ h₂ ↦ hinv ⟨h₁, h₂⟩⟩

/-! ### Hosts, paths, networks -/

/-- Methods considered state-changing. -/
def STATE_CHANGING_METHODS : List Text :=
  ["POST".toList, "PUT".toList, "PATCH".toList, "DELETE".toList]

def _allowed_hosts (g : ScopeGuard) : List Text :=
  (g.record.allowed_hosts.filter (· ≠ [])).map fun h ↦ Text.strip (u.lower h)

def _allowed_methods (g : ScopeGuard) : List Text := g.record.allowed_methods.map u.upper

/-- Exact host, or an explicit wildcard entry such as `*.example.com`. -/
def _host_in_scope (g : ScopeGuard) (host : Text) : Bool :=
  g._allowed_hosts.contains host ||
    g._allowed_hosts.any fun entry ↦
      Text.startswith entry "*.".toList && Glob.fnmatch host entry

/-- A path matches an entry as a prefix or as a pattern. -/
def pathMatches (path entry : Text) : Bool := Text.startswith path entry || Glob.fnmatch path entry

def _path_decision (g : ScopeGuard) (path : Text) : ScopeDecision :=
  match g.record.path_denylist.find? (pathMatches path) with
  | some deny =>
    { allowed := false
      reason := "path " ++ Text.repr path ++ " matches denylist entry " ++ Text.repr deny
      code := "path_denied" }
  | none =>
    if g.record.path_allowlist ≠ [] then
      if g.record.path_allowlist.any (pathMatches path) then
        { allowed := true, reason := "path allowed" }
      else
        { allowed := false, reason := "path " ++ Text.repr path ++ " not in path allowlist"
          code := "path_not_allowed" }
    else { allowed := true, reason := "path allowed (no allowlist restriction)" }

theorem _path_decision_allowed {g : ScopeGuard} {path : Text} :
    (g._path_decision path).allowed = true ↔
      (∀ deny ∈ g.record.path_denylist, pathMatches path deny = false) ∧
        (g.record.path_allowlist ≠ [] →
          ∃ allow ∈ g.record.path_allowlist, pathMatches path allow = true) := by
  unfold _path_decision
  split
  next deny hfind =>
    have hm := List.find?_some hfind
    simpa using fun hall ↦ absurd hm (by simp [hall deny (List.mem_of_find?_eq_some hfind)])
  next hfind =>
    have hdeny : ∀ deny ∈ g.record.path_denylist, pathMatches path deny = false := by
      simpa using hfind
    by_cases hne : g.record.path_allowlist = []
    · simpa [hne] using hdeny
    · rw [if_pos hne]
      split
      next hany => simpa [hne] using ⟨hdeny, by simpa using hany⟩
      next hany => simpa [hne] using fun _ ↦ by simpa using hany

/-- Controlled lab applications may live on private networks; staging and development may when the
operator enabled it globally; production never. -/
def _private_allowed (g : ScopeGuard) : Bool :=
  match _coerce_env g.record.environment with
  | .LAB => true
  | .STAGING | .DEVELOPMENT => g._settings.allow_private_networks
  | .PRODUCTION => false

/-- The ports a request may use: the listed ones, or the scheme's default. -/
def allowed_ports (g : ScopeGuard) (scheme : Text) : List ℤ :=
  if g.record.allowed_ports = [] then [(default_port_for_scheme scheme : ℤ)]
  else g.record.allowed_ports

/-! ### Requests -/

/-- **The core gate**: may this request leave? `answer` is what the resolver says if it is asked. -/
def check_request (g : ScopeGuard) (method url : Text) (is_redirect : Bool) (answer : DnsAnswer) :
    Except PyExc ScopeDecision :=
  let method := u.upper method
  match parse_url url with
  | .error (.NetGuardError message) =>
    .ok { allowed := false, reason := message, code := "malformed_url" }
  | .error exc => .error exc
  | .ok ⟨scheme, host, port, path⟩ =>
    if g._allowed_methods ≠ [] ∧ method ∉ g._allowed_methods then
      .ok { allowed := false, reason := s!"method {String.ofList method} not authorized"
            code := "method_denied" }
    else if method ∈ STATE_CHANGING_METHODS ∧ ¬g.record.allow_state_changing then
      .ok { allowed := false
            reason := s!"state-changing method {String.ofList method} not authorized"
            code := "state_change_denied" }
    else if ¬g._host_in_scope host then
      .ok { allowed := false
            reason := "host " ++ Text.repr host ++ " not in authorized scope (deny-by-default)" ++
              (if is_redirect then " [via redirect]" else "")
            code := "host_out_of_scope", details := { host := host, redirect := is_redirect } }
    else if (port : ℤ) ∉ g.allowed_ports scheme then
      .ok { allowed := false
            reason := s!"port {port} not authorized (allowed=" ++ Text.renderList
              (((g.allowed_ports scheme).dedup.insertionSort (· ≤ ·)).map toString) ++ ")"
            code := "port_denied" }
    else if ¬(g._path_decision path).allowed then .ok (g._path_decision path)
    else
      match resolve_host host port true answer with
      | .error (.NetGuardError message) =>
        .ok { allowed := false, reason := message, code := "resolution_failed" }
      | .error exc => .error exc
      | .ok info =>
        if info.is_hard_blocked then
          .ok { allowed := false
                reason := s!"{String.ofList host} hits a hard-blocked metadata endpoint"
                code := "metadata_blocked" }
        else if (info.is_private || info.is_loopback) && !g._private_allowed then
          .ok { allowed := false
                reason := String.ofList host ++ " resolves to a private/loopback address; " ++
                  "not permitted for this environment"
                code := "private_network_denied", details := { ips := info.resolved_ips } }
        else
          .ok { allowed := true, reason := "request in scope"
                details := { host := host, port := port, ips := info.resolved_ips } }

/-- A newly discovered asset is in scope only if its host already is. -/
def evaluate_new_asset (g : ScopeGuard) (host : Text) : ScopeDecision :=
  if g._host_in_scope (u.lower host) then { allowed := true, reason := "asset already in scope" }
  else
    { allowed := false
      reason := "newly discovered asset " ++ Text.repr host ++
        " requires a separate authorization record"
      code := "new_asset_unauthorized", details := { host := host } }

/-! ### The factoring -/

/-- The part of the gate about the method. -/
def MethodAllowed (g : ScopeGuard) (method : Text) : Prop :=
  (g._allowed_methods ≠ [] → u.upper method ∈ g._allowed_methods) ∧
    (u.upper method ∈ STATE_CHANGING_METHODS → g.record.allow_state_changing = true)

/-- The part of the gate about the location, with the parsed URL and the classified host it rests
on. -/
structure LocationAllowed (g : ScopeGuard) (url : Text) (answer : DnsAnswer) (p : ParsedUrl)
    (info : HostInfo) : Prop where
  parsed : parse_url url = .ok p
  host : g._host_in_scope p.host = true
  port : (p.port : ℤ) ∈ g.allowed_ports p.scheme
  path : (g._path_decision p.path).allowed = true
  resolved : resolve_host p.host p.port true answer = .ok info
  not_hard_blocked : info.is_hard_blocked = false
  network : (info.is_private || info.is_loopback) = true → g._private_allowed = true

/-- The decision that allows a location. -/
def allowDecision (p : ParsedUrl) (info : HostInfo) : ScopeDecision where
  allowed := true
  reason := "request in scope"
  details := { host := p.host, port := p.port, ips := info.resolved_ips }

/-- **The factoring.** A decision allows a request iff method and location are both allowed, and it
is then the decision about the location. -/
theorem check_request_eq_allow_iff {g : ScopeGuard} {method url : Text} {is_redirect : Bool}
    {answer : DnsAnswer} {d : ScopeDecision} :
    (g.check_request method url is_redirect answer = .ok d ∧ d.allowed = true) ↔
      g.MethodAllowed method ∧
        ∃ p info, g.LocationAllowed url answer p info ∧ d = allowDecision p info := by
  constructor
  · rintro ⟨h, hd⟩
    unfold check_request at h
    dsimp only at h
    split at h
    · exact absurd hd (by simp [← Except.ok.inj h])
    · cases h
    next scheme host port path hparse =>
      split at h
      · exact absurd hd (by simp [← Except.ok.inj h])
      next hmethod =>
      split at h
      · exact absurd hd (by simp [← Except.ok.inj h])
      next hstate =>
      split at h
      · exact absurd hd (by simp [← Except.ok.inj h])
      next hhost =>
      split at h
      · exact absurd hd (by simp [← Except.ok.inj h])
      next hport =>
      split at h
      next hpath => exact absurd hd (by rw [← Except.ok.inj h]; exact hpath)
      next hpath =>
      split at h
      · exact absurd hd (by simp [← Except.ok.inj h])
      · cases h
      next info hres =>
      split at h
      · exact absurd hd (by simp [← Except.ok.inj h])
      next hhard =>
      split at h
      · exact absurd hd (by simp [← Except.ok.inj h])
      next hpriv =>
      refine ⟨⟨fun hne ↦ ?_, fun hin ↦ ?_⟩, ⟨scheme, host, port, path⟩, info, ?_,
        (Except.ok.inj h).symm⟩
      · exact by_contra fun hnot ↦ hmethod ⟨hne, hnot⟩
      · exact by_contra fun hnot ↦ hstate ⟨hin, hnot⟩
      · refine ⟨hparse, by simpa using hhost, by simpa using hport, by simpa using hpath, hres,
          by simpa using hhard, fun hp ↦ ?_⟩
        by_contra hnot
        exact hpriv (by simp [hp, hnot])
  · rintro ⟨⟨hmethod, hstate⟩, p, info, hloc, rfl⟩
    refine ⟨?_, rfl⟩
    have hm : ¬(g._allowed_methods ≠ [] ∧ u.upper method ∉ g._allowed_methods) :=
      fun h ↦ h.2 (hmethod h.1)
    have hs : ¬(u.upper method ∈ STATE_CHANGING_METHODS ∧ ¬g.record.allow_state_changing) :=
      fun h ↦ h.2 (hstate h.1)
    have hp : ¬(((info.is_private || info.is_loopback) && !g._private_allowed) = true) := by
      intro h
      rw [Bool.and_eq_true] at h
      simp [hloc.network h.1] at h
    unfold check_request
    simp only [hloc.parsed]
    rw [if_neg hm, if_neg hs, if_neg (by simp [hloc.host]), if_neg (not_not.2 hloc.port),
      if_neg (by simp [hloc.path])]
    simp only [hloc.resolved]
    rw [if_neg (by simp [hloc.not_hard_blocked]), if_neg hp]
    rfl

/-- A request is allowed exactly when its method and its location are. -/
theorem check_request_allowed_iff {g : ScopeGuard} {method url : Text} {is_redirect : Bool}
    {answer : DnsAnswer} :
    (∃ d, g.check_request method url is_redirect answer = .ok d ∧ d.allowed = true) ↔
      g.MethodAllowed method ∧ ∃ p info, g.LocationAllowed url answer p info := by
  constructor
  · rintro ⟨d, hd⟩
    obtain ⟨hm, p, info, hloc, -⟩ := check_request_eq_allow_iff.1 hd
    exact ⟨hm, p, info, hloc⟩
  · rintro ⟨hm, p, info, hloc⟩
    exact ⟨allowDecision p info, check_request_eq_allow_iff.2 ⟨hm, p, info, hloc, rfl⟩⟩

/-- The location part reads the record and the settings, not the counter. -/
theorem LocationAllowed.of_record_eq {g g' : ScopeGuard} {url : Text} {answer : DnsAnswer}
    {p : ParsedUrl} {info : HostInfo} (h : g.LocationAllowed url answer p info)
    (hrec : g'.record = g.record) (hset : g'._settings = g._settings) :
    g'.LocationAllowed url answer p info := by
  obtain ⟨record, n, settings⟩ := g
  obtain ⟨record', n', settings'⟩ := g'
  obtain rfl : record' = record := hrec
  obtain rfl : settings' = settings := hset
  exact ⟨h.parsed, h.host, h.port, h.path, h.resolved, h.not_hard_blocked, h.network⟩

end

end ScopeGuard

end Sentrik
