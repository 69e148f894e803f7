import Sentrik.Library.Machine
import Sentrik.Services.Ownership

/-!
# Targets, ownership verifications, authorization records

The four handlers that write these tables, over a store of three lists. Ids come from a counter, so a
row is found by the first match. A handler that raises leaves the store as it was: nothing is
committed.

`TargetsStore.step` is the machine of these calls, by any principals in any order; the audit entries
the handlers write as well are left out.
-/

namespace Sentrik

/-! ### Rows -/

structure Target where
  id : ℕ
  org_id : ℕ
  name : Text
  base_url : Text
  environment : String
  description : Text
  deriving DecidableEq, Repr

structure OwnershipVerification where
  id : ℕ
  org_id : ℕ
  target_id : ℕ
  method : OwnershipMethod
  token : Text
  host : Text
  status : VerificationStatus := .PENDING
  detail : String := ""
  deriving DecidableEq, Repr

/-- The tables the handlers read and write. -/
structure TargetsStore where
  targets : List Target := []
  ownerships : List OwnershipVerification := []
  records : List AuthorizationRecord := []
  nextId : ℕ := 0
  deriving DecidableEq, Repr

/-! ### Request bodies -/

structure TargetCreate where
  name : Text
  base_url : Text
  environment : String := "lab"
  description : Text := []

structure OwnershipStart where
  method : String := "lab_bundled"
  attestation : Option Text := none

structure AuthorizationCreate where
  environment : String := "lab"
  intensity : String := "safe_active"
  allowed_hosts : List Text := []
  allowed_ports : List ℤ := []
  allowed_methods : List Text := ["GET".toList, "POST".toList]
  allowed_check_classes : List String := []
  path_allowlist : List Text := []
  path_denylist : List Text := []
  max_requests : ℤ := 2000
  rate_limit_per_sec : ℚ := 10
  window_start : Option DateTime := none
  window_end : Option DateTime := none
  allow_state_changing : Bool := false

/-- What a handler raises: an HTTP error, or an exception nobody catches. -/
inductive ApiError
  | HTTPException (status_code : ℕ) (detail : String)
  | uncaught (exc : PyExc)
  deriving DecidableEq, Repr

namespace TargetsStore

/-- A target of the principal's organization; another organization's is not found. -/
def _get_target (s : TargetsStore) (org_id target_id : ℕ) : Except ApiError Target :=
  match s.targets.find? (·.id == target_id) with
  | some row =>
    if row.org_id = org_id then .ok row else .error (.HTTPException 404 "target not found")
  | none => .error (.HTTPException 404 "target not found")

theorem _get_target_ok {s : TargetsStore} {org_id target_id : ℕ} {t : Target}
    (h : s._get_target org_id target_id = .ok t) :
    s.targets.find? (·.id == target_id) = some t ∧ t.org_id = org_id := by
  rw [_get_target] at h
  split at h
  next row hrow =>
    split at h
    next horg => exact Except.ok.inj h ▸ ⟨hrow, horg⟩
    next => cases h
  next => cases h

/-- The hosts a record is for: the target's own by default. -/
def requestedHosts (host : Text) (body : AuthorizationCreate) : List Text :=
  if body.allowed_hosts = [] then [host] else body.allowed_hosts

/-- The status of a record: verified iff the target has a verified ownership. -/
def recordStatus (verified_own : Option OwnershipVerification) : String :=
  if verified_own.isSome then VerificationStatus.VERIFIED.value
  else VerificationStatus.PENDING.value

theorem recordStatus_verified {own : Option OwnershipVerification}
    (h : recordStatus own = VerificationStatus.VERIFIED.value) : own.isSome = true := by
  rw [recordStatus] at h
  split at h
  next hsome => exact hsome
  next => exact absurd h (by decide)

end TargetsStore

section

variable [u : UnicodeTables]

/-- The lower-cased host of a URL, or the empty text. -/
def _host_of (url : Text) : Except ApiError Text :=
  match Url.urlsplit url with
  | .error message => .error (.uncaught (.ValueError message))
  | .ok parts => .ok (u.lower (parts.hostname.getD []))

namespace TargetsStore

/-! ### Handlers -/

def create_target (s : TargetsStore) (org_id : ℕ) (body : TargetCreate) :
    Except ApiError TargetsStore := do
  let host ← _host_of body.base_url
  if host = [] then
    .error (.HTTPException 422 "base_url must be an absolute http(s) URL")
  if (Environment.ofValue body.environment).isNone then
    .error (.HTTPException 422 ("invalid environment " ++ Text.repr body.environment.toList))
  let row : Target := {
    id := s.nextId
    org_id
    name := body.name
    base_url := body.base_url
    environment := body.environment
    description := body.description }
  return { s with targets := s.targets ++ [row], nextId := s.nextId + 1 }

variable (settings : Settings) (sha256 : Text → Text)

def start_ownership (s : TargetsStore) (org_id target_id : ℕ) (body : OwnershipStart) (token : Text)
    (probe : Probe) : Except ApiError TargetsStore := do
  let target ← s._get_target org_id target_id
  match OwnershipMethod.ofValue body.method with
  | none => .error (.HTTPException 422 ("invalid method " ++ Text.repr body.method.toList))
  | some method =>
    let host ← _host_of target.base_url
    let row : OwnershipVerification := { id := s.nextId, org_id, target_id, method, token, host }
    let row ←
      if method = .LAB_BUNDLED ∨ method = .MANUAL_ATTESTATION then
        -- these can be decided at once
        match verify_ownership settings sha256 method host token target.base_url body.attestation
            probe with
        | .error exc => .error (.uncaught exc)
        | .ok outcome => .ok { row with status := outcome.status, detail := outcome.detail }
      else .ok row
    return { s with ownerships := s.ownerships ++ [row], nextId := s.nextId + 1 }

def verify_ownership_endpoint (s : TargetsStore) (org_id target_id ownership_id : ℕ)
    (probe : Probe) : Except ApiError TargetsStore := do
  let target ← s._get_target org_id target_id
  match s.ownerships.find? (·.id == ownership_id) with
  | none => .error (.HTTPException 404 "ownership record not found")
  | some row =>
    if row.target_id ≠ target_id ∨ row.org_id ≠ org_id then
      .error (.HTTPException 404 "ownership record not found")
    else
      match verify_ownership settings sha256 row.method row.host row.token target.base_url none
          probe with
      | .error exc => .error (.uncaught exc)
      | .ok outcome =>
        .ok { s with ownerships := s.ownerships.map fun r ↦
          if r.id = row.id then { r with status := outcome.status, detail := outcome.detail }
          else r }

/-- The first verified ownership of a target. -/
def verified_own (s : TargetsStore) (target_id : ℕ) : Option OwnershipVerification :=
  s.ownerships.find? fun r ↦ r.target_id == target_id && r.status == .VERIFIED

def create_authorization (s : TargetsStore) (org_id target_id : ℕ) (body : AuthorizationCreate) :
    Except ApiError TargetsStore := do
  let target ← s._get_target org_id target_id
  let host ← _host_of target.base_url
  let verified_own := s.verified_own target_id
  let allowed_hosts := requestedHosts host body
  if ¬allowed_hosts.contains host ∧ verified_own.isNone then
    .error (.HTTPException 422 "target host must be in allowed_hosts, or verify ownership first")
  if body.intensity = "invasive" ∧ body.environment = "production" then
    .error (.HTTPException 422 "invasive intensity forbidden in production")
  let record : AuthorizationRecord := {
    org_id
    target_id
    status := recordStatus verified_own
    environment := body.environment
    intensity := body.intensity
    allowed_hosts
    allowed_ports := body.allowed_ports
    allowed_methods := body.allowed_methods.map u.upper
    allowed_check_classes := body.allowed_check_classes
    path_allowlist := body.path_allowlist
    path_denylist := body.path_denylist
    max_requests := body.max_requests
    rate_limit_per_sec := body.rate_limit_per_sec
    window_start := body.window_start
    window_end := body.window_end
    allow_state_changing := body.allow_state_changing
    ownership_verification_id := verified_own.map (·.id) }
  return { s with records := s.records ++ [record] }

/-! ### The machine -/

/-- A call, with the organization of its principal and what the environment supplies. -/
inductive ApiCall
  | create_target (org_id : ℕ) (body : TargetCreate)
  | start_ownership (org_id target_id : ℕ) (body : OwnershipStart) (token : Text) (probe : Probe)
  | verify_ownership (org_id target_id ownership_id : ℕ) (probe : Probe)
  | create_authorization (org_id target_id : ℕ) (body : AuthorizationCreate)

/-- The store after a call; a call that raises changes nothing. -/
def call (s : TargetsStore) : ApiCall → Except ApiError TargetsStore
  | .create_target org_id body => s.create_target org_id body
  | .start_ownership org_id target_id body token probe =>
    s.start_ownership settings sha256 org_id target_id body token probe
  | .verify_ownership org_id target_id ownership_id probe =>
    s.verify_ownership_endpoint settings sha256 org_id target_id ownership_id probe
  | .create_authorization org_id target_id body => s.create_authorization org_id target_id body

def step (s : TargetsStore) (c : ApiCall) : Option TargetsStore :=
  some ((s.call settings sha256 c).toOption.getD s)

/-! ### What one call can write -/

/-- **What one call can do to the store.** -/
inductive Effect (s : TargetsStore) : ApiCall → TargetsStore → Prop
  /-- It raises. -/
  | nothing (c : ApiCall) : Effect s c s
  /-- A target is added. -/
  | target {org_id body} (row : Target) (hid : row.id = s.nextId) :
    Effect s (.create_target org_id body)
      { s with targets := s.targets ++ [row], nextId := s.nextId + 1 }
  /-- An ownership verification of the host of a target of the organization is added. -/
  | ownership {org_id target_id body token probe} (t : Target) (row : OwnershipVerification)
    (ht : s.targets.find? (·.id == target_id) = some t) (horg : t.org_id = org_id)
    (hid : row.id = s.nextId) (hrow : row.org_id = org_id ∧ row.target_id = target_id)
    (hhost : _host_of t.base_url = .ok row.host) :
    Effect s (.start_ownership org_id target_id body token probe)
      { s with ownerships := s.ownerships ++ [row], nextId := s.nextId + 1 }
  /-- The outcome of a verification is written to its row. -/
  | outcome {org_id target_id ownership_id probe} (base_url : Text) (row : OwnershipVerification)
    (result : VerificationOutcome) (hrow : s.ownerships.find? (·.id == ownership_id) = some row)
    (htarget : row.target_id = target_id) (horg : row.org_id = org_id)
    (hresult : Sentrik.verify_ownership settings sha256 row.method row.host row.token base_url none
      probe = .ok result) :
    Effect s (.verify_ownership org_id target_id ownership_id probe)
      { s with ownerships := s.ownerships.map fun r ↦
        if r.id = row.id then { r with status := result.status, detail := result.detail } else r }
  /-- A record is added, verified iff the target has a verified ownership. -/
  | record {org_id target_id body} (t : Target) (host : Text) (row : AuthorizationRecord)
    (ht : s.targets.find? (·.id == target_id) = some t) (horg : t.org_id = org_id)
    (hhost : _host_of t.base_url = .ok host) (hrow : row.org_id = org_id)
    (hstatus : row.status = recordStatus (s.verified_own target_id))
    (hhosts : row.allowed_hosts = requestedHosts host body) :
    Effect s (.create_authorization org_id target_id body)
      { s with records := s.records ++ [row] }

theorem effect_of_create_target {s s' : TargetsStore} {org_id : ℕ} {body : TargetCreate}
    (h : s.create_target org_id body = .ok s') :
    Effect settings sha256 s (.create_target org_id body) s' := by
  simp only [create_target, bind, Except.bind] at h
  split at h
  · cases h
  split at h
  · cases h
  split at h
  · cases h
  · obtain rfl := Except.ok.inj h
    exact .target _ rfl

theorem effect_of_start_ownership {s s' : TargetsStore} {org_id target_id : ℕ}
    {body : OwnershipStart} {token : Text} {probe : Probe}
    (h : s.start_ownership settings sha256 org_id target_id body token probe = .ok s') :
    Effect settings sha256 s (.start_ownership org_id target_id body token probe) s' := by
  simp only [start_ownership, bind, Except.bind] at h
  split at h
  · cases h
  next t ht =>
  obtain ⟨hfind, horg⟩ := _get_target_ok ht
  split at h
  · cases h
  next method hmethod =>
  split at h
  · cases h
  next host hhost =>
  split at h
  · split at h
    · cases h
    · obtain rfl := Except.ok.inj h
      exact .ownership t _ hfind horg rfl ⟨rfl, rfl⟩ hhost
  · obtain rfl := Except.ok.inj h
    exact .ownership t _ hfind horg rfl ⟨rfl, rfl⟩ hhost

theorem effect_of_verify_ownership {s s' : TargetsStore} {org_id target_id ownership_id : ℕ}
    {probe : Probe}
    (h : s.verify_ownership_endpoint settings sha256 org_id target_id ownership_id probe = .ok s') :
    Effect settings sha256 s (.verify_ownership org_id target_id ownership_id probe) s' := by
  simp only [verify_ownership_endpoint, bind, Except.bind] at h
  split at h
  · cases h
  next t ht =>
  split at h
  · cases h
  next row hrow =>
  split at h
  · cases h
  next hmine =>
  rw [not_or, not_not, not_not] at hmine
  split at h
  · cases h
  next result hresult =>
  obtain rfl := Except.ok.inj h
  exact .outcome t.base_url row result hrow hmine.1 hmine.2 hresult

theorem effect_of_create_authorization {s s' : TargetsStore} {org_id target_id : ℕ}
    {body : AuthorizationCreate} (h : s.create_authorization org_id target_id body = .ok s') :
    Effect settings sha256 s (.create_authorization org_id target_id body) s' := by
  simp only [create_authorization, bind, Except.bind] at h
  split at h
  · cases h
  next t ht =>
  obtain ⟨hfind, horg⟩ := _get_target_ok ht
  split at h
  · cases h
  next host hhost =>
  split at h
  · cases h
  split at h
  · cases h
  · obtain rfl := Except.ok.inj h
    exact .record t host _ hfind horg hhost rfl rfl rfl

/-- **The inversion.** -/
theorem effect_of_step {s s' : TargetsStore} {c : ApiCall}
    (h : s.step settings sha256 c = some s') : Effect settings sha256 s c s' := by
  obtain rfl := Option.some.inj h
  cases hcall : s.call settings sha256 c with
  | error e => exact .nothing c
  | ok s' =>
    cases c with
    | create_target org_id body => exact effect_of_create_target settings sha256 hcall
    | start_ownership org_id target_id body token probe =>
      exact effect_of_start_ownership settings sha256 hcall
    | verify_ownership org_id target_id ownership_id probe =>
      exact effect_of_verify_ownership settings sha256 hcall
    | create_authorization org_id target_id body =>
      exact effect_of_create_authorization settings sha256 hcall

end TargetsStore

end

end Sentrik
