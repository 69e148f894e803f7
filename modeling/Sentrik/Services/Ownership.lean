import Sentrik.Security.Netguard

/-!
# Ownership verification

The four methods by which an organization proves a host. What the network answers — the TXT records
of the host, the response to the well-known file — is an argument, and so is the digest that an
attestation is recorded under.

Verification never raises: whatever goes wrong is an outcome with a reason.
-/

namespace Sentrik

structure VerificationOutcome where
  status : VerificationStatus
  detail : String
  deriving DecidableEq, Repr

/-- What the network answers while one verification runs. -/
structure Probe where
  /-- The TXT records of the host, each as one text; an error; `none` without a DNS library. -/
  txt : Option (Except String (List Text))
  /-- Status and body of the well-known file, or an error of the HTTP library. -/
  file : Except String (ℕ × Text)

/-- The names under which a bundled lab application runs. -/
def isLoopbackName (host : Text) : Bool :=
  host == "127.0.0.1".toList || host == "localhost".toList || host == "::1".toList ||
    Text.startswith host "127.".toList

def _verify_lab (host : Text) : VerificationOutcome :=
  if isLoopbackName host then ⟨.VERIFIED, "bundled lab target on loopback"⟩
  else ⟨.FAILED, "lab_bundled method only valid for loopback controlled apps"⟩

def expected_dns_value (settings : Settings) (token : Text) : Text :=
  settings.ownership_dns_token_prefix ++ '=' :: token

section

variable [u : UnicodeTables] (settings : Settings) (sha256 : Text → Text)

def _verify_attestation (attestation : Option Text) : VerificationOutcome :=
  match attestation.filter fun a ↦ a ≠ [] ∧ 32 ≤ (Text.strip a).length with
  | none => ⟨.FAILED, "manual attestation requires a signed statement of >= 32 chars"⟩
  | some a =>
    ⟨.VERIFIED, s!"attestation recorded (sha256={String.ofList ((sha256 a).take 16)}...)"⟩

def _verify_dns (host token : Text) (probe : Probe) : VerificationOutcome :=
  let want := expected_dns_value settings token
  match probe.txt with
  | none => ⟨.PENDING, "dnspython not installed; cannot check TXT automatically. " ++
      s!"Add TXT record: {String.ofList want}"⟩
  | some (.error exc) => ⟨.FAILED, s!"DNS lookup failed: {exc}"⟩
  | some (.ok values) =>
    if values.any (Text.hasInfix want) then
      ⟨.VERIFIED, s!"TXT record matched on {String.ofList host}"⟩
    else
      ⟨.FAILED, "expected TXT " ++ Text.repr want ++ " not found (saw " ++
        Text.renderList ((values.take 5).map Text.repr) ++ ")"⟩

def _verify_http_file (base_url token : Text) (probe : Probe) :
    Except PyExc VerificationOutcome := do
  let parts ← (Url.urlsplit base_url).mapError .ValueError
  let url := String.ofList (parts.scheme ++ "://".toList ++ parts.netloc ++
    settings.ownership_http_well_known_path)
  match probe.file with
  | .error exc => return ⟨.FAILED, s!"could not fetch {url}: {exc}"⟩
  | .ok (status_code, text) =>
    if status_code = 200 ∧ Text.hasInfix token text then return ⟨.VERIFIED, s!"token found at {url}"⟩
    else return ⟨.FAILED, s!"token not found at {url} (status={status_code})"⟩

/-- Run one verification. -/
def verify_ownership (method : OwnershipMethod) (host token base_url : Text)
    (attestation : Option Text) (probe : Probe) : Except PyExc VerificationOutcome :=
  match method with
  | .LAB_BUNDLED => .ok (_verify_lab host)
  | .MANUAL_ATTESTATION => .ok (_verify_attestation sha256 attestation)
  | .DNS_TXT => .ok (_verify_dns settings host token probe)
  | .HTTP_FILE => _verify_http_file settings base_url token probe

end

/-- What a verification rests on is there: the loopback name, the TXT record, or the file. Nothing of
that kind is left of an attestation once it has been handed in. -/
def StillProven (settings : Settings) (method : OwnershipMethod) (host token : Text)
    (probe : Probe) : Prop :=
  match method with
  | .LAB_BUNDLED => isLoopbackName host = true
  | .MANUAL_ATTESTATION => False
  | .DNS_TXT => ∃ values, probe.txt = some (.ok values) ∧
      ∃ v ∈ values, Text.hasInfix (expected_dns_value settings token) v = true
  | .HTTP_FILE => ∃ text, probe.file = .ok (200, text) ∧ Text.hasInfix token text = true

theorem verified_of_stillProven [UnicodeTables] {settings : Settings} {sha256 : Text → Text}
    {method : OwnershipMethod} {host token base_url : Text} {attestation : Option Text}
    {probe : Probe} {outcome : VerificationOutcome}
    (hproven : StillProven settings method host token probe)
    (h : verify_ownership settings sha256 method host token base_url attestation probe =
      .ok outcome) : outcome.status = .VERIFIED := by
  cases method with
  | LAB_BUNDLED =>
    have hloop : isLoopbackName host = true := hproven
    obtain rfl := Except.ok.inj h
    rw [_verify_lab, if_pos hloop]
  | MANUAL_ATTESTATION => exact hproven.elim
  | DNS_TXT =>
    obtain ⟨values, hvalues, v, hv, hinfix⟩ := hproven
    obtain rfl := Except.ok.inj h
    simp only [_verify_dns, hvalues]
    rw [if_pos (List.any_eq_true.2 ⟨v, hv, hinfix⟩)]
  | HTTP_FILE =>
    obtain ⟨text, htext, hinfix⟩ := hproven
    simp only [verify_ownership, _verify_http_file, bind, Except.bind, htext] at h
    split at h
    · cases h
    · rw [if_pos ⟨trivial, hinfix⟩] at h
      rw [← Except.ok.inj h]

end Sentrik
