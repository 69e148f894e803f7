import Sentrik.Security.Scope

/-!
# Per-run sandbox

The egress allowlist beneath the guard: derived from the same record, it re-checks host, port and
network of a destination on its own and raises on anything outside. It asks the resolver again, so it
has an answer of its own.
-/

namespace Sentrik

/-- The egress envelope of a single run. -/
structure SandboxProfile where
  allowed_hosts : List Text := []
  allowed_ports : List ℤ := []
  allow_private : Bool := false
  mode : String := "none"
  deriving DecidableEq, Repr

/-- A per-run isolation boundary. -/
structure Sandbox where
  profile : SandboxProfile
  _settings : Settings

/-- Ports assumed when an authorization does not pin any. -/
def DEFAULT_PORTS : List ℤ := [80, 443]

/-- Environments in which a target may live on a private network. -/
def _PRIVATE_OK_ENVS : List Environment := [.LAB, .STAGING, .DEVELOPMENT]

section

variable [u : UnicodeTables]

def SandboxProfile.from_record (record : AuthorizationRecord) (settings : Settings) :
    SandboxProfile where
  allowed_hosts := (record.allowed_hosts.filter fun h ↦ h ≠ [] ∧ Text.strip h ≠ []).map
    fun h ↦ Text.strip (u.lower h)
  allowed_ports := if record.allowed_ports = [] then DEFAULT_PORTS else record.allowed_ports
  allow_private := _PRIVATE_OK_ENVS.contains (_coerce_env record.environment)
  mode := if settings.sandbox_mode = "" then "none" else settings.sandbox_mode

def SandboxProfile.host_allowed (p : SandboxProfile) (host : Text) : Bool :=
  let host := u.lower host
  p.allowed_hosts.contains host ||
    p.allowed_hosts.any fun entry ↦ Text.startswith entry "*.".toList && Glob.fnmatch host entry

/-- The gate called before connecting. -/
def Sandbox.assert_egress_allowed (s : Sandbox) (host : Text) (port : ℕ) (answer : DnsAnswer) :
    Except PyExc Unit :=
  if s._settings.sandbox_enforce_egress_allowlist = false then .ok ()
  else
    let host_l := Text.strip (u.lower host)
    let name := String.ofList host_l
    if host_l = [] then
      .error (.EgressViolation "empty host is not permitted" host port "empty_host")
    else if ¬s.profile.host_allowed host_l then
      .error (.EgressViolation
        ("host " ++ Text.repr host_l ++ " is not in the sandbox egress allowlist")
        host_l port "host_not_allowed")
    else if (port : ℤ) ∉ s.profile.allowed_ports then
      .error (.EgressViolation
        (s!"port {port} is not in the sandbox egress allowlist (allowed=" ++ Text.renderList
          ((s.profile.allowed_ports.dedup.insertionSort (· ≤ ·)).map toString) ++ ")")
        host_l port "port_not_allowed")
    else
      match resolve_host host_l port true answer with
      | .error (.NetGuardError message) =>
        .error (.EgressViolation
          ("cannot classify egress destination " ++ Text.repr host_l ++ ": " ++ message)
          host_l port "resolution_failed")
      | .error exc => .error exc
      | .ok info =>
        if info.is_hard_blocked then
          .error (.EgressViolation
            s!"{name} resolves to a hard-blocked metadata/link-local endpoint"
            host_l port "hard_blocked")
        else if (info.is_private || info.is_loopback) && !s.profile.allow_private then
          .error (.EgressViolation
            (s!"{name} resolves to a private/loopback address not permitted for this " ++
              "environment (ips=" ++ Text.renderList (info.resolved_ips.map Text.repr) ++ ")")
            host_l port "private_network_denied")
        else .ok ()

/-- The sandbox bound to a record. -/
def sandbox_for (record : AuthorizationRecord) (settings : Settings) : Sandbox where
  profile := SandboxProfile.from_record record settings
  _settings := settings

end

end Sentrik
