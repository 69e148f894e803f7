import Sentrik.Library.Url
import Sentrik.Core.Basic

/-!
# Network boundary primitives

Hostname and address classification, run before any outbound request leaves.

**The resolver is an adversary.** `socket.getaddrinfo` is not modelled; what it answers is an argument
(`DnsAnswer`) of every function that may ask it, so two questions about one host may get different
answers. A successful answer carries what the resolver promises as fields: at least one address, every
address numeric.

Exceptions are values of `PyExc`, one constructor per class that can leave the modelled code; `except`
clauses are matches on it.
-/

namespace Sentrik

/-! ### Exceptions -/

/-- The keyed details of a decision or of a violation. -/
structure Details where
  made : Option ℕ := none
  limit : Option ℤ := none
  host : Option Text := none
  redirect : Option Bool := none
  port : Option ℕ := none
  ips : Option (List Text) := none
  now : Option (List Text) := none
  validated : Option (List Text) := none
  new_ips : Option (List Text) := none
  deriving DecidableEq, Repr

/-- The exceptions that can leave the modelled code. -/
inductive PyExc
  | NetGuardError (message : String)
  | ScopeViolation (reason code : String) (details : Details)
  | EgressViolation (message : String) (host : Text) (port : ℕ) (code : String)
  | TargetUnreachable (message : String)
  /-- A `ValueError` that is no `NetGuardError`. -/
  | ValueError (message : String)
  /-- Raised by the resolver for a host it cannot encode. -/
  | UnicodeError (message : String)
  | RuntimeError (message : String)
  /-- Raised by the HTTP library while it builds a request or joins a URL. -/
  | InvalidURL (message : String)
  /-- The task was cancelled, or a callback raised. -/
  | Interrupted (message : String)
  deriving DecidableEq, Repr

/-! ### Parsing -/

section

variable [u : UnicodeTables]

/-- Metadata addresses that must never be reachable regardless of scope. -/
def HARD_BLOCK_IPS : List Text :=
  ["169.254.169.254".toList, "100.100.100.100".toList, "fd00:ec2::254".toList]

def HARD_BLOCK_HOSTS : List Text :=
  ["metadata.google.internal".toList, "metadata".toList, "instance-data".toList]

def default_port_for_scheme (scheme : Text) : ℕ :=
  if u.lower scheme = "http".toList then 80
  else if u.lower scheme = "https".toList then 443
  else 0

/-- What `parse_url` returns. -/
structure ParsedUrl where
  scheme : Text
  host : Text
  port : ℕ
  path : Text
  deriving DecidableEq, Repr

/-- Scheme, host, port and path of a URL; malformed input raises. -/
def parse_url (url : Text) : Except PyExc ParsedUrl :=
  if url = [] ∨ ¬Text.hasInfix "://".toList url then
    .error (.NetGuardError ("malformed URL: " ++ Text.repr url))
  else
    match Url.urlsplit url with
    | .error message => .error (.ValueError message)
    | .ok parts =>
      let scheme := u.lower parts.scheme
      if scheme ≠ "http".toList ∧ scheme ≠ "https".toList then
        .error (.NetGuardError
          ("unsupported scheme " ++ Text.repr scheme ++ " (only http/https)"))
      else
        match parts.hostname with
        | none => .error (.NetGuardError ("URL has no host: " ++ Text.repr url))
        | some host =>
          match parts.port with
          | .error message => .error (.ValueError message)
          | .ok port =>
            .ok {
              scheme
              host := u.lower host
              -- a port of zero is falsy, so it reads as the default
              port := if port.getD 0 = 0 then default_port_for_scheme scheme else port.getD 0
              path := if parts.path = [] then "/".toList else parts.path }

/-- The path of a parsed URL is absolute. -/
theorem parse_url_path {url : Text} {p : ParsedUrl} (h : parse_url url = .ok p) :
    ∃ t, p.path = '/' :: t := by
  rw [parse_url] at h
  split at h
  · cases h
  split at h
  · cases h
  next parts hsplit =>
    dsimp only at h
    split at h
    · cases h
    split at h
    · cases h
    next host hhost =>
      split at h
      · cases h
      next port _ =>
        obtain rfl := Except.ok.inj h
        have hnetloc : parts.netloc ≠ [] := by
          rintro hnil
          simp [Url.SplitResult.hostname, hnil, Url.hostinfo, Text.rpartition, Text.partition]
            at hhost
        dsimp only
        split
        next => exact ⟨[], rfl⟩
        next hpath =>
          rcases Url.urlsplit_path hsplit hnetloc with hnil | habs
          · exact absurd hnil hpath
          · exact habs

end

/-! ### Classification -/

/-- Loopback, and private in the wide sense (private, link-local or reserved). A text that is no
address is neither. -/
def _classify_ip (ip : Text) : Bool × Bool :=
  match IpAddress.ip_address ip with
  | none => (false, false)
  | some obj => (obj.is_loopback, obj.is_private || obj.is_link_local || obj.is_reserved)

/-- A successful answer of the resolver. -/
structure AddrInfo where
  addresses : List Text
  nonempty : addresses ≠ []
  numeric : ∀ a ∈ addresses, (IpAddress.ip_address a).isSome

/-- What the resolver answers to one question. -/
inductive DnsAnswer
  | addresses (info : AddrInfo)
  | gaierror (message : String)
  | unicodeError (message : String)

structure HostInfo where
  scheme : Text
  host : Text
  port : ℕ
  resolved_ips : List Text
  is_loopback : Bool
  is_private : Bool
  is_hard_blocked : Bool
  deriving DecidableEq, Repr

/-- The classification of a host that resolved to `resolved`: any address flags the whole host. -/
def classify (host : Text) (port : ℕ) (resolved : List Text) : HostInfo where
  scheme := "http".toList
  host
  port
  resolved_ips := resolved
  is_loopback := resolved.any fun ip ↦ (_classify_ip ip).1
  is_private := resolved.any fun ip ↦ (_classify_ip ip).2
  is_hard_blocked :=
    HARD_BLOCK_HOSTS.contains host || resolved.any fun ip ↦ HARD_BLOCK_IPS.contains ip

theorem classify_clean {host : Text} {port : ℕ} {ips : List Text} {ip : Text} (hip : ip ∈ ips)
    (hhard : (classify host port ips).is_hard_blocked = false) : ip ∉ HARD_BLOCK_IPS := by
  intro hin
  rw [classify, Bool.or_eq_false_iff, List.any_eq_false] at hhard
  exact hhard.2 ip hip (by simpa using hin)

/-- One internal address flags the host. -/
theorem classify_internal {host : Text} {port : ℕ} {ips : List Text} {ip : Text} {a : IpAddress}
    (hip : ip ∈ ips) (ha : IpAddress.ip_address ip = some a) (hint : a.isInternal = true) :
    ((classify host port ips).is_private || (classify host port ips).is_loopback) = true := by
  have hlb : (_classify_ip ip).1 = a.is_loopback := by rw [_classify_ip, ha]
  have hpv : (_classify_ip ip).2 = (a.is_private || a.is_link_local || a.is_reserved) := by
    rw [_classify_ip, ha]
  rw [Bool.or_eq_true, classify, List.any_eq_true, List.any_eq_true]
  cases hloop : a.is_loopback with
  | true => exact Or.inr ⟨ip, hip, hlb.trans hloop⟩
  | false =>
    refine Or.inl ⟨ip, hip, ?_⟩
    rw [hpv]
    simpa [IpAddress.isInternal, hloop] using hint

section

variable [u : UnicodeTables]

/-- Resolve a hostname and classify it. Address literals skip the resolver. -/
def resolve_host (host : Text) (port : ℕ) (allow_dns : Bool) (answer : DnsAnswer) :
    Except PyExc HostInfo :=
  if (IpAddress.ip_address host).isSome then .ok (classify host port [host])
  else if allow_dns then
    match answer with
    | .addresses info => .ok (classify host port (Text.sortedSet info.addresses))
    | .gaierror message => .error (.NetGuardError
        ("cannot resolve host " ++ Text.repr host ++ ": " ++ message))
    | .unicodeError message => .error (.UnicodeError message)
  else .ok (classify host port [])

theorem resolve_host_ok {host : Text} {port : ℕ} {answer : DnsAnswer} {info : HostInfo}
    (h : resolve_host host port true answer = .ok info) :
    info = classify host port info.resolved_ips ∧ info.resolved_ips ≠ [] ∧
      (∀ ip ∈ info.resolved_ips, (IpAddress.ip_address ip).isSome) ∧
      ((IpAddress.ip_address host).isSome → info.resolved_ips = [host]) := by
  unfold resolve_host at h
  split at h
  next hlit =>
    obtain rfl := Except.ok.inj h
    exact ⟨rfl, List.cons_ne_nil _ _, fun ip hip ↦ List.mem_singleton.1 hip ▸ hlit, fun _ ↦ rfl⟩
  next hlit =>
    rw [if_pos rfl] at h
    split at h
    next answered =>
      obtain rfl := Except.ok.inj h
      refine ⟨rfl, fun hnil ↦ answered.nonempty (Text.sortedSet_eq_nil.1 hnil), fun ip hip ↦ ?_,
        fun hlit' ↦ absurd hlit' hlit⟩
      exact answered.numeric ip (Text.mem_sortedSet.1 hip)
    · cases h
    · cases h

end

end Sentrik
