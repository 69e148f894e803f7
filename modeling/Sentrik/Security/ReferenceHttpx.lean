import Sentrik.Library.DotSegments
import Sentrik.Security.HttpClient

/-!
# Assumptions on the HTTP library

What the results below assume of the library, as named hypotheses: it keeps address literals
(`Httpx.KeepsLiteral`), and it removes dot segments from the path of the URL it builds a request for
(`Httpx.RemovesDots`).

`referenceHttpx` is a small library that meets both for every URL, so the assumptions can hold
together; its `join` is exact on absolute references and on absolute paths.
-/

namespace Sentrik

/-- Scheme, host and port of a URL, rendered. -/
def origin (uri : Uri) : Text :=
  uri.scheme ++ "://".toList ++ uri.host ++
    match uri.port with
    | none => []
    | some port => ':' :: (toString port).toList

/-- The address a socket for this URL is connected to without a lookup: the one its host denotes, the
zone left out. A host name has none. -/
def Uri.peer (uri : Uri) : Option IpAddress :=
  (IpAddress.ip_address uri.host).map IpAddress.withoutZone

section

variable [u : UnicodeTables]

/-- The library keeps an address literal: a request built for a URL whose host denotes an address is
for that address. -/
def Httpx.KeepsLiteral (httpx : Httpx) : Prop :=
  ∀ method url headers params data json req parsed a,
    httpx.build_request method url headers params data json = .ok req →
      parse_url url = .ok parsed → IpAddress.ip_address parsed.host = some a →
        req.url.peer = some a.withoutZone

/-- The library removes dot segments from the path it sends. -/
def Httpx.RemovesDots (httpx : Httpx) : Prop :=
  ∀ method url headers params data json req parsed,
    httpx.build_request method url headers params data json = .ok req →
      parse_url url = .ok parsed →
        req.url.path = DotSegments.removeDotSegments parsed.path

/-- A library that meets the assumptions. -/
def referenceHttpx : Httpx where
  build_request method url headers _ data json :=
    match parse_url url with
    | .error _ => .error (.InvalidURL "Invalid URL")
    | .ok parsed => .ok {
        method := u.upper method
        url := {
          scheme := parsed.scheme
          host := parsed.host
          port := if parsed.port = default_port_for_scheme parsed.scheme then none else parsed.port
          path := DotSegments.removeDotSegments parsed.path }
        headers := ("Host".toList, parsed.host) :: headers
        content := (json.orElse fun _ ↦ data).getD [] }
  join base location :=
    if Text.hasInfix "://".toList location then .ok location
    else .ok (origin base ++ location)
  str uri := origin uri ++ uri.path

theorem referenceHttpx_keepsLiteral : referenceHttpx.KeepsLiteral := by
  intro method url headers params data json req parsed a hbuild hparse ha
  simp only [referenceHttpx, hparse, Except.ok.injEq] at hbuild
  rw [← hbuild, Uri.peer]
  simp only [ha, Option.map_some]

theorem referenceHttpx_removesDots : referenceHttpx.RemovesDots := by
  intro method url headers params data json req parsed hbuild hparse
  simp only [referenceHttpx, hparse, Except.ok.injEq] at hbuild
  rw [← hbuild]

end

/-! ### A record to run with -/

/-- An authorization for one public host, read-only, over the default port. -/
def sampleRecord : AuthorizationRecord where
  org_id := 1
  target_id := 1
  status := "verified"
  environment := "production"
  intensity := "safe_active"
  allowed_hosts := ["app.example".toList]
  rate_limit_per_sec := 1

/-- The resolver's answer for that host. -/
def sampleAnswer : DnsAnswer := .addresses {
  addresses := ["93.184.216.34".toList]
  nonempty := List.cons_ne_nil _ _
  numeric := by decide +kernel }

end Sentrik
