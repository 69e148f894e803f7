import Sentrik.Security.PoolMoves
import Sentrik.Security.ReferenceHttpx

/-!
# The path policy and the path that is sent

The gate judges the path as `urlsplit` cuts it out of the URL; the library sends that path with its
dot segments removed. `PathPolicyHolds` says, of one URL, that the difference never matters: whatever
record allows the URL, the path on the wire passes the path policy of that record too.

The removal can take a path out of every allowed prefix or into a denied one, so the property depends
on the URL alone: it holds exactly for the URLs without a dot segment (`pathPolicyHolds_iff`). For the
others the separating policy is the allowlist with the one pattern that matches the original path and
nothing else.
-/

namespace Sentrik

section

variable [u : UnicodeTables]

/-- A request for `url` that some guard allows is built from it as `req`, under the guard `g`. -/
structure Allows (httpx : Httpx) (url : Text) (g : ScopeGuard) (req : HttpxRequest) : Prop where
  intro ::
  built : ∃ method is_redirect answer d headers params data json,
    g.check_request method url is_redirect answer = .ok d ∧ d.allowed = true ∧
      _build_pinned httpx method url (d.details.ips.getD []) headers params data json = .ok req

/-- Whatever record allows the URL, the path that is sent passes its path policy. -/
def PathPolicyHolds (httpx : Httpx) (url : Text) : Prop :=
  ∀ g req, Allows httpx url g req → (g._path_decision req.url.path).allowed = true

/-- The path of a URL has a complete `.` or `..` segment. -/
def HasDotSegment (url : Text) : Prop :=
  ∃ parsed, parse_url url = .ok parsed ∧
    ∃ seg ∈ Text.split '/' parsed.path, DotSegments.IsDot seg

/-! ### What is sent -/

/-- Pinning leaves the path alone. -/
theorem build_pinned_path {httpx : Httpx} (hdots : httpx.RemovesDots) {method url : Text}
    {ips : List Text} {headers : List (Text × Text)} {params : Option (List (Text × Text))}
    {data json : Option Text} {req : HttpxRequest} {parsed : ParsedUrl} (hparse : parse_url url = .ok parsed)
    (h : _build_pinned httpx method url ips headers params data json = .ok req) :
    req.url.path = DotSegments.removeDotSegments parsed.path := by
  simp only [_build_pinned, bind, Except.bind, hparse] at h
  split at h
  · cases h
  next built hbuilt =>
  have hpath := hdots _ _ _ _ _ _ _ _ hbuilt hparse
  split at h
  · exact Except.ok.inj h ▸ hpath
  split at h
  · exact Except.ok.inj h ▸ hpath
  · rw [← Except.ok.inj h]
    exact hpath

/-- On a parsed path, the removal changes nothing iff there is no dot segment. -/
theorem removeDotSegments_parsed {url : Text} {parsed : ParsedUrl}
    (hparse : parse_url url = .ok parsed) :
    DotSegments.removeDotSegments parsed.path = parsed.path ↔ ¬HasDotSegment url := by
  obtain ⟨t, ht⟩ := parse_url_path hparse
  rw [ht, DotSegments.removeDotSegments_eq_self_iff]
  constructor
  · rintro h ⟨parsed', hparse', seg, hseg, hdot⟩
    obtain rfl : parsed' = parsed := Except.ok.inj (hparse'.symm.trans hparse)
    rw [ht, Text.split, if_pos rfl] at hseg
    rcases List.mem_cons.1 hseg with rfl | hseg
    · exact absurd hdot (by decide)
    · exact h seg hseg hdot
  · intro h seg hseg hdot
    refine h ⟨parsed, hparse, seg, ?_, hdot⟩
    rw [ht, Text.split, if_pos rfl]
    exact List.mem_cons_of_mem _ hseg

/-! ### The separating policy -/

/-- The guard that allows one path only. -/
def ScopeGuard.onlyPath (g : ScopeGuard) (path : Text) : ScopeGuard :=
  { g with record := { g.record with
      path_allowlist := [Glob.escape path]
      path_denylist := [] } }

theorem onlyPath_allowed (g : ScopeGuard) (path : Text) :
    ((g.onlyPath path)._path_decision path).allowed = true := by
  rw [ScopeGuard._path_decision_allowed]
  refine ⟨fun deny hdeny ↦ absurd hdeny List.not_mem_nil, fun _ ↦
    ⟨Glob.escape path, List.mem_singleton_self _, ?_⟩⟩
  rw [ScopeGuard.pathMatches, Bool.or_eq_true]
  exact Or.inr (Glob.fnmatch_escape.2 rfl)

/-- No other path that is no longer passes. -/
theorem eq_of_onlyPath_allowed {g : ScopeGuard} {path path' : Text}
    (hlen : path'.length ≤ path.length)
    (h : ((g.onlyPath path)._path_decision path').allowed = true) : path' = path := by
  obtain ⟨-, hallow⟩ := ScopeGuard._path_decision_allowed.1 h
  obtain ⟨allow, hmem, hmatch⟩ := hallow (List.cons_ne_nil _ _)
  rw [List.mem_singleton.1 hmem, ScopeGuard.pathMatches, Bool.or_eq_true] at hmatch
  rcases hmatch with hprefix | hglob
  · exact Glob.eq_of_escape_isPrefixOf (Text.startswith_iff.1 hprefix) hlen
  · exact Glob.fnmatch_escape.1 hglob

/-- Narrowing the path policy to the path of an allowed URL still allows the URL. -/
theorem allows_onlyPath {httpx : Httpx} {url : Text} {g : ScopeGuard} {req : HttpxRequest}
    {parsed : ParsedUrl} (hparse : parse_url url = .ok parsed) (h : Allows httpx url g req) :
    Allows httpx url (g.onlyPath parsed.path) req := by
  obtain ⟨method, r, answer, d, headers, params, data, json, hcheck, hd, hbuild⟩ := h.built
  obtain ⟨hmethod, q, info, hloc, rfl⟩ := ScopeGuard.check_request_eq_allow_iff.1 ⟨hcheck, hd⟩
  obtain rfl : q = parsed := Except.ok.inj (hloc.parsed.symm.trans hparse)
  have hloc' : (g.onlyPath q.path).LocationAllowed url answer q info :=
    ⟨hloc.parsed, hloc.host, hloc.port, onlyPath_allowed g q.path, hloc.resolved,
      hloc.not_hard_blocked, hloc.network⟩
  obtain ⟨hcheck', hd'⟩ : (g.onlyPath q.path).check_request method url r answer =
      .ok (ScopeGuard.allowDecision q info) ∧ (ScopeGuard.allowDecision q info).allowed = true :=
    ScopeGuard.check_request_eq_allow_iff.2 ⟨hmethod, q, info, hloc', rfl⟩
  exact ⟨method, r, answer, _, headers, params, data, json, hcheck', hd', hbuild⟩

/-! ### When the policy holds -/

/-- **Exactly when the path policy holds on the wire.** For a URL that is ever allowed and sent, the
path that is sent passes the path policy of every record that allows the URL iff the path of the URL
has no dot segment. -/
theorem pathPolicyHolds_iff {httpx : Httpx} (hdots : httpx.RemovesDots) {url : Text}
    {g₀ : ScopeGuard} {req₀ : HttpxRequest} (hsent : Allows httpx url g₀ req₀) :
    PathPolicyHolds httpx url ↔ ¬HasDotSegment url := by
  obtain ⟨method, r, answer, d, headers, params, data, json, hcheck, hd, hbuild⟩ := hsent.built
  obtain ⟨-, parsed, info, hloc, -⟩ := ScopeGuard.check_request_eq_allow_iff.1 ⟨hcheck, hd⟩
  have hpath := build_pinned_path hdots hloc.parsed hbuild
  rw [← removeDotSegments_parsed hloc.parsed]
  constructor
  · intro hholds
    have hwire := hholds _ _ (allows_onlyPath hloc.parsed hsent)
    rw [hpath] at hwire
    exact eq_of_onlyPath_allowed (DotSegments.length_removeDotSegments_le _) hwire
  · rintro hsame g req ⟨method', r', answer', d', headers', params', data', json', hcheck', hd',
      hbuild'⟩
    obtain ⟨-, parsed', info', hloc', -⟩ :=
      ScopeGuard.check_request_eq_allow_iff.1 ⟨hcheck', hd'⟩
    obtain rfl : parsed' = parsed := Except.ok.inj (hloc'.parsed.symm.trans hloc.parsed)
    rw [build_pinned_path hdots hloc'.parsed hbuild', hsame]
    exact hloc'.path

end

section

attribute [local instance] asciiTables

/-- The same record with one allowed path prefix. -/
def publicRecord : AuthorizationRecord :=
  { sampleRecord with path_allowlist := ["/public/".toList] }

/-- A URL whose path starts with the prefix and climbs out of it. -/
def climbingUrl : Text := "https://app.example/public/../admin".toList

/-- What the reference library builds for it. -/
def climbingRequest : HttpxRequest where
  method := "GET".toList
  url := {
    scheme := "https".toList
    host := "93.184.216.34".toList
    port := none
    path := "/admin".toList }
  headers := [("Host".toList, "app.example".toList)]
  sni_hostname := some "app.example".toList

theorem climbingUrl_allows :
    Allows referenceHttpx climbingUrl { record := publicRecord } climbingRequest := by
  let decision := ScopeGuard.allowDecision
    ⟨"https".toList, "app.example".toList, 443, "/public/../admin".toList⟩
    (classify "app.example".toList 443 ["93.184.216.34".toList])
  refine ⟨"GET".toList, false, sampleAnswer, decision, [], none, none, none, ?_, rfl, ?_⟩
  · decide +kernel
  · decide +kernel

/-- The URL is allowed by the record, and the path sent for it is not. -/
theorem climbingUrl_not_holds :
    ∃ req, Allows referenceHttpx climbingUrl { record := publicRecord } req ∧
      req.url.path = "/admin".toList ∧
      (ScopeGuard._path_decision { record := publicRecord } req.url.path).allowed = false :=
  ⟨climbingRequest, climbingUrl_allows, rfl, by decide +kernel⟩

theorem pathPolicyHolds_climbingUrl :
    PathPolicyHolds referenceHttpx climbingUrl ↔ ¬HasDotSegment climbingUrl :=
  pathPolicyHolds_iff referenceHttpx_removesDots climbingUrl_allows

end

end Sentrik
