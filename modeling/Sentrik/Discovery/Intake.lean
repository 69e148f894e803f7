import Sentrik.Discovery.Normalize
import Sentrik.Security.ReferenceHttpx
import Sentrik.Security.Totality

/-!
# What discovery takes in

The endpoints that artifacts and the crawler report are untrusted. The phase asks the guard about each of
them, and keeps those whose host is in scope.

Nothing here catches an exception, so the phase goes through exactly where every single question is
answered: `check_request_total_iff`.
-/

namespace Sentrik

/-- Where a discovered endpoint comes from. -/
inductive Provenance
  | OPENAPI | HAR | POSTMAN | GRAPHQL | CRAWL | TRAFFIC | MANUAL
  deriving DecidableEq, Repr

def Provenance.value : Provenance → String
  | .OPENAPI => "openapi"
  | .HAR => "har"
  | .POSTMAN => "postman"
  | .GRAPHQL => "graphql"
  | .CRAWL => "crawl"
  | .TRAFFIC => "traffic"
  | .MANUAL => "manual"

namespace Discovery

/-- `PROVENANCE_CONFIDENCE`: explicit specifications are trustworthy, inference less so. -/
def PROVENANCE_CONFIDENCE : Provenance → ℚ
  | .OPENAPI => 95 / 100
  | .GRAPHQL => 90 / 100
  | .POSTMAN => 85 / 100
  | .HAR => 80 / 100
  | .TRAFFIC => 75 / 100
  | .CRAWL => 55 / 100
  | .MANUAL => 70 / 100

/-- An endpoint as a parser, the crawler or an observed exchange reports it. -/
structure DiscoveredEndpoint where
  method : Text
  url : Text
  provenance : Provenance
  path_template : Text := []
  parameters : List Dict := []
  request_body_schema : Dict := []
  auth_required : Bool := false
  roles : List Text := []
  api_version : Text := []
  confidence : ℚ := PROVENANCE_CONFIDENCE provenance

section

variable [u : UnicodeTables]

/-- The host of a URL; splitting it can raise. -/
def _host (url : Text) : Except Raised Text := do
  let parts ← (Url.urlsplit url).mapError fun _ ↦ .ValueError
  return u.lower (parts.hostname.getD [])

/-- The endpoints whose host is in scope, and the warnings about the others. Only the host decides what is
kept; what the guard says of the request is read for its code alone. Each endpoint comes with the answer
to the resolver question it may lead to. -/
def keep_in_scope (guard : ScopeGuard) :
    List (DiscoveredEndpoint × DnsAnswer) → Except Raised (List DiscoveredEndpoint × List String)
  | [] => .ok ([], [])
  | (ep, answer) :: rest => do
    let decision ← (guard.check_request ep.method ep.url false answer).mapError .client
    let host ← _host ep.url
    let (kept, warnings) ← keep_in_scope guard rest
    if (guard.evaluate_new_asset host).allowed then return (ep :: kept, warnings)
    else if decision.code = "host_out_of_scope" then
      return (kept, s!"excluded out-of-scope asset: {String.ofList host}" :: warnings)
    else return (kept, warnings)

/-- The library splits the URL. -/
def Splittable (url : Text) : Prop := ∃ parts, Url.urlsplit url = .ok parts

theorem host_returns_iff {url : Text} : (∃ host, _host url = .ok host) ↔ Splittable url := by
  rw [_host, Splittable]
  cases Url.urlsplit url with
  | ok parts => exact iff_of_true ⟨_, rfl⟩ ⟨parts, rfl⟩
  | error message => exact iff_of_false (fun ⟨_, h⟩ ↦ by cases h) fun ⟨_, h⟩ ↦ by cases h

/-- The phase goes through exactly where each endpoint does. -/
theorem keep_in_scope_returns_iff {guard : ScopeGuard} {discovered : List (DiscoveredEndpoint × DnsAnswer)} :
    (∃ kept, keep_in_scope guard discovered = .ok kept) ↔
      ∀ x ∈ discovered, guard.Answerable x.1.method x.1.url x.2 ∧ Splittable x.1.url := by
  induction discovered with
  | nil => exact iff_of_true ⟨_, rfl⟩ fun _ hx ↦ absurd hx List.not_mem_nil
  | cons x rest ih =>
    obtain ⟨ep, answer⟩ := x
    rw [List.forall_mem_cons, ← ih, keep_in_scope]
    have hreturns : (∃ d, guard.check_request ep.method ep.url false answer = .ok d) ↔
        guard.Answerable ep.method ep.url answer := ScopeGuard.check_request_returns_iff
    have hhost : (∃ host, _host ep.url = .ok host) ↔ Splittable ep.url := host_returns_iff
    cases hdecision : guard.check_request ep.method ep.url false answer with
    | error exc =>
      rw [hdecision] at hreturns
      have hnot : ¬guard.Answerable ep.method ep.url answer := fun h ↦ by
        obtain ⟨d, hd⟩ := hreturns.2 h
        cases hd
      exact iff_of_false (fun ⟨_, h⟩ ↦ by cases h) fun h ↦ hnot h.1.1
    | ok decision =>
      have hanswer := hreturns.1 ⟨decision, hdecision⟩
      cases hh : _host ep.url with
      | error exc =>
        rw [hh] at hhost
        have hnot : ¬Splittable ep.url := fun h ↦ by
          obtain ⟨host, hok⟩ := hhost.2 h
          cases hok
        exact iff_of_false (fun ⟨_, h⟩ ↦ by cases h) fun h ↦ hnot h.1.2
      | ok host =>
        have hsplit := hhost.1 ⟨host, hh⟩
        -- the rest of the loop decides
        cases hrest : keep_in_scope guard rest with
        | error exc => exact iff_of_false (fun ⟨_, h⟩ ↦ by cases h) fun ⟨_, _, h⟩ ↦ by cases h
        | ok kept =>
          refine iff_of_true ?_ ⟨⟨hanswer, hsplit⟩, kept, rfl⟩
          show ∃ kept', (if (guard.evaluate_new_asset host).allowed = true then
            Except.ok (ep :: kept.1, kept.2) else if decision.code = "host_out_of_scope" then
              .ok (kept.1, s!"excluded out-of-scope asset: {String.ofList host}" :: kept.2)
            else .ok (kept.1, kept.2)) = Except.ok kept'
          split
          · exact ⟨_, rfl⟩
          split <;> exact ⟨_, rfl⟩

/-- **Where the guard decides, and where discovery goes through**, for every record: a request is decided
exactly where it is `Answerable`, and the scope filter of the phase returns exactly where every endpoint it
is given is, and has a URL that splits. -/
theorem check_request_total_iff (g : ScopeGuard) :
    (∀ (method url : Text) (is_redirect : Bool) (answer : DnsAnswer),
      (∃ d, g.check_request method url is_redirect answer = .ok d) ↔ g.Answerable method url answer) ∧
    ∀ discovered : List (DiscoveredEndpoint × DnsAnswer),
      (∃ kept, keep_in_scope g discovered = .ok kept) ↔
        ∀ x ∈ discovered, g.Answerable x.1.method x.1.url x.2 ∧ Splittable x.1.url :=
  ⟨fun _ _ _ _ ↦ ScopeGuard.check_request_returns_iff, fun _ ↦ keep_in_scope_returns_iff⟩

end

section

attribute [local instance] asciiTables

/-- An endpoint of an uploaded artifact. -/
def uploaded (url : String) : DiscoveredEndpoint where
  method := "GET".toList
  url := url.toList
  provenance := .HAR

/-- An unbalanced bracket, a port that is no number, and what the first does to the endpoints beside it. -/
theorem check_request_raises :
    (¬∃ d, ScopeGuard.check_request { record := sampleRecord } "GET".toList "http://[::1/".toList false
      sampleAnswer = .ok d) ∧
    (¬∃ d, ScopeGuard.check_request { record := sampleRecord } "GET".toList "https://app.example:x/".toList
      false sampleAnswer = .ok d) ∧
    ¬∃ kept, keep_in_scope { record := sampleRecord }
      [(uploaded "https://app.example/a", sampleAnswer), (uploaded "http://[::1/", sampleAnswer)] =
        .ok kept := by
  have hbracket : ¬∃ d, ScopeGuard.check_request { record := sampleRecord } "GET".toList
      "http://[::1/".toList false sampleAnswer = .ok d := fun ⟨_, hd⟩ ↦ by cases hd
  refine ⟨hbracket, fun ⟨_, hd⟩ ↦ (by cases hd), fun hkept ↦ ?_⟩
  have hanswer := (keep_in_scope_returns_iff.1 hkept (uploaded "http://[::1/", sampleAnswer) (by simp)).1
  exact hbracket (ScopeGuard.check_request_returns_iff.2 hanswer)

end

end Discovery

end Sentrik
