import Sentrik.Security.Scope

/-!
# Where the guard answers

`check_request` catches one class of exceptions, `NetGuardError`. Two others can leave it: the `ValueError`
of the library's splitter and of its `port`, and the `UnicodeError` of a resolver that is asked about a host
it cannot encode.

`check_request_returns_iff` says exactly where there is a decision, from the URL (`WellFormed`), the gates in
front of the resolver (`Resolves`), and what the resolver does.
-/

namespace Sentrik

/-! ### Parsing -/

section

variable [u : UnicodeTables]

/-- The library reads the URL as far as it is asked to: a URL without `://` it is not asked about, and for
its port only where the scheme is one of two and there is a host. -/
def WellFormed (url : Text) : Prop :=
  url ≠ [] → Text.hasInfix "://".toList url = true →
    ∃ parts, Url.urlsplit url = .ok parts ∧
      ((u.lower parts.scheme = "http".toList ∨ u.lower parts.scheme = "https".toList) →
        parts.hostname ≠ none → ∃ port, parts.port = .ok port)

/-- What parsing a URL comes to: parts, or one of two exceptions. -/
theorem parse_url_error {url : Text} {exc : PyExc} (h : parse_url url = .error exc) :
    (∃ message, exc = .NetGuardError message) ∨ ∃ message, exc = .ValueError message := by
  rw [parse_url] at h
  split at h
  · cases h
    exact Or.inl ⟨_, rfl⟩
  split at h
  · cases h
    exact Or.inr ⟨_, rfl⟩
  dsimp only at h
  split at h
  · cases h
    exact Or.inl ⟨_, rfl⟩
  split at h
  · cases h
    exact Or.inl ⟨_, rfl⟩
  split at h
  · cases h
    exact Or.inr ⟨_, rfl⟩
  · cases h

/-- A `ValueError` leaves the parser exactly where the library raises one. -/
theorem parse_url_value_error_iff {url : Text} :
    (∃ message, parse_url url = .error (.ValueError message)) ↔ ¬WellFormed url := by
  rw [parse_url, WellFormed]
  split
  next hmalformed =>
    refine iff_of_false (by rintro ⟨_, h⟩; cases h) (not_not.2 fun hne hinfix ↦ ?_)
    rcases hmalformed with hnil | hnot
    · exact absurd hnil hne
    · exact absurd hinfix hnot
  next hformed =>
  obtain ⟨hne, hinfix⟩ := not_or.1 hformed
  rw [not_not] at hinfix
  split
  next message hsplit =>
    refine iff_of_true ⟨_, rfl⟩ fun hwell ↦ ?_
    obtain ⟨parts, hparts, -⟩ := hwell hne hinfix
    rw [hsplit] at hparts
    cases hparts
  next parts hsplit =>
  dsimp only
  split
  next hscheme =>
    refine iff_of_false (by rintro ⟨_, h⟩; cases h)
      (not_not.2 fun _ _ ↦ ⟨parts, hsplit, fun hweb ↦ ?_⟩)
    rcases hweb with hhttp | hhttps
    · exact absurd hhttp hscheme.1
    · exact absurd hhttps hscheme.2
  next hscheme =>
  split
  next hhost =>
    exact iff_of_false (by rintro ⟨_, h⟩; cases h)
      (not_not.2 fun _ _ ↦ ⟨parts, hsplit, fun _ hsome ↦ absurd hhost hsome⟩)
  next host hhost =>
  split
  next message hport =>
    refine iff_of_true ⟨_, rfl⟩ fun hwell ↦ ?_
    obtain ⟨parts', hparts, hread⟩ := hwell hne hinfix
    obtain rfl := Except.ok.inj (hsplit.symm.trans hparts)
    obtain ⟨port, hok⟩ := hread (by tauto) (by rw [hhost]; exact Option.some_ne_none host)
    rw [hport] at hok
    cases hok
  next port hport =>
    exact iff_of_false (by rintro ⟨_, h⟩; cases h)
      (not_not.2 fun _ _ ↦ ⟨parts, hsplit, fun _ _ ↦ ⟨port, hport⟩⟩)

/-! ### Resolution -/

/-- Only a resolver that cannot encode the host raises past the guard. -/
theorem resolve_host_error {host : Text} {port : ℕ} {answer : DnsAnswer} {exc : PyExc}
    (h : resolve_host host port true answer = .error exc) :
    (∃ message, exc = .NetGuardError message) ∨
      (IpAddress.ip_address host = none ∧ ∃ message, answer = .unicodeError message) := by
  unfold resolve_host at h
  split at h
  · cases h
  next hname =>
  rw [if_pos rfl] at h
  split at h
  · cases h
  · cases h
    exact Or.inl ⟨_, rfl⟩
  next message =>
    exact Or.inr ⟨by simpa using hname, message, rfl⟩

theorem resolve_host_unicode_error {host : Text} {port : ℕ} {message : String}
    (h : IpAddress.ip_address host = none) :
    resolve_host host port true (.unicodeError message) = .error (.UnicodeError message) := by
  unfold resolve_host
  rw [h, if_neg (by simp), if_pos rfl]

/-! ### The guard -/

namespace ScopeGuard

/-- The guard asks the resolver about the host of a parsed URL: the gates in front of it pass, and the host is
no address. -/
structure Resolves (g : ScopeGuard) (method : Text) (p : ParsedUrl) : Prop where
  method : g.MethodAllowed method
  host : g._host_in_scope p.host = true
  port : (p.port : ℤ) ∈ g.allowed_ports p.scheme
  path : (g._path_decision p.path).allowed = true
  name : IpAddress.ip_address p.host = none

/-- **The exact condition**: the library reads the URL, and a resolver that is asked can encode the host. -/
def Answerable (g : ScopeGuard) (method url : Text) (answer : DnsAnswer) : Prop :=
  WellFormed url ∧
    ∀ p, parse_url url = .ok p → g.Resolves method p → ¬∃ message, answer = .unicodeError message

variable {g : ScopeGuard} {method url : Text} {is_redirect : Bool} {answer : DnsAnswer}

/-- The guard past the parser: a decision, unless the resolver is asked and raises. -/
theorem check_request_parsed {p : ParsedUrl} (hparse : parse_url url = .ok p) :
    (∃ d, g.check_request method url is_redirect answer = .ok d) ↔
      (g.Resolves method p → ¬∃ message, answer = .unicodeError message) := by
  obtain ⟨scheme, host, port, path⟩ := p
  simp only [check_request, hparse]
  split
  next hmethod =>
    exact iff_of_true ⟨_, rfl⟩ fun h ↦ absurd (h.method.1 hmethod.1) hmethod.2
  next hmethod =>
  split
  next hstate =>
    exact iff_of_true ⟨_, rfl⟩ fun h ↦ absurd (h.method.2 hstate.1) hstate.2
  next hstate =>
  have hallowed : g.MethodAllowed method :=
    ⟨fun hne ↦ by_contra fun hnot ↦ hmethod ⟨hne, hnot⟩,
      fun hin ↦ by_contra fun hnot ↦ hstate ⟨hin, hnot⟩⟩
  split
  next hhost => exact iff_of_true ⟨_, rfl⟩ fun h ↦ absurd h.host hhost
  next hhost =>
  split
  next hport => exact iff_of_true ⟨_, rfl⟩ fun h ↦ absurd h.port hport
  next hport =>
  split
  next hpath => exact iff_of_true ⟨_, rfl⟩ fun h ↦ absurd h.path hpath
  next hpath =>
  -- the resolver is all that is left
  split
  next message hres =>
    refine iff_of_true ⟨_, rfl⟩ fun h hraised ↦ ?_
    obtain ⟨m, rfl⟩ := hraised
    rw [resolve_host_unicode_error h.name] at hres
    cases hres
  next exc hne hres =>
    refine iff_of_false (fun ⟨_, h⟩ ↦ by cases h) fun h ↦ ?_
    rcases resolve_host_error hres with ⟨message, rfl⟩ | ⟨hname, hraised⟩
    · exact hne message rfl
    · exact h ⟨hallowed, not_not.1 hhost, not_not.1 hport, not_not.1 hpath, hname⟩ hraised
  next info hres =>
    refine iff_of_true ?_ fun h hraised ↦ ?_
    · split
      · exact ⟨_, rfl⟩
      split <;> exact ⟨_, rfl⟩
    · obtain ⟨m, rfl⟩ := hraised
      rw [resolve_host_unicode_error h.name] at hres
      cases hres

/-- **Where there is a decision**, for every record, method, URL and answer. -/
theorem check_request_returns_iff :
    (∃ d, g.check_request method url is_redirect answer = .ok d) ↔ g.Answerable method url answer := by
  rw [Answerable]
  cases hparse : parse_url url with
  | ok p =>
    have hwell : WellFormed url := by
      by_contra hnot
      obtain ⟨message, herror⟩ := parse_url_value_error_iff.2 hnot
      rw [hparse] at herror
      cases herror
    rw [check_request_parsed hparse]
    constructor
    · intro h
      refine ⟨hwell, fun q hq ↦ ?_⟩
      obtain rfl := Except.ok.inj hq
      exact h
    · exact fun h ↦ h.2 p rfl
  | error exc =>
    rcases parse_url_error hparse with ⟨message, rfl⟩ | ⟨message, rfl⟩
    · -- a malformed URL is denied
      have hwell : WellFormed url := by
        by_contra hnot
        obtain ⟨m, herror⟩ := parse_url_value_error_iff.2 hnot
        rw [hparse] at herror
        cases herror
      refine iff_of_true ⟨_, by rw [check_request, hparse]⟩ ⟨hwell, fun q hq ↦ by cases hq⟩
    · have hnot : ¬WellFormed url := parse_url_value_error_iff.1 ⟨message, hparse⟩
      refine iff_of_false (fun ⟨d, hd⟩ ↦ ?_) fun h ↦ hnot h.1
      rw [check_request, hparse] at hd
      cases hd

end ScopeGuard

end

end Sentrik
