import Mathlib.Data.List.TakeWhile
import Sentrik.Library.UrlText
import Sentrik.Security.Egress

/-!
# The guard and the sandbox

Both judge a destination from one record, by separate code: the guard every request, the sandbox the first
hop of a call. A redirect hop has passed the guard alone.

They differ in one place. The sandbox trims white space off the host it is given, the guard judges the host
as the URL has it. So the sandbox accepts what the guard allowed (`sandbox_accepts`) wherever the trimming
changes nothing, or the guard would have allowed the trimmed host as well (`ScopeGuard.Untrimmed`).
-/

namespace Sentrik

section

variable [u : UnicodeTables]

/-! ### White space -/

theorem Text.strip_eq_nil {t : Text} : Text.strip t = [] ↔ ∀ c ∈ t, u.isSpace c = true := by
  rw [Text.strip, List.reverse_eq_nil_iff, List.dropWhile_eq_nil_iff]
  constructor
  · intro h
    refine List.dropWhile_eq_nil_iff.1 (List.eq_nil_iff_forall_not_mem.2 fun c hc ↦ ?_)
    -- what is left after trimming on the left starts with no space
    obtain ⟨d, rest, hcons⟩ := List.exists_cons_of_ne_nil (List.ne_nil_of_mem hc)
    have hd := List.head?_dropWhile_not u.isSpace t
    rw [hcons] at hd h
    have hspace : u.isSpace d = true := h d (by simp)
    have hnot : u.isSpace d = false := by simpa using hd
    rw [hspace] at hnot
    cases hnot
  · intro h c hc
    exact h c ((List.dropWhile_suffix u.isSpace).subset (List.mem_reverse.1 hc))

omit u in
/-- Where there is nothing to cut at, the whole text precedes the cut. -/
theorem Text.partition_none {c : Char} {t before : Text} (h : Text.partition c t = (before, none)) :
    before = t := by
  obtain ⟨hbefore, hrest⟩ := Prod.mk.inj h
  have hnil : t.dropWhile (· != c) = [] := by
    cases hdrop : t.dropWhile (· != c) with
    | nil => rfl
    | cons d rest =>
      rw [hdrop] at hrest
      cases hrest
  have happend := List.takeWhile_append_dropWhile (p := (· != c)) (l := t)
  rw [hnil, List.append_nil] at happend
  exact hbefore.symm.trans happend

/-! ### What both take from the record -/

namespace ScopeGuard

/-- The guard's gates on a host: in scope, not blocked, internal only where the record permits it. -/
def HostAllowed (g : ScopeGuard) (host : Text) (port : ℕ) (answer : DnsAnswer) : Prop :=
  host ≠ [] ∧ g._host_in_scope host = true ∧
    ∃ info, resolve_host host port true answer = .ok info ∧ info.is_hard_blocked = false ∧
      ((info.is_private || info.is_loopback) = true → g._private_allowed = true)

/-- Trimming the host of a decision changes nothing, or the guard's gates pass the trimmed host too. -/
def Untrimmed (g : ScopeGuard) (d : ScopeDecision) (answer : DnsAnswer) : Prop :=
  Text.strip (d.details.host.getD []) = d.details.host.getD [] ∨
    g.HostAllowed (Text.strip (d.details.host.getD [])) (d.details.port.getD 0) answer

variable {g : ScopeGuard} {settings : Settings}

/-- A permission of the guard is one of the sandbox. -/
theorem allow_private_of_private_allowed (h : g._private_allowed = true) :
    (SandboxProfile.from_record g.record settings).allow_private = true := by
  show _PRIVATE_OK_ENVS.contains (_coerce_env g.record.environment) = true
  rw [_private_allowed] at h
  cases henv : _coerce_env g.record.environment with
  | PRODUCTION =>
    rw [henv] at h
    cases h
  | LAB | STAGING | DEVELOPMENT => rfl

section

variable [LawfulUnicodeTables]

/-- An entry of the guard that is not empty is an entry of the sandbox. -/
theorem mem_profile_hosts {entry : Text} (h : entry ∈ g._allowed_hosts) (hne : entry ≠ []) :
    entry ∈ (SandboxProfile.from_record g.record settings).allowed_hosts := by
  obtain ⟨host, hhost, rfl⟩ := List.mem_map.1 h
  obtain ⟨hmem, hhost⟩ := List.mem_filter.1 hhost
  have hstrip : Text.strip host ≠ [] := fun hnil ↦
    hne (Text.strip_eq_nil.2 (LawfulUnicodeTables.isSpace_lower (Text.strip_eq_nil.1 hnil)))
  exact List.mem_map.2 ⟨host, List.mem_filter.2 ⟨hmem, by simpa [hstrip] using hhost⟩, rfl⟩

theorem host_allowed_of_in_scope {host : Text} (h : g._host_in_scope host = true) (hne : host ≠ [])
    (hlower : u.lower host = host) :
    (SandboxProfile.from_record g.record settings).host_allowed host = true := by
  rw [SandboxProfile.host_allowed, hlower, Bool.or_eq_true, List.contains_iff_mem, List.any_eq_true]
  rw [_host_in_scope, Bool.or_eq_true, List.contains_iff_mem, List.any_eq_true] at h
  rcases h with hmem | ⟨entry, hentry, hmatch⟩
  · exact Or.inl (mem_profile_hosts hmem hne)
  · refine Or.inr ⟨entry, mem_profile_hosts hentry ?_, hmatch⟩
    rintro rfl
    rw [Bool.and_eq_true] at hmatch
    exact absurd hmatch.1 (by decide)

end

end ScopeGuard

/-! ### The parts of a URL -/

/-- The scheme and the host of a parsed URL are lower-case, and the scheme is one of two. -/
theorem parse_url_parts {url : Text} {p : ParsedUrl} (h : parse_url url = .ok p) :
    (∃ t, p.scheme = u.lower t) ∧ (p.scheme = "http".toList ∨ p.scheme = "https".toList) ∧
      ∃ (parts : Url.SplitResult) (host : Text), parts.hostname = some host ∧ p.host = u.lower host := by
  rw [parse_url] at h
  split at h
  · cases h
  split at h
  · cases h
  next parts hsplit =>
    dsimp only at h
    split at h
    · cases h
    next hscheme =>
    split at h
    · cases h
    next host hhost =>
      split at h
      · cases h
      next port _ =>
        obtain rfl := Except.ok.inj h
        refine ⟨⟨parts.scheme, rfl⟩, ?_, parts, host, hhost, rfl⟩
        by_contra hnot
        exact hscheme (not_or.1 hnot)

section

variable [LawfulUnicodeTables] {url : Text} {p : ParsedUrl}

theorem hostname_ne_nil {parts : Url.SplitResult} {host : Text} (h : parts.hostname = some host) :
    host ≠ [] := by
  rw [Url.SplitResult.hostname] at h
  split at h
  · cases h
  next hne =>
  split at h
  next name hcut =>
    obtain rfl := Option.some.inj h
    intro hnil
    -- without a zone the name is the whole of it
    have hname : name = [] := LawfulUnicodeTables.lower_eq_nil hnil
    exact hne ((Text.partition_none hcut).symm.trans hname)
  next name zone hcut =>
    obtain rfl := Option.some.inj h
    exact List.append_ne_nil_of_right_ne_nil _ (List.cons_ne_nil _ _)

theorem parse_url_host_ne_nil (h : parse_url url = .ok p) : p.host ≠ [] := by
  obtain ⟨-, -, parts, host, hhost, heq⟩ := parse_url_parts h
  rw [heq]
  exact fun hnil ↦ hostname_ne_nil hhost (LawfulUnicodeTables.lower_eq_nil hnil)

theorem lower_of_infix_host {s : Text} (h : parse_url url = .ok p) (hs : s <:+: p.host) :
    u.lower s = s := by
  obtain ⟨-, -, parts, host, -, heq⟩ := parse_url_parts h
  rw [heq] at hs
  exact LawfulUnicodeTables.lower_of_infix hs

/-- The default port of a scheme is one the sandbox assumes. -/
theorem default_port_mem (h : parse_url url = .ok p) :
    (default_port_for_scheme p.scheme : ℤ) ∈ DEFAULT_PORTS := by
  obtain ⟨⟨t, ht⟩, hscheme, -⟩ := parse_url_parts h
  have hlower : u.lower p.scheme = p.scheme := by
    rw [ht]
    exact LawfulUnicodeTables.lower_of_infix (List.infix_refl _)
  rw [default_port_for_scheme, hlower]
  rcases hscheme with hscheme | hscheme
  · rw [if_pos hscheme]
    decide
  · rw [if_neg (by rw [hscheme]; decide), if_pos hscheme]
    decide

theorem port_allowed {g : ScopeGuard} {settings : Settings} (h : parse_url url = .ok p)
    (hport : (p.port : ℤ) ∈ g.allowed_ports p.scheme) :
    (p.port : ℤ) ∈ (SandboxProfile.from_record g.record settings).allowed_ports := by
  show (p.port : ℤ) ∈ if g.record.allowed_ports = [] then DEFAULT_PORTS else g.record.allowed_ports
  rw [ScopeGuard.allowed_ports] at hport
  split at hport
  next hnone =>
    rw [if_pos hnone, List.mem_singleton.1 hport]
    exact default_port_mem h
  next hsome => rwa [if_neg hsome]

/-! ### The sandbox accepts what the guard allows -/

/-- The sandbox bound to the record accepts the destination of a decision. -/
def SandboxAccepts (record : AuthorizationRecord) (settings : Settings) (d : ScopeDecision)
    (answer : DnsAnswer) : Prop :=
  (sandbox_for record settings).assert_egress_allowed (d.details.host.getD []) (d.details.port.getD 0)
    answer = .ok ()

instance (record : AuthorizationRecord) (settings : Settings) (d : ScopeDecision) (answer : DnsAnswer) :
    Decidable (SandboxAccepts record settings d answer) :=
  inferInstanceAs (Decidable (_ = _))

omit [LawfulUnicodeTables] in
/-- The gates of the sandbox on a destination. -/
theorem assert_egress_ok {s : Sandbox} {host : Text} {port : ℕ} {answer : DnsAnswer} {info : HostInfo}
    (hne : Text.strip (u.lower host) ≠ [])
    (hhost : s.profile.host_allowed (Text.strip (u.lower host)) = true)
    (hport : (port : ℤ) ∈ s.profile.allowed_ports)
    (hinfo : resolve_host (Text.strip (u.lower host)) port true answer = .ok info)
    (hhard : info.is_hard_blocked = false)
    (hnetwork : (info.is_private || info.is_loopback) = true → s.profile.allow_private = true) :
    s.assert_egress_allowed host port answer = .ok () := by
  have hpermitted : ¬(((info.is_private || info.is_loopback) && !s.profile.allow_private) = true) := by
    intro hblocked
    rw [Bool.and_eq_true] at hblocked
    rw [hnetwork hblocked.1] at hblocked
    exact absurd hblocked.2 (by decide)
  rw [Sandbox.assert_egress_allowed]
  by_cases henforce : s._settings.sandbox_enforce_egress_allowlist = false
  · exact if_pos henforce
  rw [if_neg henforce]
  dsimp only
  rw [if_neg hne, if_neg (not_not.2 hhost), if_neg (not_not.2 hport), hinfo]
  dsimp only
  rw [hhard, if_neg Bool.false_ne_true]
  exact if_neg hpermitted

/-- A host whose trimmed text the guard's gates pass. -/
theorem assert_egress_of_hostAllowed {g : ScopeGuard} {settings : Settings} {answer : DnsAnswer}
    (h : parse_url url = .ok p) (hport : (p.port : ℤ) ∈ g.allowed_ports p.scheme)
    (hhost : g.HostAllowed (Text.strip p.host) p.port answer) :
    (sandbox_for g.record settings).assert_egress_allowed p.host p.port answer = .ok () := by
  obtain ⟨hne, hscope, info, hinfo, hhard, hnetwork⟩ := hhost
  have hlower : u.lower p.host = p.host := lower_of_infix_host h (List.infix_refl _)
  have htrimmed : u.lower (Text.strip p.host) = Text.strip p.host :=
    lower_of_infix_host h (Text.strip_infix _)
  rw [← hlower] at hne hinfo
  refine assert_egress_ok hne ?_ (port_allowed h hport) hinfo hhard fun hinternal ↦ ?_
  · rw [hlower] at hne ⊢
    exact ScopeGuard.host_allowed_of_in_scope hscope hne htrimmed
  · exact ScopeGuard.allow_private_of_private_allowed (hnetwork hinternal)

/-- What the guard allowed it allows of the host, untrimmed. -/
theorem ScopeGuard.LocationAllowed.hostAllowed {g : ScopeGuard} {answer : DnsAnswer} {info : HostInfo}
    (h : g.LocationAllowed url answer p info) : g.HostAllowed p.host p.port answer :=
  ⟨parse_url_host_ne_nil h.parsed, h.host, info, h.resolved, h.not_hard_blocked, h.network⟩

theorem sandbox_accepts_of_location {g : ScopeGuard} {settings : Settings} {answer : DnsAnswer}
    {info : HostInfo} (h : g.LocationAllowed url answer p info)
    (huntrimmed : g.Untrimmed (ScopeGuard.allowDecision p info) answer) :
    SandboxAccepts g.record settings (ScopeGuard.allowDecision p info) answer := by
  have hhost : g.HostAllowed (Text.strip p.host) p.port answer := by
    rcases huntrimmed with hsame | hallowed
    · have hstrip : Text.strip p.host = p.host := hsame
      rw [hstrip]
      exact h.hostAllowed
    · exact hallowed
  exact assert_egress_of_hostAllowed h.parsed h.port hhost

/-- **The sandbox accepts what the guard allows**, under the same answer, for every record, settings,
method and URL, if trimming the host makes no difference to the guard. So it is on every hop of every call of
any run: a request that was sent has passed the guard, and the sandbox would have let it pass. -/
theorem sandbox_accepts :
    (∀ (g : ScopeGuard) (settings : Settings) (method url : Text) (is_redirect : Bool)
      (answer : DnsAnswer) (d : ScopeDecision),
      g.check_request method url is_redirect answer = .ok d → d.allowed = true →
        g.Untrimmed d answer → SandboxAccepts g.record settings d answer) ∧
    ∀ (κ : Type) (cl : Client κ) (g : ScopeGuard) (settings : Settings) (store : κ) (clock : ℚ)
      (es : List Event) (p : Pool κ),
      Machine.run (Pool.step cl) (Pool.init g store clock) es = some p →
      ∀ s ∈ p.sent, ∃ d, g.check_request s.method s.url false s.answer = .ok d ∧ d.allowed = true ∧
        (g.Untrimmed d s.answer → SandboxAccepts g.record settings d s.answer) := by
  have hone : ∀ (g : ScopeGuard) (settings : Settings) (method url : Text) (is_redirect : Bool)
      (answer : DnsAnswer) (d : ScopeDecision),
      g.check_request method url is_redirect answer = .ok d → d.allowed = true →
        g.Untrimmed d answer → SandboxAccepts g.record settings d answer := by
    intro g settings method url is_redirect answer d hd hallowed huntrimmed
    obtain ⟨-, p, info, hloc, rfl⟩ := ScopeGuard.check_request_eq_allow_iff.1 ⟨hd, hallowed⟩
    exact sandbox_accepts_of_location hloc huntrimmed
  refine ⟨hone, fun κ cl g settings store clock es p hrun s hs ↦ ?_⟩
  obtain ⟨d, hd, hallowed⟩ := ((Pool.sent_authorized hrun).1 s hs).2
  exact ⟨d, hd, hallowed, hone g settings _ _ _ _ d hd hallowed⟩

end

end

section

attribute [local instance] asciiTables

/-- A lab record whose hosts are the names under one domain. -/
def internalRecord : AuthorizationRecord := { sampleRecord with
  environment := "lab"
  allowed_hosts := ["*.google.internal".toList] }

/-- The guard allows a host with a leading space, under a public address; the sandbox drops the space, and
finds a metadata host. -/
theorem sandbox_refuses_padded :
    ∃ d, ScopeGuard.check_request { record := internalRecord } "GET".toList
        "http:// metadata.google.internal/".toList false sampleAnswer = .ok d ∧ d.allowed = true ∧
      ¬SandboxAccepts internalRecord {} d sampleAnswer := by
  refine ⟨_, rfl, by decide +kernel, ?_⟩
  decide +kernel

theorem sandbox_accepts_sample :
    ∃ d, ScopeGuard.check_request { record := sampleRecord } "GET".toList
        "https://app.example/a".toList false sampleAnswer = .ok d ∧ d.allowed = true ∧
      SandboxAccepts sampleRecord {} d sampleAnswer := by
  obtain ⟨d, hd, hallowed, htrim⟩ : ∃ d, ScopeGuard.check_request { record := sampleRecord } "GET".toList
      "https://app.example/a".toList false sampleAnswer = .ok d ∧ d.allowed = true ∧
      Text.strip (d.details.host.getD []) = d.details.host.getD [] :=
    ⟨_, rfl, by decide +kernel, by decide +kernel⟩
  exact ⟨d, hd, hallowed, sandbox_accepts.1 _ _ _ _ _ _ d hd hallowed (Or.inl htrim)⟩

end

end Sentrik
