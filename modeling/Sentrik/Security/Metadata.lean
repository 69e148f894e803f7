import Sentrik.Security.ReferenceHttpx
import Sentrik.Security.Totality

/-!
# Metadata addresses in every spelling

The block list is compared with a consulted address as a **text**. An address has many texts: groups are
padded with zeros, digits are upper-case, an address of the first family is mapped into the second, a zone
is added. `IpAddress.denoted` is the address behind a text.

For two of the three addresses another spelling is still that of an internal address
(`isInternal_of_metadata`), which production refuses and a lab permits; the third is not internal at all.
`metadata_denied_iff` is exact.
-/

namespace IpAddress

/-- The address behind an address value: the mapped one where one is mapped, without its zone. -/
def denoted : IpAddress → IpAddress
  | v4 v => v4 v
  | v6 v _ =>
    match ipv4Mapped v with
    | some m => v4 m
    | none => v6 v none

/-- A mapped address is judged as the address it maps, but for the loopback test. -/
theorem is_private_denoted (a : IpAddress) : a.denoted.is_private = a.is_private := by
  cases a with
  | v4 v => rfl
  | v6 v zone =>
    rw [denoted, is_private]
    cases hm : ipv4Mapped v with
    | some m => rfl
    | none =>
      show (match ipv4Mapped v with
        | some m => isPrivate4 m
        | none => privateNetworks6.any (·.contains v) && !privateExceptions6.any (·.contains v)) = _
      rw [hm]

end IpAddress

namespace Sentrik

/-! ### The addresses -/

/-- The addresses on the block list. -/
def metadataAddresses : List IpAddress :=
  HARD_BLOCK_IPS.filterMap fun ip ↦ (IpAddress.ip_address ip).map IpAddress.denoted

/-- The one that is not internal. -/
def sharedMetadata : IpAddress := .v4 0x64646464

/-- In any spelling, the others are internal. -/
theorem isInternal_of_metadata {a : IpAddress} (h : a.denoted ∈ metadataAddresses)
    (hne : a.denoted ≠ sharedMetadata) : a.isInternal = true := by
  have hprivate : ∀ b ∈ metadataAddresses, b ≠ sharedMetadata → b.is_private = true := by decide +kernel
  have hdenoted := hprivate a.denoted h hne
  rw [IpAddress.is_private_denoted] at hdenoted
  rw [IpAddress.isInternal, hdenoted, Bool.or_true, Bool.true_or, Bool.true_or]

section

variable [u : UnicodeTables]

/-- The texts a decision consults: an address literal itself, or what the resolver answers. -/
def consulted (host : Text) (answer : DnsAnswer) : List Text :=
  if (IpAddress.ip_address host).isSome then [host]
  else
    match answer with
    | .addresses info => info.addresses
    | _ => []

/-- The host denotes a metadata address, or resolves to one. -/
def ReachesMetadata (url : Text) (answer : DnsAnswer) : Prop :=
  ∃ p, parse_url url = .ok p ∧ ∃ ip ∈ consulted p.host answer, ∃ a, IpAddress.ip_address ip = some a ∧
    a.denoted ∈ metadataAddresses

/-- **The exact condition**: another gate refuses, or the host is blocked by name, or a consulted address is
spelled as on the list, or one is internal and internal addresses are not permitted. -/
def Caught (g : ScopeGuard) (method : Text) (p : ParsedUrl) (answer : DnsAnswer) : Prop :=
  ¬(g.MethodAllowed method ∧ g._host_in_scope p.host = true ∧ (p.port : ℤ) ∈ g.allowed_ports p.scheme ∧
      (g._path_decision p.path).allowed = true) ∨
    p.host ∈ HARD_BLOCK_HOSTS ∨ (∃ ip ∈ consulted p.host answer, ip ∈ HARD_BLOCK_IPS) ∨
    g._private_allowed = false ∧
      ∃ ip ∈ consulted p.host answer, ∃ a, IpAddress.ip_address ip = some a ∧ a.isInternal = true

/-! ### Classification of what was consulted -/

omit u in
theorem isInternal_iff {ip : Text} :
    ((_classify_ip ip).1 || (_classify_ip ip).2) = true ↔
      ∃ a, IpAddress.ip_address ip = some a ∧ a.isInternal = true := by
  rw [_classify_ip]
  cases IpAddress.ip_address ip with
  | none => simp
  | some a =>
    show (a.is_loopback || (a.is_private || a.is_link_local || a.is_reserved)) = true ↔ _
    rw [← Bool.or_assoc, ← Bool.or_assoc]
    constructor
    · exact fun h ↦ ⟨a, rfl, h⟩
    · rintro ⟨b, hb, h⟩
      exact Option.some.inj hb ▸ h

omit u in
/-- A classified host is internal exactly when one of its addresses is. -/
theorem classify_internal_iff {host : Text} {port : ℕ} {ips : List Text} :
    ((classify host port ips).is_private || (classify host port ips).is_loopback) = true ↔
      ∃ ip ∈ ips, ∃ a, IpAddress.ip_address ip = some a ∧ a.isInternal = true := by
  show ((ips.any fun ip ↦ (_classify_ip ip).2) || ips.any fun ip ↦ (_classify_ip ip).1) = true ↔ _
  simp only [← isInternal_iff, Bool.or_eq_true, List.any_eq_true]
  constructor
  · rintro (⟨ip, hip, h⟩ | ⟨ip, hip, h⟩)
    · exact ⟨ip, hip, Or.inr h⟩
    · exact ⟨ip, hip, Or.inl h⟩
  · rintro ⟨ip, hip, h | h⟩
    · exact Or.inr ⟨ip, hip, h⟩
    · exact Or.inl ⟨ip, hip, h⟩

omit u in
theorem classify_hard_blocked_iff {host : Text} {port : ℕ} {ips : List Text} :
    (classify host port ips).is_hard_blocked = true ↔
      host ∈ HARD_BLOCK_HOSTS ∨ ∃ ip ∈ ips, ip ∈ HARD_BLOCK_IPS := by
  rw [classify, Bool.or_eq_true, List.any_eq_true, List.contains_iff_mem]
  simp only [List.contains_iff_mem]

/-- Where something was consulted the resolution succeeds, with the consulted addresses. -/
theorem resolve_of_consulted {host ip : Text} {answer : DnsAnswer} (port : ℕ)
    (h : ip ∈ consulted host answer) :
    ∃ ips, resolve_host host port true answer = .ok (classify host port ips) ∧
      ∀ ip, ip ∈ ips ↔ ip ∈ consulted host answer := by
  unfold resolve_host
  unfold consulted at h ⊢
  by_cases hname : (IpAddress.ip_address host).isSome
  · rw [if_pos hname, if_pos hname]
    exact ⟨[host], rfl, fun _ ↦ Iff.rfl⟩
  rw [if_neg hname] at h
  rw [if_neg hname, if_neg hname, if_pos rfl]
  cases answer with
  | addresses info => exact ⟨_, rfl, fun _ ↦ Text.mem_sortedSet⟩
  | gaierror message => exact absurd h List.not_mem_nil
  | unicodeError message => exact absurd h List.not_mem_nil

/-! ### The guard -/

variable {g : ScopeGuard} {method url : Text} {is_redirect : Bool} {answer : DnsAnswer}

/-- A request that consults an address is answered. -/
theorem answerable_of_consulted {p : ParsedUrl} {ip : Text} (hparse : parse_url url = .ok p)
    (h : ip ∈ consulted p.host answer) :
    ∃ d, g.check_request method url is_redirect answer = .ok d := by
  refine (ScopeGuard.check_request_parsed hparse).2 fun hresolves hraised ↦ ?_
  obtain ⟨message, rfl⟩ := hraised
  have hnone : consulted p.host (.unicodeError message) = [] := by
    unfold consulted
    rw [hresolves.name]
    rfl
  rw [hnone] at h
  exact absurd h List.not_mem_nil

/-- The guard allows a request that consults an address exactly where nothing catches it. -/
theorem allowed_iff_not_caught {p : ParsedUrl} {ip : Text} (hparse : parse_url url = .ok p)
    (h : ip ∈ consulted p.host answer) :
    (∃ d, g.check_request method url is_redirect answer = .ok d ∧ d.allowed = true) ↔
      ¬Caught g method p answer := by
  obtain ⟨ips, hres, hips⟩ := resolve_of_consulted p.port h
  have hinternal : ((classify p.host p.port ips).is_private || (classify p.host p.port ips).is_loopback) =
      true ↔ _ := classify_internal_iff
  have hblocked : (classify p.host p.port ips).is_hard_blocked = true ↔ _ := classify_hard_blocked_iff
  simp only [hips] at hinternal hblocked
  rw [ScopeGuard.check_request_allowed_iff, Caught]
  constructor
  · rintro ⟨hmethod, q, info, hloc⟩
    obtain rfl := Except.ok.inj (hparse.symm.trans hloc.parsed)
    obtain rfl := Except.ok.inj (hres.symm.trans hloc.resolved)
    rintro (hgate | hname | hspelled | ⟨hpermit, hint⟩)
    · exact hgate ⟨hmethod, hloc.host, hloc.port, hloc.path⟩
    · exact absurd hloc.not_hard_blocked (by rw [hblocked.2 (Or.inl hname)]; decide)
    · exact absurd hloc.not_hard_blocked (by rw [hblocked.2 (Or.inr hspelled)]; decide)
    · rw [hloc.network (hinternal.2 hint)] at hpermit
      cases hpermit
  · intro hnot
    obtain ⟨hgates, hrest⟩ := not_or.1 hnot
    obtain ⟨hname, hrest⟩ := not_or.1 hrest
    obtain ⟨hspelled, hnetwork⟩ := not_or.1 hrest
    obtain ⟨hmethod, hhost, hport, hpath⟩ := not_not.1 hgates
    refine ⟨hmethod, p, classify p.host p.port ips, hparse, hhost, hport, hpath, hres, ?_, fun hint ↦ ?_⟩
    · rw [← Bool.not_eq_true, hblocked]
      exact not_or.2 ⟨hname, hspelled⟩
    · rw [← Bool.not_eq_false]
      exact fun hpermit ↦ hnetwork ⟨hpermit, hinternal.1 hint⟩

/-- **Where a metadata address is refused**, for every record, environment, method, URL and answer. -/
theorem metadata_denied_iff (g : ScopeGuard) (method url : Text) (is_redirect : Bool)
    (answer : DnsAnswer) :
    (ReachesMetadata url answer →
      ∃ d, g.check_request method url is_redirect answer = .ok d ∧ d.allowed = false) ↔
    (ReachesMetadata url answer → ∀ p, parse_url url = .ok p → Caught g method p answer) := by
  refine forall_congr' fun hreach ↦ ?_
  obtain ⟨p, hparse, ip, hip, -⟩ := hreach
  have hall : (∀ q, parse_url url = .ok q → Caught g method q answer) ↔ Caught g method p answer := by
    constructor
    · exact fun h ↦ h p hparse
    · intro h q hq
      obtain rfl := Except.ok.inj (hparse.symm.trans hq)
      exact h
  have hallowed : (∃ d, g.check_request method url is_redirect answer = .ok d ∧ d.allowed = true) ↔
      ¬Caught g method p answer := allowed_iff_not_caught hparse hip
  obtain ⟨d, hd⟩ : ∃ d, g.check_request method url is_redirect answer = .ok d :=
    answerable_of_consulted hparse hip
  rw [hall, ← not_iff_not, ← hallowed, hd]
  constructor
  · intro hnot
    refine ⟨d, rfl, ?_⟩
    rw [← Bool.not_eq_false]
    exact fun hdenied ↦ hnot ⟨d, rfl, hdenied⟩
  · rintro ⟨d', hd', hallowed'⟩ ⟨d'', hd'', hdenied⟩
    obtain rfl := (Except.ok.inj hd').symm.trans (Except.ok.inj hd'')
    rw [hallowed'] at hdenied
    cases hdenied

end

section

attribute [local instance] asciiTables

/-- A verified lab record. -/
def labRecord : AuthorizationRecord := { sampleRecord with environment := "lab" }

/-- A resolver that answers a metadata address, mapped into the second family. -/
def mappedAnswer : DnsAnswer := .addresses {
  addresses := ["::ffff:169.254.169.254".toList]
  nonempty := List.cons_ne_nil _ _
  numeric := by decide +kernel }

/-- A name in scope whose address is a mapped metadata address is allowed in a lab. -/
theorem metadata_allowed_mapped :
    ReachesMetadata "http://app.example/".toList mappedAnswer ∧
      ∃ d, ScopeGuard.check_request { record := labRecord } "GET".toList "http://app.example/".toList false
        mappedAnswer = .ok d ∧ d.allowed = true := by
  refine ⟨⟨_, rfl, "::ffff:169.254.169.254".toList, ?_, .v6 0xffffa9fea9fe none, by decide +kernel,
    by decide +kernel⟩, _, rfl, by decide +kernel⟩
  decide +kernel

end

end Sentrik
