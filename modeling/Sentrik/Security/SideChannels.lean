import Sentrik.Security.Metadata

/-!
# Fetches beside the guarded client

The connectors fetch a specification, and the export to a security monitor posts its events, with clients of
their own. Both classify the host first and then hand over the **URL**: a client that connects to a name asks
the resolver again. So a fetch has two answers, one that is checked and one that is connected to, and nothing
ties the second to the first.

`opened` are the addresses a fetch may open a connection to. `side_channels_safe_iff` says when all of them are
public.
-/

namespace Sentrik

/-! ### The two fetches -/

/-- What the HTTP client comes back with: an error of its own, or a status and a text. -/
abbrev SideReply := Except String (ℕ × Text)

/-- How a fetch can fail. -/
inductive FetchError
  | HTTPException (status_code : ℕ) (detail : String)
  | ValueError (message : String)
  | HTTPError (message : String)
  /-- Any exception of parsing or resolving that is not caught. -/
  | other (exc : PyExc)
  deriving DecidableEq, Repr

/-- Loopback, private in the wide sense, or blocked. -/
def HostInfo.unsafeDestination (info : HostInfo) : Bool :=
  info.is_hard_blocked || info.is_private || info.is_loopback

/-- The addresses a client may connect to for a host: the one it denotes, or those the resolver answers
then. -/
def dialed (host : Text) (connect : DnsAnswer) : List IpAddress :=
  match IpAddress.ip_address host with
  | some a => [a]
  | none =>
    match connect with
    | .addresses info => info.addresses.filterMap IpAddress.ip_address
    | _ => []

section

variable [u : UnicodeTables]

/-- The classification both make, of the host as it resolves now. -/
def classifyUrl (url : Text) (check : DnsAnswer) : Except PyExc HostInfo := do
  let p ← parse_url url
  resolve_host p.host p.port true check

/-- The connectors' fetch: the addresses it may connect to, and what it returns. -/
def _guarded_fetch (url : Text) (check connect : DnsAnswer) (reply : SideReply) :
    List IpAddress × Except FetchError Text :=
  match classifyUrl url check with
  | .error (.NetGuardError message) => ([], .error (.HTTPException 422 s!"invalid/unsafe URL: {message}"))
  | .error exc => ([], .error (.other exc))
  | .ok info =>
    if info.unsafeDestination then
      ([], .error (.HTTPException 422 "connector fetch destination is private/loopback/metadata (refused)"))
    else
      (dialed info.host connect,
        match reply with
        | .error message => .error (.HTTPException 422 s!"connector fetch error: {message}")
        | .ok (status, text) =>
          if 400 ≤ status then .error (.HTTPException 422 s!"connector fetch failed: HTTP {status}")
          else .ok text)

/-- The webhook sink: the addresses it may connect to, and the status it reports. -/
def WebhookSiemSink.emit (url : Text) (check connect : DnsAnswer) (reply : SideReply) :
    List IpAddress × Except FetchError ℕ :=
  match classifyUrl url check with
  | .error (.NetGuardError message) => ([], .error (.ValueError s!"unsafe SIEM webhook URL: {message}"))
  | .error exc => ([], .error (.other exc))
  | .ok info =>
    if info.unsafeDestination then
      ([], .error (.ValueError "SIEM webhook destination is private/loopback/metadata (refused)"))
    else
      (dialed info.host connect,
        match reply with
        | .error message => .error (.HTTPError message)
        | .ok (status, _) => .ok status)

/-! ### What either opens -/

/-- The addresses a fetch may open a connection to. -/
def opened (url : Text) (check connect : DnsAnswer) : List IpAddress :=
  match classifyUrl url check with
  | .error _ => []
  | .ok info => if info.unsafeDestination then [] else dialed info.host connect

theorem guarded_fetch_opened (url : Text) (check connect : DnsAnswer) (reply : SideReply) :
    (_guarded_fetch url check connect reply).1 = opened url check connect := by
  unfold _guarded_fetch opened
  cases classifyUrl url check with
  | error exc => cases exc <;> rfl
  | ok info =>
    show (if info.unsafeDestination = true then _ else _ : List IpAddress × _).1 = _
    rw [apply_ite Prod.fst]

theorem emit_opened (url : Text) (check connect : DnsAnswer) (reply : SideReply) :
    (WebhookSiemSink.emit url check connect reply).1 = opened url check connect := by
  unfold WebhookSiemSink.emit opened
  cases classifyUrl url check with
  | error exc => cases exc <;> rfl
  | ok info =>
    show (if info.unsafeDestination = true then _ else _ : List IpAddress × _).1 = _
    rw [apply_ite Prod.fst]

/-! ### Safe destinations -/

/-- Neither internal nor a metadata address, in any spelling. -/
def SafeAddress (a : IpAddress) : Prop := a.isInternal = false ∧ a.denoted ∉ metadataAddresses

/-- The check turns the URL down: it does not parse, its host does not resolve, is blocked by name or spelled as
on the block list, or some address it resolves to is, or is internal. -/
def Refused (url : Text) (check : DnsAnswer) : Prop :=
  ∀ p, parse_url url = .ok p → consulted p.host check = [] ∨ p.host ∈ HARD_BLOCK_HOSTS ∨
    ∃ ip ∈ consulted p.host check, ip ∈ HARD_BLOCK_IPS ∨
      ∃ a, IpAddress.ip_address ip = some a ∧ a.isInternal = true

/-- **The exact condition**: the check turns the URL down, or its host is an address and not another spelling of
the metadata address that is not internal, or its host is a name and what the resolver answers to the client
is safe. -/
def SafeToFetch (url : Text) (check connect : DnsAnswer) : Prop :=
  Refused url check ∨ ∀ p, parse_url url = .ok p →
    (∀ a, IpAddress.ip_address p.host = some a → a.denoted ≠ sharedMetadata) ∧
    (IpAddress.ip_address p.host = none → ∀ a ∈ dialed p.host connect, SafeAddress a)

omit u in
theorem unsafeDestination_iff {host : Text} {port : ℕ} {ips : List Text} :
    (classify host port ips).unsafeDestination = true ↔
      host ∈ HARD_BLOCK_HOSTS ∨ ∃ ip ∈ ips, ip ∈ HARD_BLOCK_IPS ∨
        ∃ a, IpAddress.ip_address ip = some a ∧ a.isInternal = true := by
  rw [HostInfo.unsafeDestination, Bool.or_assoc, Bool.or_eq_true, classify_hard_blocked_iff,
    classify_internal_iff, or_assoc]
  refine or_congr_right ?_
  constructor
  · rintro (⟨ip, hip, h⟩ | ⟨ip, hip, h⟩)
    · exact ⟨ip, hip, Or.inl h⟩
    · exact ⟨ip, hip, Or.inr h⟩
  · rintro ⟨ip, hip, h | h⟩
    · exact Or.inl ⟨ip, hip, h⟩
    · exact Or.inr ⟨ip, hip, h⟩

/-- A resolution that consults nothing fails. -/
theorem resolve_of_not_consulted {host : Text} {check : DnsAnswer} (port : ℕ)
    (h : consulted host check = []) : ∃ exc, resolve_host host port true check = .error exc := by
  unfold consulted at h
  unfold resolve_host
  by_cases hlit : (IpAddress.ip_address host).isSome
  · rw [if_pos hlit] at h
    cases h
  rw [if_neg hlit] at h
  rw [if_neg hlit, if_pos rfl]
  cases check with
  | addresses info => exact absurd h info.nonempty
  | gaierror message => exact ⟨_, rfl⟩
  | unicodeError message => exact ⟨_, rfl⟩

/-- Where the URL parses and its host resolves, the classification of what was consulted decides. -/
theorem opened_of_consulted {url : Text} {check : DnsAnswer} {p : ParsedUrl} {ip : Text}
    (connect : DnsAnswer) (hparse : parse_url url = .ok p) (hip : ip ∈ consulted p.host check) :
    ∃ ips, (∀ ip, ip ∈ ips ↔ ip ∈ consulted p.host check) ∧
      opened url check connect =
        if (classify p.host p.port ips).unsafeDestination then [] else dialed p.host connect := by
  obtain ⟨ips, hres, hips⟩ := resolve_of_consulted p.port hip
  refine ⟨ips, hips, ?_⟩
  have hclassify : classifyUrl url check = .ok (classify p.host p.port ips) := by
    rw [classifyUrl, hparse]
    exact hres
  rw [opened, hclassify]
  rfl

/-- A fetch that is turned down opens nothing. -/
theorem opened_of_refused {url : Text} {check connect : DnsAnswer} (h : Refused url check) :
    opened url check connect = [] := by
  cases hparse : parse_url url with
  | error exc =>
    have hclassify : classifyUrl url check = .error exc := by
      rw [classifyUrl, hparse]
      rfl
    rw [opened, hclassify]
  | ok p =>
    cases hconsulted : consulted p.host check with
    | nil =>
      obtain ⟨exc, hres⟩ := resolve_of_not_consulted p.port hconsulted
      have hclassify : classifyUrl url check = .error exc := by
        rw [classifyUrl, hparse]
        exact hres
      rw [opened, hclassify]
    | cons ip rest =>
      have hip : ip ∈ consulted p.host check := by
        rw [hconsulted]
        exact List.mem_cons_self
      obtain ⟨ips, hips, hopened⟩ := opened_of_consulted connect hparse hip
      rw [hopened, if_pos]
      rw [unsafeDestination_iff]
      simp only [hips]
      rcases h p hparse with hnil | hrest
      · rw [hnil] at hip
        exact absurd hip List.not_mem_nil
      · exact hrest

/-- A fetch that is not turned down dials the host of its URL. Where that is an address, the address is not
internal, and is not spelled as on the block list. -/
theorem opened_of_not_refused {url : Text} {check : DnsAnswer} (connect : DnsAnswer)
    (h : ¬Refused url check) :
    ∃ p, parse_url url = .ok p ∧ opened url check connect = dialed p.host connect ∧
      ∀ a, IpAddress.ip_address p.host = some a → a.isInternal = false := by
  obtain ⟨p, hnot⟩ := not_forall.1 h
  obtain ⟨hparse, hnot⟩ := Classical.not_imp.1 hnot
  obtain ⟨hconsulted, hclean⟩ := not_or.1 hnot
  obtain ⟨ip, hip⟩ := List.exists_mem_of_ne_nil _ hconsulted
  obtain ⟨ips, hips, hopened⟩ := opened_of_consulted connect hparse hip
  refine ⟨p, hparse, ?_, fun a ha ↦ ?_⟩
  · rw [hopened, if_neg]
    rw [unsafeDestination_iff]
    simp only [hips]
    exact hclean
  · -- an address is all that is consulted
    have hself : p.host ∈ consulted p.host check := by
      unfold consulted
      rw [ha]
      exact List.mem_singleton_self _
    rw [← Bool.not_eq_true]
    exact fun hint ↦ hclean (Or.inr ⟨p.host, hself, Or.inr ⟨a, ha, hint⟩⟩)

omit u in
/-- An address that is not internal is safe, but for one. -/
theorem safeAddress_iff {a : IpAddress} (h : a.isInternal = false) :
    SafeAddress a ↔ a.denoted ≠ sharedMetadata := by
  have hshared : sharedMetadata ∈ metadataAddresses := by decide +kernel
  constructor
  · rintro ⟨-, hnot⟩ heq
    rw [heq] at hnot
    exact hnot hshared
  · intro hne
    refine ⟨h, fun hmem ↦ ?_⟩
    rw [isInternal_of_metadata hmem hne] at h
    cases h

/-- What a fetch may connect to is safe, exactly where `SafeToFetch` says so. -/
theorem opened_safe_iff {url : Text} {check connect : DnsAnswer} :
    (∀ a ∈ opened url check connect, SafeAddress a) ↔ SafeToFetch url check connect := by
  rw [SafeToFetch]
  by_cases hrefused : Refused url check
  · rw [opened_of_refused hrefused]
    exact iff_of_true (fun _ ha ↦ absurd ha List.not_mem_nil) (Or.inl hrefused)
  obtain ⟨p, hparse, hopened, hpublic⟩ := opened_of_not_refused connect hrefused
  rw [or_iff_right hrefused, hopened]
  have hall : ∀ P : ParsedUrl → Prop, (∀ q, parse_url url = .ok q → P q) ↔ P p := by
    intro P
    constructor
    · exact fun h ↦ h p hparse
    · intro h q hq
      obtain rfl := Except.ok.inj (hparse.symm.trans hq)
      exact h
  rw [hall]
  cases haddr : IpAddress.ip_address p.host with
  | none => simp only [reduceCtorEq, false_imp_iff, implies_true, true_and, true_imp_iff]
  | some a =>
    have hdialed : dialed p.host connect = [a] := by
      unfold dialed
      rw [haddr]
    rw [hdialed, List.forall_mem_singleton, safeAddress_iff (hpublic a haddr)]
    simp only [Option.some.injEq, forall_eq', reduceCtorEq, false_imp_iff, and_true]

/-- **Where both fetches are safe**, for every URL and for every pair of answers of the resolver. -/
theorem side_channels_safe_iff (url : Text) (check connect : DnsAnswer) (reply : SideReply) :
    ((∀ a ∈ (_guarded_fetch url check connect reply).1, SafeAddress a) ↔ SafeToFetch url check connect) ∧
      ((∀ a ∈ (WebhookSiemSink.emit url check connect reply).1, SafeAddress a) ↔
        SafeToFetch url check connect) := by
  rw [guarded_fetch_opened, emit_opened]
  exact ⟨opened_safe_iff, opened_safe_iff⟩

end

section

attribute [local instance] asciiTables

/-- A resolver that answers the metadata address. -/
def metadataAnswer : DnsAnswer := .addresses {
  addresses := ["169.254.169.254".toList]
  nonempty := List.cons_ne_nil _ _
  numeric := by decide +kernel }

/-- A name that is public when it is checked, and the metadata address when the client connects. -/
theorem side_channels_rebound :
    (_guarded_fetch "http://app.example/spec.json".toList sampleAnswer metadataAnswer (.ok (200, []))).1 =
        [.v4 0xa9fea9fe] ∧
      (WebhookSiemSink.emit "http://app.example/spec.json".toList sampleAnswer metadataAnswer
        (.ok (200, []))).1 = [.v4 0xa9fea9fe] ∧
      ¬SafeAddress (.v4 0xa9fea9fe) := by
  refine ⟨by decide +kernel, by decide +kernel, fun h ↦ ?_⟩
  exact absurd h.1 (by decide +kernel)

end

end Sentrik
