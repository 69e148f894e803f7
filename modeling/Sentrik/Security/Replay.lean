import Sentrik.Security.Redirects

/-!
# What every hop repeats

A hop has its own method, URL, addresses and body. The headers and the parameters are those the caller
passed, on every hop: `Pool.sent_for` ties each logged request to the arguments of its call.

What follows from that needs little of the library: what it does to the query of a URL with the parameters
of a request (`Httpx.AppliesParams`), and that it sends the headers it is given (`Httpx.KeepsHeaders`).

* `redirect_faithful_iff`: where a redirected request has the path and the query of the location that was
  authorized.
* `headers_stay_iff`: where the caller's headers stay with the origin of the caller's URL.
-/

namespace Sentrik

section

variable [u : UnicodeTables] {κ : Type}

/-! ### The arguments behind a logged request -/

/-- The logged request is the pinned build of its hop from these arguments. -/
def Sent.For (httpx : Httpx) (args : Args) (s : Sent) : Prop :=
  ∃ data json, _build_pinned httpx s.method s.url s.ips args.headers args.params data json = .ok s.request

namespace Pool

variable {cl : Client κ} {g : ScopeGuard} {p p₀ p' : Pool κ} {i : ℕ} {c c' : Call}

/-- Every logged request is for the arguments of its call. -/
def SentFor (cl : Client κ) (p : Pool κ) : Prop :=
  ∀ s ∈ p.sent, ∃ c, p.calls[s.call]? = some c ∧ s.For cl.httpx c.args

/-- What a segment of call `i` adds to the log: nothing, or a request it built. -/
def Logs (cl : Client κ) (i : ℕ) (c : Call) (p p' : Pool κ) : Prop :=
  p'.sent = p.sent ∨ ∃ req, build cl c = .ok req ∧ p'.sent = p.sent ++ [entry i c req]

theorem Advance.logs (h : Advance cl p i c p' c') : Logs cl i c p p' := by
  cases h with
  | waits _ _ same => exact Or.inl same.sent
  | counts _ _ sent _ _ => exact Or.inl sent
  | fails _ _ sent _ _ => exact Or.inl sent
  | sends req built _ _ _ _ sent => exact Or.inr ⟨req, built, sent⟩

theorem Emit.logs (h : Emit cl p i c p' c') : Logs cl i c p p' := by
  cases h with
  | fails _ same => exact Or.inl same.sent
  | sends req built _ _ _ _ sent => exact Or.inr ⟨req, built, sent⟩

theorem Advance.args_eq (h : Advance cl p i c p' c') : c'.args = c.args := by cases h <;> rfl

theorem Emit.args_eq (h : Emit cl p i c p' c') : c'.args = c.args := by cases h <;> rfl

theorem Logs.of_same (h : Logs cl i c p₀ p') (same : Same p p₀) : Logs cl i c p p' := by
  rw [Logs, ← same.sent]
  exact h

/-- Writing a call whose arguments stay, after a segment of it. -/
theorem SentFor.put (h : SentFor cl p) {l : List Call} (hputs : Puts p.calls i c' l)
    (hkept : ∀ b, p.calls[i]? = some b → c'.args = b.args) (hargs : c'.args = c.args)
    (hlogs : Logs cl i c p p') : SentFor cl { p' with calls := l } := by
  have hold : ∀ s ∈ p.sent, ∃ b, l[s.call]? = some b ∧ s.For cl.httpx b.args := by
    intro s hs
    obtain ⟨b, hb, hfor⟩ := h s hs
    by_cases hi : s.call = i
    · rw [hi] at hb ⊢
      exact ⟨c', hputs.self, hkept b hb ▸ hfor⟩
    · exact ⟨b, (hputs.other _ hi).trans hb, hfor⟩
  intro s hs
  have hs' : s ∈ p'.sent := hs
  rcases hlogs with hsame | ⟨req, hbuilt, happend⟩
  · rw [hsame] at hs'
    exact hold s hs'
  · rw [happend] at hs'
    rcases List.mem_append.1 hs' with hs' | hs'
    · exact hold s hs'
    · obtain rfl := List.mem_singleton.1 hs'
      refine ⟨c', hputs.self, c.data, c.json, ?_⟩
      rw [hargs]
      exact hbuilt

omit u in
/-- A fresh slot holds no call. -/
theorem fresh_kept {c' : Call} : ∀ b, p.calls[p.calls.length]? = some b → c'.args = b.args := by
  intro b hb
  rw [List.getElem?_eq_none le_rfl] at hb
  cases hb

omit u in
theorem slot_kept (hc : p.calls[i]? = some c) (hargs : c'.args = c.args) :
    ∀ b, p.calls[i]? = some b → c'.args = b.args := by
  intro b hb
  rw [← Option.some.inj (hc.symm.trans hb)]
  exact hargs

/-- Every step keeps it: no step changes the arguments of a call. -/
theorem SentFor.step {e : Event} (h : SentFor cl p) (hstep : p.step cl e = some p') :
    SentFor cl p' := by
  cases move_of_step hstep with
  | aexit => exact h
  | refused c _ _ => exact h.put (Puts.append p.calls c) fresh_kept rfl (Or.inl rfl)
  | @begins _ _ _ _ _ _ _ c₁ _ _ _ _ _ _ _ _ _ _ advance =>
    rw [advance.calls_eq]
    exact h.put (Puts.append p.calls c₁) fresh_kept advance.args_eq advance.logs
  | @resumes _ _ _ _ c₁ _ hc _ advance =>
    rw [advance.calls_eq]
    exact h.put (Puts.set hc c₁) (slot_kept hc advance.args_eq) advance.args_eq advance.logs
  | @emits _ _ _ _ _ c₁ _ hc _ same emit =>
    rw [emit.calls_eq, same.calls]
    exact h.put (Puts.set hc c₁) (slot_kept hc emit.args_eq) emit.args_eq (emit.logs.of_same same)
  | @hops _ _ _ _ _ _ _ _ c₂ _ hc _ _ hargs _ _ _ _ _ same advance =>
    rw [advance.calls_eq, same.calls]
    exact h.put (Puts.set hc c₂) (slot_kept hc (advance.args_eq.trans hargs)) advance.args_eq
      (advance.logs.of_same same)
  | @stops _ _ c _ c₁ _ hc _ hargs _ same =>
    rw [same.calls]
    exact h.put (Puts.set hc c₁) (slot_kept hc hargs) hargs (Or.inl same.sent)

/-- **In every run, each logged request is for the arguments of its call.** -/
theorem sent_for {store : κ} {clock : ℚ} {es : List Event}
    (h : Machine.run (step cl) (Pool.init g store clock) es = some p) : SentFor cl p :=
  Machine.inv_of_run (fun hI hs ↦ SentFor.step hI hs) h fun _ hs ↦ absurd hs List.not_mem_nil

end Pool

/-! ### The query -/

/-- How the library reads a URL, and what parameters that are not `None` do to its query. -/
def Httpx.AppliesParams (httpx : Httpx) (read : Text → Except PyExc Uri)
    (apply : List (Text × Text) → Text → Text) : Prop :=
  ∀ method url headers params data json req,
    httpx.build_request method url headers params data json = .ok req →
      ∃ uri, read url = .ok uri ∧ req.url.path = uri.path ∧
        req.url.query = (params.map fun ps ↦ apply ps uri.query).getD uri.query

/-- The request goes to the path and the query of the URL of its hop. -/
def Sent.Faithful (read : Text → Except PyExc Uri) (s : Sent) : Prop :=
  ∃ uri, read s.url = .ok uri ∧ s.request.url.path = uri.path ∧ s.request.url.query = uri.query

/-- A hop after the first of its call. -/
def Pool.LaterHop (p : Pool κ) (s : Sent) : Prop :=
  ∃ l₁ l₂, p.sent = l₁ ++ s :: l₂ ∧ ∃ s' ∈ l₁, s'.call = s.call

/-- Pinning changes neither path nor query. -/
theorem build_pinned_target {httpx : Httpx} {method url : Text} {ips : List Text}
    {headers : List (Text × Text)} {params : Option (List (Text × Text))} {data json : Option Text}
    {req : HttpxRequest} (h : _build_pinned httpx method url ips headers params data json = .ok req) :
    ∃ built, httpx.build_request method url headers params data json = .ok built ∧
      req.url.path = built.url.path ∧ req.url.query = built.url.query := by
  simp only [_build_pinned, bind, Except.bind] at h
  split at h
  · cases h
  next built hbuilt =>
  refine ⟨built, hbuilt, ?_⟩
  split at h
  · obtain rfl := Except.ok.inj h
    exact ⟨rfl, rfl⟩
  · cases h
  split at h
  · obtain rfl := Except.ok.inj h
    exact ⟨rfl, rfl⟩
  split at h
  · obtain rfl := Except.ok.inj h
    exact ⟨rfl, rfl⟩
  · obtain rfl := Except.ok.inj h
    exact ⟨rfl, rfl⟩

/-- A request is for the URL of its hop exactly where the parameters leave the query of that URL alone. -/
theorem faithful_iff {httpx : Httpx} {read : Text → Except PyExc Uri}
    {apply : List (Text × Text) → Text → Text} (happlies : httpx.AppliesParams read apply) {args : Args}
    {s : Sent} (h : s.For httpx args) :
    s.Faithful read ↔
      ∀ ps, args.params = some ps → ∀ uri, read s.url = .ok uri → apply ps uri.query = uri.query := by
  obtain ⟨data, json, hbuilt⟩ := h
  obtain ⟨built, hbuild, hpath, hquery⟩ := build_pinned_target hbuilt
  obtain ⟨uri, hread, hbuiltPath, hbuiltQuery⟩ := happlies _ _ _ _ _ _ _ hbuild
  have hfaithful : s.Faithful read ↔
      (args.params.map fun ps ↦ apply ps uri.query).getD uri.query = uri.query := by
    rw [← hbuiltQuery, ← hquery]
    constructor
    · rintro ⟨uri', hread', -, hsame⟩
      obtain rfl := Except.ok.inj (hread.symm.trans hread')
      exact hsame
    · exact fun hsame ↦ ⟨uri, hread, hpath.trans hbuiltPath, hsame⟩
  rw [hfaithful]
  cases args.params with
  | none => exact iff_of_true rfl fun _ h ↦ by cases h
  | some ps =>
    constructor
    · intro hsame ps' hps uri' hread'
      obtain rfl := Option.some.inj hps
      obtain rfl := Except.ok.inj (hread.symm.trans hread')
      exact hsame
    · exact fun h ↦ h ps rfl uri hread

/-- **Where a redirect is followed as it was authorized.** In every run, the URL of each hop after the first
was allowed by the guard, and the request goes to its path and its query exactly where the caller passed no
parameters, or they leave the query of that URL as it is. -/
theorem redirect_faithful_iff {cl : Client κ} {read : Text → Except PyExc Uri}
    {apply : List (Text × Text) → Text → Text} (happlies : cl.httpx.AppliesParams read apply)
    {g : ScopeGuard} {p : Pool κ} {store : κ} {clock : ℚ} {es : List Event}
    (h : Machine.run (Pool.step cl) (Pool.init g store clock) es = some p) :
    ∀ s, p.LaterHop s → ∃ c, p.calls[s.call]? = some c ∧
      (∃ d, g.check_request s.method s.url false s.answer = .ok d ∧ d.allowed = true) ∧
      (s.Faithful read ↔
        ∀ ps, c.args.params = some ps → ∀ uri, read s.url = .ok uri →
          apply ps uri.query = uri.query) := by
  rintro s ⟨l₁, l₂, hlog, -⟩
  have hs : s ∈ p.sent := by
    rw [hlog]
    exact List.mem_append_right _ List.mem_cons_self
  obtain ⟨c, hc, hfor⟩ := Pool.sent_for h s hs
  exact ⟨c, hc, ((Pool.sent_authorized h).1 s hs).2, faithful_iff happlies hfor⟩

/-! ### The headers -/

/-- The headers the library takes from the ones it is given: of those with one name, in any case, the
last. -/
def lastOfName : List (Text × Text) → List (Text × Text)
  | [] => []
  | h :: rest => if rest.any (fun h' ↦ u.lower h'.1 == u.lower h.1) then lastOfName rest
    else h :: lastOfName rest

theorem lastOfName_subset (headers : List (Text × Text)) : lastOfName headers ⊆ headers := by
  induction headers with
  | nil => exact List.Subset.refl _
  | cons h rest ih =>
    rw [lastOfName]
    split
    · exact fun x hx ↦ List.mem_cons_of_mem _ (ih hx)
    · exact List.cons_subset_cons _ ih

/-- A request carries the headers it is built with. -/
def Httpx.KeepsHeaders (httpx : Httpx) : Prop :=
  ∀ method url headers params data json req,
    httpx.build_request method url headers params data json = .ok req →
      ∀ h ∈ lastOfName headers, h ∈ req.headers

/-- The `Host` header of a pinned request. -/
def hostHeader (q : ParsedUrl) : Text × Text :=
  let default_port := if q.scheme = "https".toList then 443 else 80
  ("Host".toList, if q.port = default_port then q.host else q.host ++ ':' :: (toString q.port).toList)

/-- On a hop to this URL the client replaces the header by one of its own: a `Host` header, where the host is
a name. -/
def Replaced (url : Text) (header : Text × Text) : Prop :=
  ∃ q, parse_url url = .ok q ∧ IpAddress.ip_address q.host = none ∧ u.lower header.1 = "host".toList ∧
    header ≠ hostHeader q

/-- **The caller's headers stay**: one that the request carries is on a hop to the origin of the caller's
URL. -/
def Sent.StaysHome (args : Args) (s : Sent) : Prop :=
  ∀ header ∈ lastOfName args.headers, header ∈ s.request.headers → SameOrigin s.url args.url

/-- The headers of a pinned request. -/
theorem build_pinned_headers {httpx : Httpx} {method url : Text} {ips : List Text}
    {headers : List (Text × Text)} {params : Option (List (Text × Text))} {data json : Option Text}
    {req : HttpxRequest} {q : ParsedUrl} (hparse : parse_url url = .ok q)
    (hne : ips ≠ []) (hnum : ∀ ip ∈ ips, (IpAddress.ip_address ip).isSome)
    (h : _build_pinned httpx method url ips headers params data json = .ok req) :
    ∃ built, httpx.build_request method url headers params data json = .ok built ∧
      ((IpAddress.ip_address q.host).isSome = true → req.headers = built.headers) ∧
      (IpAddress.ip_address q.host = none →
        req.headers = hostHeader q :: built.headers.filter fun h ↦ u.lower h.1 ≠ "host".toList) := by
  simp only [_build_pinned, bind, Except.bind, hparse] at h
  split at h
  · cases h
  next built hbuilt =>
  refine ⟨built, hbuilt, ?_⟩
  split at h
  next hlit =>
    obtain rfl := Except.ok.inj h
    exact ⟨fun _ ↦ rfl, fun hname ↦ absurd hlit (by rw [hname]; decide)⟩
  next hlit =>
    obtain ⟨ip, rest, rfl⟩ := List.exists_cons_of_ne_nil hne
    have hip : ip ≠ [] := fun hnil ↦ by
      have hsome := hnum ip List.mem_cons_self
      rw [hnil, IpAddress.ip_address_nil] at hsome
      cases hsome
    rw [List.head?_cons, Option.filter_some, if_pos (by simpa using hip)] at h
    obtain rfl := Except.ok.inj h
    exact ⟨fun hsome ↦ absurd hsome hlit, fun _ ↦ rfl⟩

/-- A header of the caller goes with every hop that does not replace it. -/
theorem carried_iff {httpx : Httpx} (hkeeps : httpx.KeepsHeaders) {g : ScopeGuard} {args : Args} {s : Sent}
    (hauthorized : s.Authorized g) (h : s.For httpx args) {header : Text × Text}
    (hheader : header ∈ lastOfName args.headers) :
    header ∈ s.request.headers ↔ ¬Replaced s.url header := by
  obtain ⟨-, q, info, hloc, hips⟩ := hauthorized
  obtain ⟨-, hne, hnum, -⟩ := resolve_host_ok hloc.resolved
  rw [← hips] at hne hnum
  obtain ⟨data, json, hbuilt⟩ := h
  obtain ⟨built, hbuild, hliteral, hname⟩ := build_pinned_headers hloc.parsed hne hnum hbuilt
  have hkept := hkeeps _ _ _ _ _ _ _ hbuild header hheader
  cases haddr : IpAddress.ip_address q.host with
  | some a =>
    rw [hliteral (by rw [haddr]; rfl)]
    refine iff_of_true hkept ?_
    rintro ⟨q', hq', hnone, -, -⟩
    obtain rfl := Except.ok.inj (hloc.parsed.symm.trans hq')
    rw [haddr] at hnone
    cases hnone
  | none =>
    rw [hname haddr, List.mem_cons, List.mem_filter]
    constructor
    · rintro hcarried ⟨q', hq', -, hhost, hdiffers⟩
      obtain rfl := Except.ok.inj (hloc.parsed.symm.trans hq')
      rcases hcarried with hown | ⟨-, hother⟩
      · exact hdiffers hown
      · exact absurd hhost (by simpa using hother)
    · intro hnot
      by_cases hown : header = hostHeader q
      · exact Or.inl hown
      · refine Or.inr ⟨hkept, ?_⟩
        have hother : u.lower header.1 ≠ "host".toList := fun hhost ↦
          hnot ⟨q, hloc.parsed, haddr, hhost, hown⟩
        simpa using hother

/-- **Where the caller's headers stay with their origin.** In every run, on each hop: exactly where the hop is
to the scheme, host and port of the URL the caller passed, or the caller passed no header that the client does
not replace. -/
theorem headers_stay_iff {cl : Client κ} (hkeeps : cl.httpx.KeepsHeaders) {g : ScopeGuard} {p : Pool κ}
    {store : κ} {clock : ℚ} {es : List Event}
    (h : Machine.run (Pool.step cl) (Pool.init g store clock) es = some p) :
    ∀ s ∈ p.sent, ∃ c, p.calls[s.call]? = some c ∧
      (s.StaysHome c.args ↔
        SameOrigin s.url c.args.url ∨ ∀ header ∈ lastOfName c.args.headers, Replaced s.url header) := by
  intro s hs
  obtain ⟨c, hc, hfor⟩ := Pool.sent_for h s hs
  have hauthorized : s.Authorized g := ((Pool.EgressInv.run h).sent s hs).1
  refine ⟨c, hc, ?_⟩
  constructor
  · intro hstays
    by_cases hsame : SameOrigin s.url c.args.url
    · exact Or.inl hsame
    · refine Or.inr fun header hheader ↦ ?_
      by_contra hnot
      exact hsame (hstays header hheader ((carried_iff hkeeps hauthorized hfor hheader).2 hnot))
  · rintro (hsame | hreplaced) header hheader hcarried
    · exact hsame
    · exact absurd (hreplaced header hheader) ((carried_iff hkeeps hauthorized hfor hheader).1 hcarried)

end

/-! ### Two redirected calls -/

section

attribute [local instance] asciiTables

def renderParams (params : List (Text × Text)) : Text :=
  List.intercalate ['&'] (params.map fun e ↦ e.1 ++ '=' :: e.2)

/-- A URL as the reference library reads it, with its query. -/
def readUrl (url : Text) : Except PyExc Uri := do
  let req ← referenceHttpx.build_request "GET".toList url [] none none none
  let parts ← (Url.urlsplit url).mapError .ValueError
  return { req.url with query := parts.query }

/-- The reference library, where parameters replace the query. -/
def queryHttpx : Httpx := { referenceHttpx with
  build_request := fun method url headers params data json ↦ do
    let req ← referenceHttpx.build_request method url headers params data json
    let uri ← readUrl url
    return { req with url := { uri with query := (params.map renderParams).getD uri.query } } }

theorem queryHttpx_appliesParams : queryHttpx.AppliesParams readUrl fun ps _ ↦ renderParams ps := by
  intro method url headers params data json req hbuild
  simp only [queryHttpx, bind, Except.bind] at hbuild
  split at hbuild
  · cases hbuild
  split at hbuild
  · cases hbuild
  next uri huri =>
    obtain rfl := Except.ok.inj hbuild
    exact ⟨uri, huri, rfl, rfl⟩

theorem referenceHttpx_keepsHeaders : referenceHttpx.KeepsHeaders := by
  intro method url headers params data json req hbuild header hheader
  simp only [referenceHttpx] at hbuild
  split at hbuild
  · cases hbuild
  · obtain rfl := Except.ok.inj hbuild
    exact List.mem_cons_of_mem _ (lastOfName_subset headers hheader)

/-- A call with parameters, redirected to a location with a query of its own. -/
def queryEvents : List Event := [
  .request {
    method := "GET".toList
    url := "https://app.example/a".toList
    params := some [("q".toList, "1".toList)] } 0 0 sampleAnswer sampleAnswer sampleAnswer,
  .responded 0 {
    status_code := 302
    headers := [("location".toList, "https://app.example/b?next=2".toList)] } 1 sampleAnswer]

def queryClient : Client Unit where
  httpx := queryHttpx

theorem queryEvents_run :
    (Machine.run (Pool.step queryClient) (Pool.init { record := sampleRecord } () 0) queryEvents).map
      (fun p ↦ p.sent.map fun s ↦ (s.call, s.url, s.request.url.query)) =
    some [(0, "https://app.example/a".toList, "q=1".toList),
      (0, "https://app.example/b?next=2".toList, "q=1".toList)] := by
  decide +kernel

/-- The second request has the parameters of the first, and not the query that was authorized. -/
theorem redirect_not_faithful :
    ∃ p, Machine.run (Pool.step queryClient) (Pool.init { record := sampleRecord } () 0) queryEvents =
        some p ∧ ∃ s, p.LaterHop s ∧ ¬s.Faithful readUrl := by
  obtain ⟨p, hp, hlog⟩ := Option.map_eq_some_iff.1 queryEvents_run
  obtain ⟨s₀, rest, hsent, h₀, hrest⟩ := List.map_eq_cons_iff.1 hlog
  obtain ⟨s, hrest, hs⟩ := List.map_eq_singleton_iff.1 hrest
  simp only [Prod.mk.injEq] at h₀ hs
  obtain ⟨hcall, hurl, hquery⟩ := hs
  refine ⟨p, hp, s, ⟨[s₀], [], ?_, s₀, List.mem_singleton_self _, h₀.1.trans hcall.symm⟩, ?_⟩
  · rw [hsent, hrest]
    rfl
  · rintro ⟨uri, hread, -, hsame⟩
    have hauthorized : (readUrl "https://app.example/b?next=2".toList).map (·.query) =
        .ok "next=2".toList := by decide +kernel
    rw [← hurl, hread] at hauthorized
    have huri : uri.query = "next=2".toList := Except.ok.inj hauthorized
    rw [← hsame, hquery] at huri
    exact absurd huri (by decide)

theorem redirect_faithful_iff_params :
    ∃ p, Machine.run (Pool.step queryClient) (Pool.init { record := sampleRecord } () 0) queryEvents =
        some p ∧ p.sent.length = 2 ∧
      ∀ s, p.LaterHop s → ∃ c, p.calls[s.call]? = some c ∧
        (∃ d, ScopeGuard.check_request { record := sampleRecord } s.method s.url false s.answer = .ok d ∧
          d.allowed = true) ∧
        (s.Faithful readUrl ↔
          ∀ ps, c.args.params = some ps → ∀ uri, readUrl s.url = .ok uri →
            renderParams ps = uri.query) := by
  obtain ⟨p, hp, hlog⟩ := Option.map_eq_some_iff.1 queryEvents_run
  have hlength : p.sent.length = 2 := by
    have h := congrArg List.length hlog
    rwa [List.length_map] at h
  exact ⟨p, hp, hlength, redirect_faithful_iff queryHttpx_appliesParams hp⟩

/-- A record of two hosts, and a call with a credential for the first that is redirected to the second. -/
def twoHosts : AuthorizationRecord := { sampleRecord with
  allowed_hosts := ["app.example".toList, "api.example".toList] }

def credentialEvents : List Event := [
  .request {
    method := "GET".toList
    url := "https://app.example/a".toList
    headers := [("Authorization".toList, "Bearer a".toList)] } 0 0 sampleAnswer sampleAnswer sampleAnswer,
  .responded 0 {
    status_code := 302
    headers := [("location".toList, "https://api.example/b".toList)] } 1 sampleAnswer]

theorem credentialEvents_run :
    (Machine.run (Pool.step sampleClient) (Pool.init { record := twoHosts } () 0) credentialEvents).map
      (fun p ↦ p.sent.map fun s ↦
        (s.call, s.url, s.request.headers.contains ("Authorization".toList, "Bearer a".toList))) =
    some [(0, "https://app.example/a".toList, true), (0, "https://api.example/b".toList, true)] := by
  decide +kernel

theorem credentialEvents_args :
    (Machine.run (Pool.step sampleClient) (Pool.init { record := twoHosts } () 0) credentialEvents).map
      (fun p ↦ p.calls.map fun c ↦ (c.args.url, c.args.headers)) =
    some [("https://app.example/a".toList, [("Authorization".toList, "Bearer a".toList)])] := by
  decide +kernel

/-- The credential is sent to the other host. -/
theorem headers_not_stay :
    ∃ p, Machine.run (Pool.step sampleClient) (Pool.init { record := twoHosts } () 0) credentialEvents =
        some p ∧ ∃ s ∈ p.sent, ∃ c, p.calls[s.call]? = some c ∧ ¬s.StaysHome c.args := by
  obtain ⟨p, hp, hlog⟩ := Option.map_eq_some_iff.1 credentialEvents_run
  obtain ⟨p', hp', hcalls⟩ := Option.map_eq_some_iff.1 credentialEvents_args
  obtain rfl := Option.some.inj (hp.symm.trans hp')
  obtain ⟨s₀, rest, hsent, -, hrest⟩ := List.map_eq_cons_iff.1 hlog
  obtain ⟨s, hrest, hs⟩ := List.map_eq_singleton_iff.1 hrest
  obtain ⟨c, hc, hargs⟩ := List.map_eq_singleton_iff.1 hcalls
  simp only [Prod.mk.injEq] at hs hargs
  obtain ⟨hcall, hurl, hheaders⟩ := hs
  refine ⟨p, hp, s, by rw [hsent, hrest]; simp, c, by rw [hcall, hc]; rfl, fun hstays ↦ ?_⟩
  have hlast : lastOfName c.args.headers = [("Authorization".toList, "Bearer a".toList)] := by
    rw [hargs.2]
    rfl
  obtain ⟨q, q', hq, hq', -, hhost, -⟩ := hstays ("Authorization".toList, "Bearer a".toList)
    (by rw [hlast]; exact List.mem_singleton_self _) (List.contains_iff_mem.1 hheaders)
  rw [hurl] at hq
  rw [hargs.1] at hq'
  obtain rfl : _ = q := Except.ok.inj hq
  obtain rfl : _ = q' := Except.ok.inj hq'
  exact absurd hhost (by decide +kernel)

theorem headers_stay_iff_credential :
    ∃ p, Machine.run (Pool.step sampleClient) (Pool.init { record := twoHosts } () 0) credentialEvents =
        some p ∧ p.sent.length = 2 ∧
      ∀ s ∈ p.sent, ∃ c, p.calls[s.call]? = some c ∧
        (s.StaysHome c.args ↔
          SameOrigin s.url c.args.url ∨ ∀ header ∈ lastOfName c.args.headers, Replaced s.url header) := by
  obtain ⟨p, hp, hlog⟩ := Option.map_eq_some_iff.1 credentialEvents_run
  have hlength : p.sent.length = 2 := by
    have h := congrArg List.length hlog
    rwa [List.length_map] at h
  exact ⟨p, hp, hlength, headers_stay_iff referenceHttpx_keepsHeaders hp⟩

end

end Sentrik
