import Sentrik.Security.Egress

/-!
# Relative redirects

The pinned build replaces the host of the URL it sends to by a validated address; the name survives
in the `Host` header and the TLS name only. A `Location` is joined against the URL **as sent**. So
after a hop to a name, a relative reference resolves to a URL whose host is that address, and this is
what the gate is asked about and what is followed.

What that needs of the library is one fact about joining: a reference without a network location of
its own keeps the peer of its base (`Httpx.KeepsPeer`).

* `sending_built` is the invariant behind it: a request a call awaits is the pinned build of the
  call's current URL and addresses, and a request for a name goes to one of them (`peer_of_sending`).
* `relative_off_origin` says what the gate is asked about on such a hop, and when it answers
  `host_out_of_scope`.
-/

namespace Sentrik

/-- The code of the violation a call has raised. -/
def Stage.violation? : Stage → Option String
  | .raised (.ScopeViolation _ code _) => some code
  | _ => none

theorem Call.not_sending_of_stopped {c : Call} (h : c.stage.stopped = true) {req : HttpxRequest} :
    c.stage ≠ .sending req := by
  intro hs
  rw [hs] at h
  cases h

section

variable [u : UnicodeTables] {κ : Type}

/-! ### Origins -/

/-- Two URLs with the same scheme, host and port. -/
def SameOrigin (url url' : Text) : Prop :=
  ∃ q q', parse_url url = .ok q ∧ parse_url url' = .ok q' ∧ q.scheme = q'.scheme ∧
    q.host = q'.host ∧ q.port = q'.port

/-- Resolving a relative reference keeps the authority of the base: where the host of the base
denotes an address, the host of the result denotes the same one. -/
def Httpx.KeepsPeer (httpx : Httpx) : Prop :=
  ∀ base location joined q a, Url.isRelative location = true →
    httpx.join base location = .ok joined → parse_url joined = .ok q → base.peer = some a →
      (IpAddress.ip_address q.host).map IpAddress.withoutZone = some a

/-- The response to call `i` redirects it from `url` by a relative reference, and `url'` is what the
gate is asked about. -/
structure RelativeHop (cl : Client κ) (p : Pool κ) (i : ℕ) (resp : Response) (url url' : Text) :
    Prop where
  redirects : resp.status_code ∈ [301, 302, 303, 307, 308]
  joins : ∃ c req location, p.calls[i]? = some c ∧ c.stage = .sending req ∧ c.current_url = url ∧
    c.redirects + 1 ≤ c.args.max_redirects ∧
    resp.headers.lookup "location".toList = some location ∧ Url.isRelative location = true ∧
    cl.httpx.join req.url location = .ok url'

/-! ### The request a call awaits -/

namespace Pool

variable {cl : Client κ} {g : ScopeGuard} {p p' : Pool κ} {i : ℕ} {c c' : Call}

/-- Every request a call awaits is the one it builds where it stands. -/
def SendingBuilt (cl : Client κ) (p : Pool κ) : Prop :=
  ∀ (i : ℕ) (c : Call), p.calls[i]? = some c →
    ∀ req, c.stage = .sending req → build cl c = .ok req

theorem Advance.built (h : Advance cl p i c p' c') {req : HttpxRequest}
    (hs : c'.stage = .sending req) : build cl c' = .ok req := by
  cases h with
  | waits stage acquiring _ =>
    have hstage : stage = .sending req := hs
    rw [hstage] at acquiring
    cases acquiring
  | counts => cases hs
  | fails => cases hs
  | sends req' built =>
    obtain rfl : req' = req := Stage.sending.inj hs
    exact built

theorem Emit.built (h : Emit cl p i c p' c') {req : HttpxRequest}
    (hs : c'.stage = .sending req) : build cl c' = .ok req := by
  cases h with
  | fails => cases hs
  | sends req' built =>
    obtain rfl : req' = req := Stage.sending.inj hs
    exact built

/-- Writing one call whose request is the one it builds. -/
theorem SendingBuilt.put (h : SendingBuilt cl p) {l : List Call} (hputs : Puts p.calls i c' l)
    (hself : ∀ req, c'.stage = .sending req → build cl c' = .ok req) :
    SendingBuilt cl { p' with calls := l } :=
  hputs.forall_slots h hself fun _ _ _ hb ↦ hb

/-- Every step keeps it. -/
theorem SendingBuilt.step {e : Event} (h : SendingBuilt cl p) (hstep : p.step cl e = some p') :
    SendingBuilt cl p' := by
  cases move_of_step hstep with
  | aexit => exact h
  | refused c _ stopped =>
    exact h.put (Puts.append p.calls c) fun req hs ↦ absurd hs (Call.not_sending_of_stopped stopped)
  | @begins _ _ _ _ _ _ _ c₁ _ _ _ _ _ _ _ _ _ _ advance =>
    rw [advance.calls_eq]
    exact h.put (Puts.append p.calls c₁) fun _ hs ↦ advance.built hs
  | @resumes _ _ _ _ c₁ _ hc _ advance =>
    rw [advance.calls_eq]
    exact h.put (Puts.set hc c₁) fun _ hs ↦ advance.built hs
  | @emits _ _ _ _ _ c₁ _ hc _ same emit =>
    rw [emit.calls_eq, same.calls]
    exact h.put (Puts.set hc c₁) fun _ hs ↦ emit.built hs
  | @hops _ _ _ _ _ _ _ _ c₂ _ hc _ _ _ _ _ _ _ _ same advance =>
    rw [advance.calls_eq, same.calls]
    exact h.put (Puts.set hc c₂) fun _ hs ↦ advance.built hs
  | @stops _ _ _ _ c₁ _ hc _ _ stopped same =>
    rw [same.calls]
    exact h.put (Puts.set hc c₁) fun _ hs ↦ absurd hs (Call.not_sending_of_stopped stopped)

theorem sending_built {store : κ} {clock : ℚ} {es : List Event}
    (h : Machine.run (step cl) (Pool.init g store clock) es = some p) : SendingBuilt cl p := by
  refine Machine.inv_of_run (fun hI hs ↦ SendingBuilt.step hI hs) h ?_
  intro i c hc
  rw [Pool.init, List.getElem?_nil] at hc
  cases hc

end Pool

/-- The pinned build of a URL whose host is a name goes to one of the addresses. -/
theorem build_pinned_name {httpx : Httpx} {method url : Text} {ips : List Text}
    {headers : List (Text × Text)} {params : Option (List (Text × Text))} {data json : Option Text}
    {req : HttpxRequest} {q : ParsedUrl} (hparse : parse_url url = .ok q)
    (hname : IpAddress.ip_address q.host = none)
    (hne : ips ≠ []) (hnum : ∀ ip ∈ ips, (IpAddress.ip_address ip).isSome)
    (h : _build_pinned httpx method url ips headers params data json = .ok req) :
    ∃ ip ∈ ips, ∃ a, IpAddress.ip_address ip = some a ∧ req.url.peer = some a.withoutZone := by
  simp only [_build_pinned, bind, Except.bind, hparse] at h
  split at h
  · cases h
  rw [hname, Option.isSome_none, if_neg Bool.false_ne_true] at h
  obtain ⟨ip, rest, rfl⟩ := List.exists_cons_of_ne_nil hne
  obtain ⟨a, ha⟩ := Option.isSome_iff_exists.1 (hnum ip List.mem_cons_self)
  have hip : ip ≠ [] := fun hnil ↦ by
    rw [hnil, IpAddress.ip_address_nil] at ha
    cases ha
  rw [List.head?_cons, Option.filter_some, if_pos (by simpa using hip)] at h
  obtain rfl := Except.ok.inj h
  exact ⟨ip, List.mem_cons_self, a, ha, by rw [Uri.peer, ha, Option.map_some]⟩

/-- In every run, a request a call awaits for a URL whose host is a name goes to an address. -/
theorem Pool.peer_of_sending {cl : Client κ} {g : ScopeGuard} {p : Pool κ} {store : κ} {clock : ℚ}
    {es : List Event} (h : Machine.run (Pool.step cl) (Pool.init g store clock) es = some p)
    {i : ℕ} {c : Call} {req : HttpxRequest} {q : ParsedUrl} (hc : p.calls[i]? = some c)
    (hs : c.stage = .sending req) (hparse : parse_url c.current_url = .ok q)
    (hname : IpAddress.ip_address q.host = none) : ∃ a, req.url.peer = some a := by
  have hbuilt : _build_pinned cl.httpx c.current_method c.current_url c.current_ips c.args.headers
      c.args.params c.data c.json = .ok req := Pool.sending_built h i c hc req hs
  have hlive : c.stage.stopped = false := by rw [hs]; rfl
  obtain ⟨-, q', info, hloc, hips⟩ := ((EgressInv.run h).calls i c hc).authorized hlive
  obtain ⟨-, hne, hnum, -⟩ := resolve_host_ok hloc.resolved
  rw [hips] at hbuilt
  obtain ⟨-, -, a, -, hpeer⟩ := build_pinned_name hparse hname hne hnum hbuilt
  exact ⟨a.withoutZone, hpeer⟩

/-! ### What the gate answers -/

theorem ScopeGuard._path_decision_code {g : ScopeGuard} {path : Text} :
    (g._path_decision path).code ≠ "host_out_of_scope" := by
  rw [_path_decision]
  split
  · simp
  split
  · split <;> simp
  · simp

/-- A location outside the hosts of the record is refused as such, if the method passes. -/
theorem ScopeGuard.check_request_host_out_of_scope {g : ScopeGuard} {method url : Text} {r : Bool}
    {answer : DnsAnswer} {q : ParsedUrl} (hparse : parse_url url = .ok q) :
    (∃ d, g.check_request method url r answer = .ok d ∧ d.code = "host_out_of_scope") ↔
      g.MethodAllowed method ∧ g._host_in_scope q.host = false := by
  obtain ⟨scheme, host, port, path⟩ := q
  simp only [check_request, hparse]
  split
  next hm =>
    refine iff_of_false ?_ fun hall ↦ hm.2 (hall.1.1 hm.1)
    rintro ⟨d, hd, hcode⟩
    obtain rfl := Except.ok.inj hd
    simp at hcode
  next hm =>
  split
  next hs =>
    refine iff_of_false ?_ fun hall ↦ hs.2 (hall.1.2 hs.1)
    rintro ⟨d, hd, hcode⟩
    obtain rfl := Except.ok.inj hd
    simp at hcode
  next hs =>
  have hmethod : g.MethodAllowed method :=
    ⟨fun hne ↦ by_contra fun hnot ↦ hm ⟨hne, hnot⟩, fun hin ↦ by_contra fun hnot ↦ hs ⟨hin, hnot⟩⟩
  split
  next hhost => exact iff_of_true ⟨_, rfl, rfl⟩ ⟨hmethod, by simpa using hhost⟩
  next hhost =>
  -- past the host gate every other denial has a code of its own
  refine iff_of_false ?_ fun hall ↦ hhost (by simp [hall.2])
  rintro ⟨d, hd, hcode⟩
  split at hd
  · obtain rfl := Except.ok.inj hd
    simp at hcode
  split at hd
  · obtain rfl := Except.ok.inj hd
    exact _path_decision_code hcode
  split at hd
  · obtain rfl := Except.ok.inj hd
    simp at hcode
  · cases hd
  split at hd
  · obtain rfl := Except.ok.inj hd
    simp at hcode
  split at hd <;> obtain rfl := Except.ok.inj hd <;> simp at hcode

/-- A decision with that code is a refusal. -/
theorem ScopeGuard.denied_of_host_out_of_scope {g : ScopeGuard} {method url : Text} {r : Bool}
    {answer : DnsAnswer} {d : ScopeDecision} (hd : g.check_request method url r answer = .ok d)
    (hcode : d.code = "host_out_of_scope") : d.allowed = false := by
  rw [← Bool.not_eq_true]
  intro hallowed
  obtain ⟨-, q, info, -, rfl⟩ := check_request_eq_allow_iff.1 ⟨hd, hallowed⟩
  simp [allowDecision] at hcode

/-! ### Relative references leave the origin -/

/-- What a refusal of the gate does to the call. -/
theorem RelativeHop.refused {cl : Client κ} {p p' : Pool κ} {i : ℕ} {resp : Response}
    {url url' : Text} (hhop : RelativeHop cl p i resp url url') {clock : ℚ} {answer : DnsAnswer}
    {d : ScopeDecision} (hd : p.guard.check_request "GET".toList url' true answer = .ok d)
    (hdenied : d.allowed = false)
    (hstep : p.step cl (.responded i resp clock answer) = some p') :
    ∃ c, p'.calls[i]? = some c ∧ c.stage.violation? = some d.code := by
  obtain ⟨hstatus, c, req, location, hc, hs, -, hmax, hlocation, -, hjoin⟩ := hhop
  simp only [Pool.step, Event.call?, Option.bind_eq_bind, Option.bind_some, hc, Pool.resume, hs,
    Pool.respond, hlocation, hstatus, if_true, if_neg (not_lt.2 hmax), Pool.redirect, hjoin, hd,
    hdenied] at hstep
  obtain rfl := Option.some.inj hstep
  exact ⟨_, (Puts.set hc _).self, rfl⟩

/-- **A relative redirect from a name leaves its origin.** In every run, whatever the gate is asked
about on such a hop is not of the origin of the URL that was redirected: its host, if it has one, is
an address. The gate answers `host_out_of_scope` exactly where the method passes and no entry of the
record covers that address, and the call then raises that violation. -/
theorem Pool.relative_off_origin {cl : Client κ} (hkeeps : cl.httpx.KeepsPeer) {g : ScopeGuard}
    {p : Pool κ} {store : κ} {clock : ℚ} {es : List Event}
    (h : Machine.run (Pool.step cl) (Pool.init g store clock) es = some p) {i : ℕ} {resp : Response}
    {url url' : Text} (hhop : RelativeHop cl p i resp url url') {q : ParsedUrl}
    (hparse : parse_url url = .ok q) (hname : IpAddress.ip_address q.host = none) :
    ¬SameOrigin url url' ∧
      ∀ q', parse_url url' = .ok q' → (IpAddress.ip_address q'.host).isSome ∧
        ∀ answer, ((∃ d, p.guard.check_request "GET".toList url' true answer = .ok d ∧
              d.code = "host_out_of_scope") ↔
            g.MethodAllowed "GET".toList ∧ g._host_in_scope q'.host = false) ∧
          (g.MethodAllowed "GET".toList → g._host_in_scope q'.host = false →
            ∀ clock p', p.step cl (.responded i resp clock answer) = some p' →
              ∃ c, p'.calls[i]? = some c ∧ c.stage.violation? = some "host_out_of_scope") := by
  -- the gate of the pool reads the record the pool was opened with
  have hgate : ∀ q', parse_url url' = .ok q' → ∀ answer,
      (∃ d, p.guard.check_request "GET".toList url' true answer = .ok d ∧
        d.code = "host_out_of_scope") ↔
      g.MethodAllowed "GET".toList ∧ g._host_in_scope q'.host = false := by
    intro q' hq' answer
    rw [ScopeGuard.check_request_host_out_of_scope hq', ScopeGuard.MethodAllowed,
      ScopeGuard.MethodAllowed, ScopeGuard._allowed_methods, ScopeGuard._allowed_methods,
      ScopeGuard._host_in_scope, ScopeGuard._host_in_scope, ScopeGuard._allowed_hosts,
      ScopeGuard._allowed_hosts, (EgressInv.run h).record]
  have haddr : ∀ q', parse_url url' = .ok q' → (IpAddress.ip_address q'.host).isSome := by
    intro q' hq'
    obtain ⟨-, c, req, location, hc, hs, rfl, -, -, hrel, hjoin⟩ := hhop
    -- the joined URL has the peer of the request as sent, which is an address
    obtain ⟨a, hpeer⟩ := Pool.peer_of_sending h hc hs hparse hname
    obtain ⟨b, hb, -⟩ := Option.map_eq_some_iff.1 (hkeeps _ _ _ _ _ hrel hjoin hq' hpeer)
    rw [hb, Option.isSome_some]
  refine ⟨?_, fun q' hq' ↦ ⟨haddr q' hq', fun answer ↦ ⟨hgate q' hq' answer, ?_⟩⟩⟩
  · rintro ⟨q₁, q', hq₁, hq', -, hhost, -⟩
    obtain rfl : q₁ = q := Except.ok.inj (hq₁.symm.trans hparse)
    have hsome := haddr q' hq'
    rw [← hhost, hname] at hsome
    cases hsome
  · intro hmethod hout clock p' hstep
    obtain ⟨d, hd, hcode⟩ := (hgate q' hq' answer).2 ⟨hmethod, hout⟩
    rw [← hcode]
    exact hhop.refused hd (ScopeGuard.denied_of_host_out_of_scope hd hcode) hstep

end

section

attribute [local instance] asciiTables

/-- The reference library, joining a relative reference only where the result keeps the peer. -/
def resolvingHttpx : Httpx := { referenceHttpx with
  join := fun base location ↦ do
    let joined ← referenceHttpx.join base location
    let q ← parse_url joined
    if Url.isRelative location ∧
        (IpAddress.ip_address q.host).map IpAddress.withoutZone ≠ base.peer then
      .error (.InvalidURL "Invalid URL")
    else .ok joined }

theorem resolvingHttpx_keepsPeer : resolvingHttpx.KeepsPeer := by
  intro base location joined q a hrel hjoin hq hpeer
  simp only [resolvingHttpx, bind, Except.bind] at hjoin
  split at hjoin
  · cases hjoin
  next text htext =>
  split at hjoin
  · cases hjoin
  next q' hq' =>
  split at hjoin
  · cases hjoin
  next hkept =>
    obtain rfl := Except.ok.inj hjoin
    obtain rfl : q' = q := Except.ok.inj (hq'.symm.trans hq)
    rw [← hpeer]
    exact by_contra fun hne ↦ hkept ⟨hrel, hne⟩

/-- A client on that library. -/
def resolvingClient : Client Unit where
  httpx := resolvingHttpx

/-- A call that has been sent. -/
def openCall : List Event := [
  .request { method := "GET".toList, url := "https://app.example/a".toList } 0 0 sampleAnswer
    sampleAnswer sampleAnswer]

/-- A redirect to another path of the same host. -/
def relativeRedirect : Response where
  status_code := 302
  headers := [("location".toList, "/b".toList)]

/-- That redirect is a hop to a URL whose host is the address. -/
theorem relativeRedirect_hop :
    ∃ p, Machine.run (Pool.step resolvingClient) (Pool.init { record := sampleRecord } () 0)
        openCall = some p ∧
      RelativeHop resolvingClient p 0 relativeRedirect "https://app.example/a".toList
        "https://93.184.216.34/b".toList := by
  obtain ⟨p, hp, hcalls⟩ : ∃ p, Machine.run (Pool.step resolvingClient)
      (Pool.init { record := sampleRecord } () 0) openCall = some p ∧
      p.calls.map (fun c ↦ (c.stage, c.current_url, c.redirects, c.args.max_redirects)) =
        [(.sending {
            method := "GET".toList
            url := {
              scheme := "https".toList
              host := "93.184.216.34".toList
              port := none
              path := "/a".toList }
            headers := [("Host".toList, "app.example".toList)]
            sni_hostname := some "app.example".toList },
          "https://app.example/a".toList, 0, 3)] := by
    decide +kernel
  obtain ⟨c, hc, hlocal⟩ := List.map_eq_singleton_iff.1 hcalls
  simp only [Prod.mk.injEq] at hlocal
  obtain ⟨hs, hurl, hredirects, hmax⟩ := hlocal
  refine ⟨p, hp, by decide, c, _, "/b".toList, by rw [hc]; rfl, hs, hurl, ?_, by decide, by decide,
    by decide +kernel⟩
  rw [hredirects, hmax]
  exact Nat.succ_le_succ (Nat.zero_le 2)

theorem relative_off_origin_refused :
    ∃ p, Machine.run (Pool.step resolvingClient) (Pool.init { record := sampleRecord } () 0)
        openCall = some p ∧
      ¬SameOrigin "https://app.example/a".toList "https://93.184.216.34/b".toList ∧
      ∀ clock p', p.step resolvingClient (.responded 0 relativeRedirect clock sampleAnswer) = some p' →
        ∃ c, p'.calls[0]? = some c ∧ c.stage.violation? = some "host_out_of_scope" := by
  obtain ⟨p, hp, hhop⟩ := relativeRedirect_hop
  obtain ⟨q, hq, hname⟩ : ∃ q, parse_url "https://app.example/a".toList = .ok q ∧
      IpAddress.ip_address q.host = none := ⟨_, rfl, by decide +kernel⟩
  obtain ⟨q', hq', hout⟩ : ∃ q', parse_url "https://93.184.216.34/b".toList = .ok q' ∧
      ScopeGuard._host_in_scope { record := sampleRecord } q'.host = false :=
    ⟨_, rfl, by decide +kernel⟩
  have hget : ScopeGuard.MethodAllowed { record := sampleRecord } "GET".toList := by
    constructor <;> decide +kernel
  obtain ⟨hoff, hgate⟩ := Pool.relative_off_origin resolvingHttpx_keepsPeer hp hhop hq hname
  exact ⟨p, hp, hoff, ((hgate q' hq').2 sampleAnswer).2 hget hout⟩

/-- The redirect is refused as out of scope, although its path is allowed. -/
theorem relativeRedirect_refused :
    ∃ p p', Machine.run (Pool.step resolvingClient) (Pool.init { record := sampleRecord } () 0)
        openCall = some p ∧
      RelativeHop resolvingClient p 0 relativeRedirect "https://app.example/a".toList
        "https://93.184.216.34/b".toList ∧
      (ScopeGuard._path_decision { record := sampleRecord } "/b".toList).allowed = true ∧
      p.step resolvingClient (.responded 0 relativeRedirect 1 sampleAnswer) = some p' ∧
      p'.calls.map (·.stage.violation?) = [some "host_out_of_scope"] := by
  obtain ⟨p, hp, hhop⟩ := relativeRedirect_hop
  obtain ⟨p', hp', hraised⟩ : ∃ p', Machine.run (Pool.step resolvingClient)
      (Pool.init { record := sampleRecord } () 0)
        (openCall ++ [.responded 0 relativeRedirect 1 sampleAnswer]) = some p' ∧
      p'.calls.map (·.stage.violation?) = [some "host_out_of_scope"] := by
    decide +kernel
  obtain ⟨p₁, hp₁, hstep⟩ := Machine.run_snoc_eq_some _ hp'
  obtain rfl : p₁ = p := Option.some.inj (hp₁.symm.trans hp)
  exact ⟨p₁, p', hp, hhop, by decide +kernel, hstep, hraised⟩

end

end Sentrik
