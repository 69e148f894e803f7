import Sentrik.Library.Slots
import Sentrik.Security.PoolMoves
import Sentrik.Security.ReferenceHttpx

/-!
# Every hop is authorized

The invariant of the pool about what leaves: every logged request was authorized for its own method
and location under the DNS answer of its own hop, and was built from exactly that. It is kept across
redirects because the location part of the gate does not depend on the method the re-check names, and
the method either stays the one authorized on the hop before or becomes the one of the re-check.

From it: **hop-by-hop authorization** with the bound on the number of sends (`sent_authorized`), and
**connection to a validated address** (`sent_peer_validated`).
-/

namespace Sentrik

/-! ### Counting -/

section

variable {κ : Type}

/-- The number of requests a call has sent. -/
def Pool.sentBy (p : Pool κ) (i : ℕ) : ℕ := p.sent.countP (·.call == i)

theorem Pool.sentBy_congr {p p' : Pool κ} (h : p'.sent = p.sent) (j : ℕ) :
    p'.sentBy j = p.sentBy j := by
  rw [sentBy, h, sentBy]

theorem Pool.sentBy_append_self {p p' : Pool κ} {s : Sent} {i : ℕ} (h : p'.sent = p.sent ++ [s])
    (hs : s.call = i) : p'.sentBy i = p.sentBy i + 1 := by
  rw [sentBy, h, List.countP_append, sentBy]
  simp [hs]

theorem Pool.sentBy_append_other {p p' : Pool κ} {s : Sent} {j : ℕ} (h : p'.sent = p.sent ++ [s])
    (hs : s.call ≠ j) : p'.sentBy j = p.sentBy j := by
  rw [sentBy, h, List.countP_append, sentBy]
  simp [hs]

/-- How many requests a call may have sent where it stands. -/
def Call.quota (c : Call) : ℕ :=
  match c.stage with
  | .sending _ => c.redirects + 1
  | .returned _ | .raised _ => c.args.max_redirects + 1
  | _ => c.redirects

end

section

variable [u : UnicodeTables] {κ : Type}

/-! ### The log -/

/-- The logged request was allowed on its hop, with these addresses. -/
structure Sent.Authorized (g : ScopeGuard) (s : Sent) : Prop where
  method : g.MethodAllowed s.method
  location : ∃ p info, g.LocationAllowed s.url s.answer p info ∧ s.ips = info.resolved_ips

/-- The logged request is the pinned build of its method, URL and addresses. -/
def Sent.Built (httpx : Httpx) (s : Sent) : Prop :=
  ∃ headers params data json,
    _build_pinned httpx s.method s.url s.ips headers params data json = .ok s.request

/-- A call in order, in a pool whose calls may have sent `n`. -/
structure Call.InOrder (g : ScopeGuard) (n : ℕ) (c : Call) : Prop where
  authorized : c.stage.stopped = false → c.Authorized g
  within : c.stage.stopped = false → c.redirects ≤ c.args.max_redirects
  count : n ≤ c.quota

/-- **The egress invariant**, relative to the guard the pool was opened with. -/
structure Pool.EgressInv (cl : Client κ) (g : ScopeGuard) (p : Pool κ) : Prop where
  record : p.guard.record = g.record
  settings : p.guard._settings = g._settings
  sent : ∀ s ∈ p.sent, s.Authorized g ∧ s.Built cl.httpx ∧ s.call < p.calls.length
  calls : ∀ i c, p.calls[i]? = some c → Call.InOrder g (p.sentBy i) c

/-! ### One call at a time -/

namespace Pool

/-- The part of the invariant that is about the log and the guard: it makes sense while a call is
between two suspensions, `n` bounding the indices in use. -/
structure LogInv (cl : Client κ) (g : ScopeGuard) (n : ℕ) (p : Pool κ) : Prop where
  record : p.guard.record = g.record
  settings : p.guard._settings = g._settings
  sent : ∀ s ∈ p.sent, s.Authorized g ∧ s.Built cl.httpx ∧ s.call < n

/-- What a segment of call `i` has to establish. -/
structure SegmentInv (cl : Client κ) (g : ScopeGuard) (i n : ℕ) (p p' : Pool κ) (c' : Call) :
    Prop where
  log : LogInv cl g n p'
  calls : p'.calls = p.calls
  self : c'.InOrder g (p'.sentBy i)
  other : ∀ j, j ≠ i → p'.sentBy j = p.sentBy j

variable {cl : Client κ} {g : ScopeGuard} {p p₀ p' : Pool κ} {i n : ℕ} {c c' : Call}

theorem LogInv.congr (h : LogInv cl g n p) (hrec : p'.guard.record = p.guard.record)
    (hset : p'.guard._settings = p.guard._settings) (hsent : p'.sent = p.sent) :
    LogInv cl g n p' :=
  ⟨hrec.trans h.record, hset.trans h.settings, hsent ▸ h.sent⟩

/-- A segment that sends nothing and leaves the call in order. -/
theorem SegmentInv.quiet (h : LogInv cl g n p) (hrec : p'.guard.record = p.guard.record)
    (hset : p'.guard._settings = p.guard._settings) (hsent : p'.sent = p.sent)
    (hcalls : p'.calls = p.calls) (hself : c'.InOrder g (p.sentBy i)) :
    SegmentInv cl g i n p p' c' :=
  ⟨h.congr hrec hset hsent, hcalls, by rwa [sentBy_congr hsent], fun j _ ↦ sentBy_congr hsent j⟩

/-- A segment that sends the request of an authorized call. -/
theorem SegmentInv.send {req : HttpxRequest} (h : LogInv cl g n p) (hi : i < n)
    (hrec : p'.guard.record = p.guard.record) (hset : p'.guard._settings = p.guard._settings)
    (hsent : p'.sent = p.sent ++ [entry i c req]) (hcalls : p'.calls = p.calls)
    (hbuilt : build cl c = .ok req) (hauth : c.Authorized g)
    (hwithin : c.redirects ≤ c.args.max_redirects) (hcount : p.sentBy i ≤ c.redirects) :
    SegmentInv cl g i n p p' { c with stage := .sending req } where
  log := by
    refine ⟨hrec.trans h.record, hset.trans h.settings, fun s hs ↦ ?_⟩
    rw [hsent] at hs
    rcases List.mem_append.1 hs with hs | hs
    · exact h.sent s hs
    · rw [List.mem_singleton.1 hs]
      exact ⟨⟨hauth.method, hauth.location⟩, ⟨_, _, _, _, hbuilt⟩, hi⟩
  calls := hcalls
  self := by
    refine ⟨fun _ ↦ hauth.congr rfl rfl rfl rfl rfl rfl, fun _ ↦ hwithin, ?_⟩
    have hself : p'.sentBy i = p.sentBy i + 1 := sentBy_append_self hsent rfl
    rw [hself]
    exact Nat.succ_le_succ hcount
  other j hj := sentBy_append_other hsent (Ne.symm hj)

/-- An authorized call that goes on from the limiter. -/
theorem Advance.segment (hadv : Advance cl p i c p' c') (h : LogInv cl g n p) (hi : i < n)
    (hauth : c.Authorized g) (hwithin : c.redirects ≤ c.args.max_redirects)
    (hcount : p.sentBy i ≤ c.redirects) : SegmentInv cl g i n p p' c' := by
  cases hadv with
  | waits stage acquiring same =>
    refine .quiet h (by rw [same.guard]) (by rw [same.guard]) same.sent same.calls
      ⟨fun _ ↦ hauth.congr rfl rfl rfl rfl rfl rfl, fun _ ↦ hwithin, ?_⟩
    cases stage <;> first | exact hcount | cases acquiring
  | counts m guard sent calls closed =>
    exact .quiet h (by rw [guard]; rfl) (by rw [guard]; rfl) sent calls
      ⟨fun _ ↦ hauth.congr rfl rfl rfl rfl rfl rfl, fun _ ↦ hwithin, hcount⟩
  | fails exc guard sent calls closed =>
    exact .quiet h (by rw [guard]; rfl) (by rw [guard]; rfl) sent calls
      ⟨nofun, nofun, (hcount.trans hwithin).trans (Nat.le_succ _)⟩
  | sends req built opened guard calls closed sent =>
    exact .send h hi (by rw [guard]; rfl) (by rw [guard]; rfl) sent calls built hauth hwithin hcount

/-- A counted call that goes on from the callback. -/
theorem Emit.segment (hemit : Emit cl p i c p' c') (h : LogInv cl g n p) (hi : i < n)
    (hauth : c.Authorized g) (hwithin : c.redirects ≤ c.args.max_redirects)
    (hcount : p.sentBy i ≤ c.redirects) : SegmentInv cl g i n p p' c' := by
  cases hemit with
  | fails exc same =>
    exact .quiet h (by rw [same.guard]) (by rw [same.guard]) same.sent same.calls
      ⟨nofun, nofun, (hcount.trans hwithin).trans (Nat.le_succ _)⟩
  | sends req built opened guard calls closed sent =>
    exact .send h hi (by rw [guard]) (by rw [guard]) sent calls built hauth hwithin hcount

/-! ### The invariant -/

theorem EgressInv.log (h : EgressInv cl g p) : LogInv cl g p.calls.length p :=
  ⟨h.record, h.settings, h.sent⟩

/-- Writing a segment's call back. -/
theorem EgressInv.put (h : EgressInv cl g p) {l : List Call} (hputs : Puts p.calls i c' l)
    (hseg : SegmentInv cl g i l.length p p' c') : EgressInv cl g { p' with calls := l } where
  record := hseg.log.record
  settings := hseg.log.settings
  sent := hseg.log.sent
  calls := by
    refine hputs.forall_slots h.calls hseg.self fun j b hj hb ↦ ?_
    have hn : (Pool.sentBy { p' with calls := l } j) = p.sentBy j := hseg.other j hj
    rwa [hn]

/-- A call no slot of which is in use has sent nothing. -/
theorem EgressInv.sentBy_fresh (h : EgressInv cl g p) : p.sentBy p.calls.length = 0 := by
  rw [sentBy, List.countP_eq_zero]
  intro s hs heq
  have hlt := (h.sent s hs).2.2
  rw [eq_of_beq heq] at hlt
  exact lt_irrefl _ hlt

theorem LogInv.mono {m : ℕ} (h : LogInv cl g n p) (hm : n ≤ m) : LogInv cl g m p :=
  ⟨h.record, h.settings, fun s hs ↦
    ⟨(h.sent s hs).1, (h.sent s hs).2.1, (h.sent s hs).2.2.trans_le hm⟩⟩

theorem Call.Authorized.of_guard {p : Pool κ} (h : c.Authorized p.guard)
    (hrec : p.guard.record = g.record) (hset : p.guard._settings = g._settings) :
    c.Authorized g :=
  h.congr hrec.symm hset.symm rfl rfl rfl rfl

/-- **Every step keeps the egress invariant.** -/
theorem EgressInv.step {e : Event} (h : EgressInv cl g p) (hstep : p.step cl e = some p') :
    EgressInv cl g p' := by
  have hguard : ∀ {c : Call}, c.Authorized g → c.Authorized p.guard := fun hc ↦
    hc.congr h.record h.settings rfl rfl rfl rfl
  cases move_of_step hstep with
  | aexit => exact ⟨h.record, h.settings, h.sent, h.calls⟩
  | refused c hargs stopped =>
    have hputs := Puts.append p.calls c
    refine h.put hputs (.quiet (h.log.mono hputs.le_length) rfl rfl rfl rfl ⟨?_, ?_, ?_⟩)
    · exact fun hlive ↦ absurd stopped (by rw [hlive]; decide)
    · exact fun hlive ↦ absurd stopped (by rw [hlive]; decide)
    · rw [h.sentBy_fresh]
      exact Nat.zero_le _
  | @begins _ _ _ _ _ _ p₁ c₁ c hargs hmethod hurl hanswer first enters active budget authorized
      advance =>
    rw [advance.calls_eq]
    have hputs := Puts.append p.calls c₁
    exact h.put hputs (advance.segment (h.log.mono hputs.le_length) hputs.lt_length
      (Call.Authorized.of_guard authorized h.record h.settings) (by rw [first]; exact Nat.zero_le _)
      (by rw [h.sentBy_fresh]; exact Nat.zero_le _))
  | @resumes _ i c p₁ c₁ hi hc acquiring advance =>
    rw [advance.calls_eq]
    have hputs := Puts.set hc c₁
    have hlive : c.stage.stopped = false := by
      cases hs : c.stage <;> rw [hs] at acquiring <;> first | rfl | cases acquiring
    obtain ⟨hauth, hwithin, hcount⟩ := h.calls i c hc
    refine h.put hputs (advance.segment (h.log.mono hputs.le_length) hputs.lt_length (hauth hlive)
      (hwithin hlive) ?_)
    rw [Call.quota] at hcount
    cases hs : c.stage <;> rw [hs] at acquiring hcount <;> first | exact hcount | cases acquiring
  | @emits _ i c p₀ p₁ c₁ hi hc inCallback same emit =>
    have hcalls : p₁.calls = p.calls := by
      cases emit with
      | fails _ same' => rw [same'.calls, same.calls]
      | sends _ _ _ _ calls _ _ => rw [calls, same.calls]
    rw [hcalls]
    have hputs := Puts.set hc c₁
    have hlive : c.stage.stopped = false := by
      cases hs : c.stage <;> rw [hs] at inCallback <;> first | rfl | cases inCallback
    obtain ⟨hauth, hwithin, hcount⟩ := h.calls i c hc
    have hlog := (h.log.mono hputs.le_length).congr (by rw [same.guard]) (by rw [same.guard])
      same.sent
    have hseg := emit.segment hlog hputs.lt_length (hauth hlive) (hwithin hlive) (by
      rw [sentBy_congr same.sent]
      rw [Call.quota] at hcount
      cases hs : c.stage <;> rw [hs] at inCallback hcount <;>
        first | exact hcount | cases inCallback)
    exact h.put hputs ⟨hseg.log, hcalls, hseg.self, fun j hj ↦
      (hseg.other j hj).trans (sentBy_congr same.sent j)⟩
  | @hops i _ _ _ c req p₀ p₁ c₂ c₁ hc sending enters hargs next within hmethod budget authorized
      same advance =>
    have hcalls : p₁.calls = p.calls := advance.calls_eq.trans same.calls
    rw [hcalls]
    have hputs := Puts.set hc c₂
    obtain ⟨hauth, hwithin, hcount⟩ := h.calls i c hc
    have hlive : c.stage.stopped = false := by rw [sending]; rfl
    have hlog := (h.log.mono hputs.le_length).congr (by rw [same.guard]) (by rw [same.guard])
      same.sent
    have hseg := advance.segment hlog hputs.lt_length
      (Call.Authorized.of_guard (authorized (hguard (hauth hlive))) h.record h.settings)
      (by rw [hargs]; exact within) (by
        rw [sentBy_congr same.sent, next]
        rw [Call.quota, sending] at hcount
        exact hcount)
    exact h.put hputs ⟨hseg.log, hcalls, hseg.self, fun j hj ↦
      (hseg.other j hj).trans (sentBy_congr same.sent j)⟩
  | @stops _ i c p₁ c₁ hi hc live hargs stopped same =>
    rw [same.calls]
    have hputs := Puts.set hc c₁
    obtain ⟨hauth, hwithin, hcount⟩ := h.calls i c hc
    refine h.put hputs (.quiet (h.log.mono hputs.le_length) (by rw [same.guard])
      (by rw [same.guard]) same.sent same.calls ⟨?_, ?_, ?_⟩)
    · exact fun hlive ↦ absurd stopped (by rw [hlive]; decide)
    · exact fun hlive ↦ absurd stopped (by rw [hlive]; decide)
    · -- while it was live it had at most one request more than redirects
      have hw := hwithin live
      have hq : c₁.quota = c.args.max_redirects + 1 := by
        rw [← hargs, Call.quota]
        cases hs : c₁.stage <;> rw [hs] at stopped <;> first | rfl | cases stopped
      rw [hq]
      rw [Call.quota] at hcount
      split at hcount <;> omega

theorem EgressInv.init (cl : Client κ) (g : ScopeGuard) (store : κ) (clock : ℚ) :
    EgressInv cl g (Pool.init g store clock) :=
  ⟨rfl, rfl, fun _ hs ↦ absurd hs List.not_mem_nil, fun _ _ hc ↦ absurd hc (by simp [Pool.init])⟩

theorem EgressInv.run {store : κ} {clock : ℚ} {es : List Event}
    (h : Machine.run (Pool.step cl) (Pool.init g store clock) es = some p) : EgressInv cl g p :=
  Machine.inv_of_run (fun hI hs ↦ hI.step hs) h (.init cl g store clock)

/-! ### Hop-by-hop authorization -/

/-- **Hop-by-hop authorization of all egress.** In every run of any number of calls over one guard,
each request handed to the library was built from a method and a URL that the gate itself allows
under the DNS answer of that hop, and a call sends at most one request more than its allowed
redirects. -/
theorem sent_authorized {store : κ} {clock : ℚ} {es : List Event}
    (h : Machine.run (step cl) (Pool.init g store clock) es = some p) :
    (∀ s ∈ p.sent, s.Built cl.httpx ∧
        ∃ d, g.check_request s.method s.url false s.answer = .ok d ∧ d.allowed = true) ∧
      ∀ i c, p.calls[i]? = some c → p.sentBy i ≤ c.args.max_redirects + 1 := by
  have hinv := EgressInv.run h
  refine ⟨fun s hs ↦ ?_, fun i c hc ↦ ?_⟩
  · obtain ⟨⟨hmethod, q, info, hloc, -⟩, hbuilt, -⟩ := hinv.sent s hs
    exact ⟨hbuilt, ScopeGuard.check_request_allowed_iff.2 ⟨hmethod, q, info, hloc⟩⟩
  · obtain ⟨-, hwithin, hcount⟩ := hinv.calls i c hc
    refine hcount.trans ?_
    rw [Call.quota]
    split
    next hs => exact Nat.succ_le_succ (hwithin (by rw [hs]; rfl))
    next => exact le_rfl
    next => exact le_rfl
    next hs₁ hs₂ hs₃ =>
      refine (hwithin ?_).trans (Nat.le_succ _)
      cases hs : c.stage with
      | returned r => exact absurd hs (hs₂ r)
      | raised e => exact absurd hs (hs₃ e)
      | _ => rfl

end Pool

end

section

attribute [local instance] asciiTables

/-- A client on the reference library, with no callback and no sandbox. -/
def sampleClient : Client Unit where
  httpx := referenceHttpx

/-- One call that is redirected once. -/
def sampleEvents : List Event := [
  .request { method := "GET".toList, url := "https://app.example/a".toList } 0 0 sampleAnswer
    sampleAnswer sampleAnswer,
  .responded 0 {
    status_code := 302
    headers := [("location".toList, "https://app.example/b".toList)] } 1 sampleAnswer,
  .responded 0 { status_code := 200 } 2 sampleAnswer ]

theorem sampleEvents_run :
    (Machine.run (Pool.step sampleClient) (Pool.init { record := sampleRecord } () 0)
      sampleEvents).map (·.sent.length) = some 2 := by
  decide +kernel

theorem sent_authorized_redirect :
    ∃ p, Machine.run (Pool.step sampleClient) (Pool.init { record := sampleRecord } () 0)
        sampleEvents = some p ∧ p.sent.length = 2 ∧
      (∀ s ∈ p.sent, s.Built sampleClient.httpx ∧
        ∃ d, ScopeGuard.check_request { record := sampleRecord } s.method s.url false s.answer =
          .ok d ∧ d.allowed = true) ∧
      ∀ i c, p.calls[i]? = some c → p.sentBy i ≤ c.args.max_redirects + 1 := by
  obtain ⟨p, hp, hlen⟩ := Option.map_eq_some_iff.1 sampleEvents_run
  exact ⟨p, hp, hlen, Pool.sent_authorized hp⟩

end

section

variable [u : UnicodeTables] {κ : Type}

/-! ### Connection to a validated address -/

/-- What the pinned build does to the host: an address literal stays, a host name becomes the first
validated address. -/
theorem build_pinned_peer {httpx : Httpx} (hlit : httpx.KeepsLiteral) {method url : Text}
    {ips : List Text} {headers : List (Text × Text)} {params : Option (List (Text × Text))}
    {data json : Option Text} {req : HttpxRequest} {parsed : ParsedUrl} (hparse : parse_url url = .ok parsed)
    (hnum : ∀ ip ∈ ips, (IpAddress.ip_address ip).isSome) (hne : ips ≠ [])
    (hself : (IpAddress.ip_address parsed.host).isSome → ips = [parsed.host])
    (h : _build_pinned httpx method url ips headers params data json = .ok req) :
    ∃ ip ∈ ips, ∃ a, IpAddress.ip_address ip = some a ∧ req.url.peer = some a.withoutZone := by
  simp only [_build_pinned, bind, Except.bind, hparse] at h
  split at h
  · cases h
  next built hbuilt =>
  split at h
  next hhost =>
    obtain rfl := Except.ok.inj h
    obtain ⟨a, ha⟩ := Option.isSome_iff_exists.1 hhost
    rw [hself hhost]
    exact ⟨parsed.host, List.mem_singleton_self _, a, ha, hlit _ _ _ _ _ _ _ _ _ hbuilt hparse ha⟩
  next hhost =>
    obtain ⟨ip, rest, rfl⟩ := List.exists_cons_of_ne_nil hne
    obtain ⟨a, ha⟩ := Option.isSome_iff_exists.1 (hnum ip List.mem_cons_self)
    have hip : ip ≠ [] := fun hnil ↦ by
      rw [hnil, IpAddress.ip_address_nil] at ha
      cases ha
    rw [List.head?_cons, Option.filter_some, if_pos (by simpa using hip)] at h
    obtain rfl := Except.ok.inj h
    exact ⟨ip, List.mem_cons_self, a, ha, by simp [Uri.peer, ha]⟩

/-- **Connect to a validated address.** Under any DNS answers, the address each request is connected
to is one that the decision of its own hop resolved; it is not on the block list, and it is internal
only where the record permits internal networks. -/
theorem Pool.sent_peer_validated {cl : Client κ} (hlit : cl.httpx.KeepsLiteral) {g : ScopeGuard}
    {p : Pool κ} {store : κ} {clock : ℚ} {es : List Event}
    (h : Machine.run (Pool.step cl) (Pool.init g store clock) es = some p) :
    ∀ s ∈ p.sent, ∃ d, g.check_request s.method s.url false s.answer = .ok d ∧ d.allowed = true ∧
      ∃ ip ∈ d.details.ips.getD [], ∃ a, IpAddress.ip_address ip = some a ∧
        s.request.url.peer = some a.withoutZone ∧ ip ∉ HARD_BLOCK_IPS ∧
        (a.isInternal = true → g._private_allowed = true) := by
  intro s hs
  obtain ⟨⟨hmethod, q, info, hloc, hips⟩, ⟨headers, params, data, json, hbuilt⟩, -⟩ :=
    (EgressInv.run h).sent s hs
  have hdecision : g.check_request s.method s.url false s.answer =
      .ok (ScopeGuard.allowDecision q info) ∧ (ScopeGuard.allowDecision q info).allowed = true :=
    ScopeGuard.check_request_eq_allow_iff.2 ⟨hmethod, q, info, hloc, rfl⟩
  refine ⟨ScopeGuard.allowDecision q info, hdecision.1, hdecision.2, ?_⟩
  obtain ⟨hinfo, hne, hnum, hself⟩ := resolve_host_ok hloc.resolved
  rw [hips] at hbuilt
  obtain ⟨ip, hip, a, ha, hpeer⟩ := build_pinned_peer hlit hloc.parsed hnum hne hself hbuilt
  have hhard := hloc.not_hard_blocked
  rw [hinfo] at hhard
  refine ⟨ip, hip, a, ha, hpeer, classify_clean hip hhard, fun hint ↦ hloc.network ?_⟩
  rw [hinfo]
  exact classify_internal hip ha hint

end

section

attribute [local instance] asciiTables

theorem sent_peer_validated_redirect :
    ∃ p, Machine.run (Pool.step sampleClient) (Pool.init { record := sampleRecord } () 0)
        sampleEvents = some p ∧ p.sent.length = 2 ∧
      ∀ s ∈ p.sent, ∃ d,
        ScopeGuard.check_request { record := sampleRecord } s.method s.url false s.answer = .ok d ∧
          d.allowed = true ∧
        ∃ ip ∈ d.details.ips.getD [], ∃ a, IpAddress.ip_address ip = some a ∧
          s.request.url.peer = some a.withoutZone ∧ ip ∉ HARD_BLOCK_IPS ∧
          (a.isInternal = true →
            ScopeGuard._private_allowed { record := sampleRecord } = true) := by
  obtain ⟨p, hp, hlen⟩ := Option.map_eq_some_iff.1 sampleEvents_run
  exact ⟨p, hp, hlen, Pool.sent_peer_validated referenceHttpx_keepsLiteral hp⟩

end

end Sentrik
