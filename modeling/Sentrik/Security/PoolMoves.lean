import Sentrik.Library.Machine
import Sentrik.Security.HttpClient

/-!
# What one step of the pool can do

Every segment of a call, once authorized, ends in one of four ways: it waits in the limiter, it has
been counted and runs the callback, it has been counted and fails before the send, or it has been
counted and sent (`Advance`). A step of the pool is one of seven moves around that (`Move`), and
`move_of_step` is the inversion every invariant of the pool is proved from.

The moves are stated over the parts of the pool the invariants read: the guard, the log, the calls,
whether the client is closed.
-/

namespace Sentrik

/-! ### Stages -/

/-- Suspended in the rate limiter: past the budget check, not counted yet. -/
def Stage.acquiring : Stage → Bool
  | .waitingLock | .sleeping => true
  | _ => false

/-- Returned or raised. -/
def Stage.stopped : Stage → Bool
  | .returned _ | .raised _ => true
  | _ => false

def Stage.inCallback : Stage → Bool
  | .callback _ => true
  | _ => false

section

variable [u : UnicodeTables] {κ : Type}

/-- The call's current hop has been authorized, and its addresses are those of that decision. -/
structure Call.Authorized (g : ScopeGuard) (c : Call) : Prop where
  method : g.MethodAllowed c.current_method
  location : ∃ p info, g.LocationAllowed c.current_url c.answer p info ∧
    c.current_ips = info.resolved_ips

/-- Neither the counter nor the stage of a call matters for that. -/
theorem Call.Authorized.congr {g g' : ScopeGuard} {c c' : Call} (h : c.Authorized g)
    (hrec : g'.record = g.record) (hset : g'._settings = g._settings)
    (hmethod : c'.current_method = c.current_method) (hurl : c'.current_url = c.current_url)
    (hips : c'.current_ips = c.current_ips) (hanswer : c'.answer = c.answer) :
    c'.Authorized g' := by
  obtain ⟨p, info, hloc, heq⟩ := h.location
  refine ⟨?_, p, info, ?_, hips.trans heq⟩
  · rw [hmethod]
    obtain ⟨record, n, settings⟩ := g
    obtain ⟨record', n', settings'⟩ := g'
    obtain rfl : record' = record := hrec
    exact h.method
  · rw [hurl, hanswer]
    exact hloc.of_record_eq hrec hset

/-! ### Segments -/

namespace Pool

/-- The same in the parts the moves are about. -/
structure Same (p p' : Pool κ) : Prop where
  guard : p'.guard = p.guard
  sent : p'.sent = p.sent
  calls : p'.calls = p.calls
  closed : p'.closed = p.closed

/-- The log entry of a call that is about to send `req`. -/
def entry (i : ℕ) (c : Call) (req : HttpxRequest) : Sent :=
  ⟨i, c.current_method, c.current_url, c.current_ips, c.answer, req⟩

/-- The request a call builds. -/
def build (cl : Client κ) (c : Call) : Except PyExc HttpxRequest :=
  _build_pinned cl.httpx c.current_method c.current_url c.current_ips c.args.headers c.args.params
    c.data c.json

/-- How the send of a call can go. -/
inductive Emit (cl : Client κ) (p : Pool κ) (i : ℕ) (c : Call) : Pool κ → Call → Prop
  | fails {p' : Pool κ} (exc : PyExc) (same : Same p p') :
    Emit cl p i c p' { c with stage := .raised exc }
  | sends {p' : Pool κ} (req : HttpxRequest) (built : build cl c = .ok req)
    (opened : p.closed = false) (guard : p'.guard = p.guard) (calls : p'.calls = p.calls)
    (closed : p'.closed = p.closed) (sent : p'.sent = p.sent ++ [entry i c req]) :
    Emit cl p i c p' { c with stage := .sending req }

theorem send_emit (cl : Client κ) (p : Pool κ) (i : ℕ) (c : Call) :
    Emit cl p i c (p.send cl i c).1 (p.send cl i c).2 := by
  unfold send
  dsimp only
  split
  next exc _ => exact .fails exc ⟨rfl, rfl, rfl, rfl⟩
  next req hreq =>
    split
    next hclosed => exact .fails _ ⟨rfl, rfl, rfl, rfl⟩
    next hclosed => exact .sends req hreq (by simpa using hclosed) rfl rfl rfl rfl

theorem Emit.calls_eq {cl : Client κ} {p p' : Pool κ} {i : ℕ} {c c' : Call}
    (h : Emit cl p i c p' c') : p'.calls = p.calls := by
  cases h with
  | fails _ same => exact same.calls
  | sends _ _ _ _ calls _ _ => exact calls

/-- How an authorized call goes on from the limiter. -/
inductive Advance (cl : Client κ) (p : Pool κ) (i : ℕ) (c : Call) : Pool κ → Call → Prop
  | waits {p' : Pool κ} (stage : Stage) (acquiring : stage.acquiring = true) (same : Same p p') :
    Advance cl p i c p' { c with stage }
  | counts {p' : Pool κ} (n : ℕ) (guard : p'.guard = p.guard.note_requests 1)
    (sent : p'.sent = p.sent) (calls : p'.calls = p.calls) (closed : p'.closed = p.closed) :
    Advance cl p i c p' { c with stage := .callback n }
  | fails {p' : Pool κ} (exc : PyExc) (guard : p'.guard = p.guard.note_requests 1)
    (sent : p'.sent = p.sent) (calls : p'.calls = p.calls) (closed : p'.closed = p.closed) :
    Advance cl p i c p' { c with stage := .raised exc }
  | sends {p' : Pool κ} (req : HttpxRequest) (built : build cl c = .ok req)
    (opened : p.closed = false) (guard : p'.guard = p.guard.note_requests 1)
    (calls : p'.calls = p.calls) (closed : p'.closed = p.closed)
    (sent : p'.sent = p.sent ++ [entry i c req]) :
    Advance cl p i c p' { c with stage := .sending req }

theorem limited_advance (cl : Client κ) (p : Pool κ) (i : ℕ) (c : Call)
    (r : RateLimiter × RateLimiter.Progress) :
    Advance cl p i c (p.limited cl i c r).1 (p.limited cl i c r).2 := by
  unfold limited
  dsimp only
  split
  · unfold acquired
    dsimp only
    split
    · exact .counts _ rfl rfl rfl rfl
    · have h := send_emit cl
        { p with rate := r.1, guard := p.guard.note_requests 1 } i c
      generalize hp : Pool.send cl _ i c = s at h ⊢
      obtain ⟨p', c'⟩ := s
      rcases h with ⟨exc, same⟩ | ⟨req, built, opened, guard, calls, closed, sent⟩
      · exact .fails exc same.guard same.sent same.calls same.closed
      · exact .sends req built opened guard calls closed sent
  · exact .waits .waitingLock rfl ⟨rfl, rfl, rfl, rfl⟩
  · exact .waits .sleeping rfl ⟨rfl, rfl, rfl, rfl⟩

theorem Advance.calls_eq {cl : Client κ} {p p' : Pool κ} {i : ℕ} {c c' : Call}
    (h : Advance cl p i c p' c') : p'.calls = p.calls := by
  cases h with
  | waits _ _ same => exact same.calls
  | counts _ _ _ calls _ => exact calls
  | fails _ _ _ calls _ => exact calls
  | sends _ _ _ _ calls _ _ => exact calls

/-! ### Entering the limiter -/

/-- The response is a redirect the call follows: within the allowed number, to a location that can be
joined and that the gate allows. -/
def Follows (cl : Client κ) (p : Pool κ) (c : Call) (req : HttpxRequest) (resp : Response)
    (answer : DnsAnswer) : Prop :=
  ∃ location joined decision, resp.headers.lookup "location".toList = some location ∧
    resp.status_code ∈ [301, 302, 303, 307, 308] ∧ c.redirects + 1 ≤ c.args.max_redirects ∧
    cl.httpx.join req.url location = .ok joined ∧
    p.guard.check_request "GET".toList joined true answer = .ok decision ∧ decision.allowed = true

/-- The event takes a call past its budget check, on to the limiter. -/
def Enters (cl : Client κ) (p : Pool κ) : Event → Prop
  | .request args now _ scope rebinding sandbox =>
    ∃ decision, p.precheck cl args now scope rebinding sandbox = .ok decision
  | .responded i resp _ answer => ∃ c req, p.calls[i]? = some c ∧ c.stage = .sending req ∧
      Follows cl p c req resp answer ∧ (p.guard.check_budget 1).allowed = true
  | _ => False

/-! ### Moves -/

/-- **What one step can do.** -/
inductive Move (cl : Client κ) (p : Pool κ) : Event → Pool κ → Prop
  /-- The client is closed. -/
  | aexit : Move cl p .aexit { p with closed := true }
  /-- A new call is turned down by one of the gates. -/
  | refused {args now clock a₁ a₂ a₃} (c : Call) (hargs : c.args = args)
    (stopped : c.stage.stopped = true) :
    Move cl p (.request args now clock a₁ a₂ a₃) { p with calls := p.calls ++ [c] }
  /-- A new call passes the gates. -/
  | begins {args now clock a₁ a₂ a₃ p' c'} (c : Call) (hargs : c.args = args)
    (hmethod : c.current_method = args.method) (hurl : c.current_url = args.url)
    (hanswer : c.answer = a₁) (first : c.redirects = 0)
    (enters : Enters cl p (.request args now clock a₁ a₂ a₃))
    (active : (p.guard.check_record_active now).allowed = true)
    (budget : (p.guard.check_budget 1).allowed = true) (authorized : c.Authorized p.guard)
    (advance : Advance cl p p.calls.length c p' c') :
    Move cl p (.request args now clock a₁ a₂ a₃) { p' with calls := p'.calls ++ [c'] }
  /-- A call goes on from the limiter. -/
  | resumes {e i c p' c'} (hi : e.call? = some i) (hc : p.calls[i]? = some c)
    (acquiring : c.stage.acquiring = true) (advance : Advance cl p i c p' c') :
    Move cl p e { p' with calls := p'.calls.set i c' }
  /-- A call goes on from the callback. -/
  | emits {e i c p₀ p' c'} (hi : e.call? = some i) (hc : p.calls[i]? = some c)
    (inCallback : c.stage.inCallback = true) (same : Same p p₀) (emit : Emit cl p₀ i c p' c') :
    Move cl p e { p' with calls := p'.calls.set i c' }
  /-- A call follows a redirect. -/
  | hops {i resp clock answer c req p₀ p' c'} (c₁ : Call) (hc : p.calls[i]? = some c)
    (sending : c.stage = .sending req) (enters : Enters cl p (.responded i resp clock answer))
    (hargs : c₁.args = c.args)
    (next : c₁.redirects = c.redirects + 1) (within : c₁.redirects ≤ c.args.max_redirects)
    (hmethod : c₁.current_method = c.current_method ∨ c₁.current_method = "GET".toList)
    (budget : (p.guard.check_budget 1).allowed = true)
    (authorized : c.Authorized p.guard → c₁.Authorized p.guard) (same : Same p p₀)
    (advance : Advance cl p₀ i c₁ p' c') :
    Move cl p (.responded i resp clock answer) { p' with calls := p'.calls.set i c' }
  /-- A call is over. -/
  | stops {e i c p' c'} (hi : e.call? = some i) (hc : p.calls[i]? = some c)
    (live : c.stage.stopped = false) (hargs : c'.args = c.args)
    (stopped : c'.stage.stopped = true) (same : Same p p') :
    Move cl p e { p' with calls := p'.calls.set i c' }

/-- The gates in front of the limiter, passed. -/
theorem precheck_ok {cl : Client κ} {p : Pool κ} {args : Args} {now : ℤ}
    {a₁ a₂ a₃ : DnsAnswer} {d : ScopeDecision} (h : p.precheck cl args now a₁ a₂ a₃ = .ok d) :
    (p.guard.check_record_active now).allowed = true ∧ (p.guard.check_budget 1).allowed = true ∧
      p.guard.check_request args.method args.url false a₁ = .ok d ∧ d.allowed = true := by
  simp only [precheck, bind, Except.bind] at h
  split at h
  · cases h
  next hactive =>
  split at h
  · cases h
  next hbudget =>
  split at h
  · cases h
  next d' hrequest =>
  split at h
  · cases h
  next hallowed =>
  have hd : d' = d := by
    split at h
    · cases h
    split at h
    · split at h
      · cases h
      · exact Except.ok.inj h
    · exact Except.ok.inj h
  rw [hd] at hrequest hallowed
  exact ⟨ScopeDecision.raise_if_denied_ok.1 hactive, ScopeDecision.raise_if_denied_ok.1 hbudget,
    hrequest, ScopeDecision.raise_if_denied_ok.1 hallowed⟩

/-- An allowed decision gives the addresses the hop is bound to. -/
theorem authorized_of_check_request {g : ScopeGuard} {method method' url : Text} {r : Bool}
    {answer : DnsAnswer} {d : ScopeDecision}
    (h : g.check_request method url r answer = .ok d) (hd : d.allowed = true)
    (hm : g.MethodAllowed method') {c : Call} (hmethod : c.current_method = method')
    (hurl : c.current_url = url) (hips : c.current_ips = d.details.ips.getD [])
    (hanswer : c.answer = answer) : c.Authorized g := by
  obtain ⟨-, q, info, hloc, rfl⟩ := ScopeGuard.check_request_eq_allow_iff.1 ⟨h, hd⟩
  refine ⟨hmethod ▸ hm, q, info, ?_, hips⟩
  rw [hurl, hanswer]
  exact hloc

theorem request_move (cl : Client κ) (p : Pool κ) (args : Args) (now : ℤ) (clock : ℚ)
    (a₁ a₂ a₃ : DnsAnswer) :
    Move cl p (.request args now clock a₁ a₂ a₃)
      { (p.request cl args now clock a₁ a₂ a₃).1 with
        calls := (p.request cl args now clock a₁ a₂ a₃).1.calls ++
          [(p.request cl args now clock a₁ a₂ a₃).2] } := by
  unfold request
  dsimp only
  split
  next exc _ => exact .refused _ rfl rfl
  next d hd =>
    obtain ⟨hactive, hbudget, hrequest, hallowed⟩ := precheck_ok hd
    have hm := (ScopeGuard.check_request_eq_allow_iff.1 ⟨hrequest, hallowed⟩).1
    exact .begins { newCall args a₁ with current_ips := d.details.ips.getD [] } rfl rfl rfl rfl rfl
      ⟨d, hd⟩ hactive hbudget (authorized_of_check_request hrequest hallowed hm rfl rfl rfl rfl)
      (limited_advance cl p _ _ _)

/-- What a response does to the call that awaits it. -/
theorem respond_cases (cl : Client κ) (p : Pool κ) (i : ℕ) (c : Call) (req : HttpxRequest)
    (resp : Response) (clock : ℚ) (answer : DnsAnswer) :
    (Same p (p.respond cl i c req resp clock answer).1 ∧
        (p.respond cl i c req resp clock answer).2.args = c.args ∧
        (p.respond cl i c req resp clock answer).2.stage.stopped = true) ∨
      ∃ p₀ c₁, Follows cl p c req resp answer ∧ Same p p₀ ∧ c₁.args = c.args ∧ c₁.redirects = c.redirects + 1 ∧
        c₁.redirects ≤ c.args.max_redirects ∧
        (c₁.current_method = c.current_method ∨ c₁.current_method = "GET".toList) ∧
        (p.guard.check_budget 1).allowed = true ∧
        (c.Authorized p.guard → c₁.Authorized p.guard) ∧
        Advance cl p₀ i c₁ (p.respond cl i c req resp clock answer).1
          (p.respond cl i c req resp clock answer).2 := by
  unfold respond
  dsimp only
  split
  swap
  · exact Or.inl ⟨⟨rfl, rfl, rfl, rfl⟩, rfl, rfl⟩
  next location hlocation =>
  split
  swap
  · exact Or.inl ⟨⟨rfl, rfl, rfl, rfl⟩, rfl, rfl⟩
  next hstatus =>
  split
  · exact Or.inl ⟨⟨rfl, rfl, rfl, rfl⟩, rfl, rfl⟩
  next hmax =>
    unfold redirect
    dsimp only
    split
    · exact Or.inl ⟨⟨rfl, rfl, rfl, rfl⟩, rfl, rfl⟩
    next joined hjoin =>
    split
    · exact Or.inl ⟨⟨rfl, rfl, rfl, rfl⟩, rfl, rfl⟩
    next d hrequest =>
    split
    · exact Or.inl ⟨⟨rfl, rfl, rfl, rfl⟩, rfl, rfl⟩
    next hallowed =>
    have hallowed' : d.allowed = true := by simpa using hallowed
    split
    · refine Or.inl ⟨⟨rfl, rfl, rfl, rfl⟩, ?_, rfl⟩
      dsimp only
      split <;> rfl
    next hbudget =>
    have hfollows : Follows cl p c req resp answer :=
      ⟨location, joined, d, hlocation, hstatus, not_lt.1 hmax, hjoin, hrequest, hallowed'⟩
    refine Or.inr ⟨{ p with consecutive_errors := 0 }, _, hfollows, ⟨rfl, rfl, rfl, rfl⟩, ?_, ?_, ?_, ?_,
      ScopeDecision.raise_if_denied_ok.1 hbudget, fun hc ↦ ?_, limited_advance cl _ i _ _⟩
    · dsimp only
      split <;> rfl
    · dsimp only
      split <;> rfl
    · dsimp only
      split <;> exact not_lt.1 hmax
    · dsimp only
      split
      · exact Or.inr rfl
      · exact Or.inl rfl
    · -- the re-check was for `GET`; a kept method was authorized on the hop before
      have hget := (ScopeGuard.check_request_eq_allow_iff.1 ⟨hrequest, hallowed'⟩).1
      by_cases hswitch : resp.status_code ∈ [301, 302, 303]
      · exact authorized_of_check_request hrequest hallowed' hget (by simp [hswitch]) rfl rfl rfl
      · exact authorized_of_check_request hrequest hallowed' hc.method (by simp [hswitch]) rfl rfl
          rfl

/-- What resuming a call does. -/
theorem resume_move {cl : Client κ} {p p' : Pool κ} {i : ℕ} {c c' : Call} {e : Event}
    (hi : e.call? = some i) (hc : p.calls[i]? = some c) (h : p.resume cl i c e = some (p', c')) :
    Move cl p e { p' with calls := p'.calls.set i c' } := by
  unfold resume at h
  split at h
  next _ _ j clock hstage =>
    split at h
    · have hadv := limited_advance cl p i c (p.rate.locked clock)
      rw [Option.some.inj h] at hadv
      exact .resumes hi hc (by rw [hstage]; rfl) hadv
    · cases h
  next _ _ j clock hstage =>
    have hadv := limited_advance cl p i c (p.rate.slept clock, .acquired)
    rw [Option.some.inj h] at hadv
    exact .resumes hi hc (by rw [hstage]; rfl) hadv
  next _ _ j count hstage =>
    have hemit := send_emit cl
      { p with store := (cl.on_request.getD fun _ s ↦ s) count p.store } i c
    rw [Option.some.inj h] at hemit
    refine .emits hi hc (by rw [hstage]; rfl) ?_ hemit
    exact ⟨rfl, rfl, rfl, rfl⟩
  next _ _ j resp clock answer req hstage =>
    obtain rfl : j = i := Option.some.inj hi
    have hresp := respond_cases cl p j c req resp clock answer
    rw [Option.some.inj h] at hresp
    rcases hresp with
      ⟨same, hargs, stopped⟩ |
      ⟨p₀, c₁, follows, same, hargs, next, within, hmethod, budget, auth, adv⟩
    · exact .stops rfl hc (by rw [hstage]; rfl) hargs stopped same
    · exact .hops c₁ hc hstage ⟨c, req, hc, hstage, follows, budget⟩ hargs next within hmethod
        budget auth same adv
  next _ _ j message req hstage =>
    obtain ⟨rfl, rfl⟩ := Prod.mk.inj (Option.some.inj h)
    exact .stops hi hc (by rw [hstage]; rfl) rfl rfl ⟨rfl, rfl, rfl, rfl⟩
  next _ _ j exc hstage =>
    obtain ⟨rfl, rfl⟩ := Prod.mk.inj (Option.some.inj h)
    exact .stops hi hc (by rw [hstage]; rfl) rfl rfl ⟨rfl, rfl, rfl, rfl⟩
  next _ _ j exc hstage =>
    obtain ⟨rfl, rfl⟩ := Prod.mk.inj (Option.some.inj h)
    exact .stops hi hc (by rw [hstage]; rfl) rfl rfl ⟨rfl, rfl, rfl, rfl⟩
  next _ _ j exc count hstage =>
    obtain ⟨rfl, rfl⟩ := Prod.mk.inj (Option.some.inj h)
    exact .stops hi hc (by rw [hstage]; rfl) rfl rfl ⟨rfl, rfl, rfl, rfl⟩
  next _ _ j exc req hstage =>
    obtain ⟨rfl, rfl⟩ := Prod.mk.inj (Option.some.inj h)
    exact .stops hi hc (by rw [hstage]; rfl) rfl rfl ⟨rfl, rfl, rfl, rfl⟩
  next => cases h

/-- **The inversion.** -/
theorem move_of_step {cl : Client κ} {p p' : Pool κ} {e : Event} (h : p.step cl e = some p') :
    Move cl p e p' := by
  cases e with
  | request args now clock a₁ a₂ a₃ =>
    obtain rfl := Option.some.inj h
    exact request_move cl p args now clock a₁ a₂ a₃
  | aexit =>
    obtain rfl := Option.some.inj h
    exact .aexit
  | _ =>
    simp only [step, Event.call?, Option.bind_eq_bind, Option.bind_some] at h
    obtain ⟨c, hc, h⟩ := Option.bind_eq_some_iff.1 h
    obtain ⟨⟨q, c'⟩, hr, h⟩ := Option.bind_eq_some_iff.1 h
    obtain rfl := Option.some.inj h
    exact resume_move rfl hc hr

end Pool

end

end Sentrik
