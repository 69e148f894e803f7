import Mathlib.Algebra.GroupWithZero.Nat
import Sentrik.Security.Budget

/-!
# The request budget over the life of an assessment

An assessment is executed several times, one execution after another: the run itself, then any number
of executions of steps approved later. Each builds a fresh guard from the stored counter, and the
stored counter is written by the accounting callback alone, at every tenth request of a first hop.

The model keeps the clients of past executions: they are closed, but a task of theirs may still be
suspended and go on, which counts and calls back before the send fails.

`total` counts what is sent to the target over all executions, logins of test accounts included; those
use a client of their own.
-/

namespace Sentrik

/-- The accounting callback, as its effect on the stored counter. -/
def _persist_request_count (count stored : ℕ) : ℕ := if count % 10 = 0 then count else stored

/-- What is left of an assessment when only its requests are looked at. -/
structure Lifetime where
  record : AuthorizationRecord
  settings : Settings
  /-- The stored counter. -/
  requests_made : ℕ := 0
  /-- The client of the execution that is going on. -/
  current : Option (Pool ℕ) := none
  /-- The closed clients of the executions before it. -/
  past : List (Pool ℕ) := []
  /-- Requests sent by logins. -/
  logins : ℕ := 0

/-- What happens to an assessment. -/
inductive LifetimeEvent
  /-- An execution starts: a fresh guard and a fresh client. -/
  | enter (clock : ℚ)
  /-- A step of the open client. -/
  | client (e : Event)
  /-- The client's context is left. -/
  | leave
  /-- A step of a call made on the closed client of execution `k`. -/
  | orphan (k : ℕ) (e : Event)
  /-- A login sends `n` requests. -/
  | login (n : ℕ)

namespace Lifetime

/-- The guard of the next execution. -/
def _make_guard (l : Lifetime) : ScopeGuard where
  record := l.record
  requests_made := l.requests_made
  _settings := l.settings

/-- Requests sent by the executions before the current one. -/
def pastSent (l : Lifetime) : ℕ := (l.past.map (·.sent.length)).sum

/-- Requests sent to the target. -/
def total (l : Lifetime) : ℕ :=
  l.pastSent + (l.current.elim 0 fun p ↦ p.sent.length) + l.logins

/-- The limit of every guard of the assessment. -/
def limit (l : Lifetime) : ℤ := l._make_guard.limit

theorem map_sent_set {l : List (Pool ℕ)} {k : ℕ} {p p' : Pool ℕ} (hp : l[k]? = some p)
    (h : p'.sent = p.sent) : (l.set k p').map (·.sent.length) = l.map (·.sent.length) := by
  obtain ⟨hk, rfl⟩ := List.getElem?_eq_some_iff.1 hp
  rw [List.map_set, h]
  refine List.ext_getElem? fun j ↦ ?_
  by_cases hj : k = j
  · subst hj
    rw [List.getElem?_set_self (by simpa using hk), List.getElem?_map,
      List.getElem?_eq_getElem hk, Option.map_some]
  · rw [List.getElem?_set_ne hj]

variable [u : UnicodeTables]

def step (cl : Client ℕ) (l : Lifetime) : LifetimeEvent → Option Lifetime
  | .enter clock =>
    if l.current.isSome then none
    else some { l with current := some (Pool.init l._make_guard l.requests_made clock) }
  | .client e => do
    let p ← l.current
    let p ← Pool.step cl { p with store := l.requests_made } e
    return { l with current := some p, requests_made := p.store }
  | .leave => do
    let p ← l.current
    return { l with current := none, past := l.past ++ [{ p with closed := true }] }
  | .orphan k e => do
    let p ← l.past[k]?
    let p ← Pool.step cl { p with store := l.requests_made } e
    return { l with past := l.past.set k p, requests_made := p.store }
  | .login n => some { l with logins := l.logins + n }

/-! ### A closed client sends nothing -/

theorem sent_eq_of_closed {κ : Type} {cl : Client κ} {p p' : Pool κ} {e : Event}
    (hclosed : p.closed = true) (h : p.step cl e = some p') :
    p'.sent = p.sent ∧ p'.closed = true := by
  have hadv : ∀ {p₀ p₁ : Pool κ} {i c c'}, p₀.sent = p.sent → p₀.closed = true →
      Pool.Advance cl p₀ i c p₁ c' → p₁.sent = p.sent ∧ p₁.closed = true := by
    intro p₀ p₁ i c c' hsent hcl hadv
    cases hadv with
    | waits _ _ same => exact ⟨same.sent.trans hsent, same.closed.trans hcl⟩
    | counts _ _ sent _ closed => exact ⟨sent.trans hsent, closed.trans hcl⟩
    | fails _ _ sent _ closed => exact ⟨sent.trans hsent, closed.trans hcl⟩
    | sends _ _ opened => exact absurd (hcl.symm.trans opened) (by decide)
  cases Pool.move_of_step h with
  | aexit => exact ⟨rfl, rfl⟩
  | refused => exact ⟨rfl, hclosed⟩
  | begins _ _ _ _ _ _ _ _ _ _ advance =>
    obtain ⟨hsent, hcl⟩ := hadv rfl hclosed advance
    exact ⟨hsent, hcl⟩
  | resumes _ _ _ advance =>
    obtain ⟨hsent, hcl⟩ := hadv rfl hclosed advance
    exact ⟨hsent, hcl⟩
  | emits _ _ _ same emit =>
    cases emit with
    | fails _ same' =>
      exact ⟨same'.sent.trans same.sent, (same'.closed.trans same.closed).trans hclosed⟩
    | sends _ _ opened =>
      exact absurd ((same.closed.trans hclosed).symm.trans opened) (by decide)
  | hops _ _ _ _ _ _ _ _ _ _ same advance =>
    obtain ⟨hsent, hcl⟩ := hadv same.sent (same.closed.trans hclosed) advance
    exact ⟨hsent, hcl⟩
  | stops _ _ _ _ _ same => exact ⟨same.sent, same.closed.trans hclosed⟩

/-! ### The invariant -/

/-- The side condition on a step: an execution starts from a stored counter that covers what has been
sent, the grants of its client leave room for what is pending, and nobody logs in. -/
def Accounted (cl : Client ℕ) (l : Lifetime) : LifetimeEvent → Prop
  | .enter _ => l.total ≤ l.requests_made
  | .client e => ∀ p, l.current = some p → Pool.Slack cl { p with store := l.requests_made } e
  | .leave | .orphan .. => True
  | .login _ => False

/-- **The lifetime invariant**: the total is within the limit, past clients are closed, and the open
one started from a counter that covers everything before it. -/
structure Inv (record : AuthorizationRecord) (settings : Settings) (l : Lifetime) : Prop where
  record_eq : l.record = record
  settings_eq : l.settings = settings
  total_le : (l.total : ℤ) ≤ l.limit
  closed : ∀ p ∈ l.past, p.closed = true
  opened : ∀ p, l.current = some p →
    ∃ made₀, Pool.BudgetInv l.limit made₀ p ∧ l.pastSent + l.logins ≤ made₀

/-- **Every accounted step keeps the lifetime invariant.** -/
theorem Inv.step {cl : Client ℕ} {record : AuthorizationRecord} {settings : Settings}
    {l l' : Lifetime} {e : LifetimeEvent} (h : Inv record settings l) (hacc : Accounted cl l e)
    (hstep : l.step cl e = some l') : Inv record settings l' := by
  cases e with
  | enter clock =>
    simp only [Lifetime.step] at hstep
    split at hstep
    · cases hstep
    next hnone =>
      obtain rfl := Option.some.inj hstep
      have hcur : l.current = none := by simpa using hnone
      have htotal : l.total = l.pastSent + l.logins := by simp [total, hcur]
      refine ⟨h.record_eq, h.settings_eq, ?_, h.closed, fun p hp ↦ ?_⟩
      · have := h.total_le
        rw [htotal] at this
        exact this
      · obtain rfl := Option.some.inj hp
        exact ⟨l.requests_made, Pool.BudgetInv.init l._make_guard l.requests_made clock,
          htotal ▸ hacc⟩
  | client e =>
    obtain ⟨p, hp, hstep⟩ := Option.bind_eq_some_iff.1 hstep
    obtain ⟨p', hp', hstep⟩ := Option.bind_eq_some_iff.1 hstep
    obtain rfl := Option.some.inj hstep
    obtain ⟨made₀, hinv, hcover⟩ := h.opened p hp
    have hinv' : Pool.BudgetInv l.limit made₀ { p with store := l.requests_made } :=
      ⟨hinv.limit_eq, hinv.granted, hinv.sent⟩
    have hnext := hinv'.step (hacc p hp) hp'
    refine ⟨h.record_eq, h.settings_eq, ?_, h.closed, fun q hq ↦ ?_⟩
    · have hbefore := h.total_le
      have hgranted := hnext.granted
      have hsent := hnext.sent
      simp only [total, hp, Option.elim_some] at hbefore ⊢
      change ((l.pastSent + p'.sent.length + l.logins : ℕ) : ℤ) ≤ l.limit
      rcases le_total (made₀ : ℤ) l.limit with hle | hle
      · rw [max_eq_left hle] at hgranted
        omega
      · -- a guard that starts at the limit grants nothing, so nothing new is sent
        rw [max_eq_right hle] at hgranted
        omega
    · obtain rfl := Option.some.inj hq
      exact ⟨made₀, hnext, hcover⟩
  | leave =>
    obtain ⟨p, hp, hstep⟩ := Option.bind_eq_some_iff.1 hstep
    obtain rfl := Option.some.inj hstep
    refine ⟨h.record_eq, h.settings_eq, ?_, fun q hq ↦ ?_, fun q hq ↦ by cases hq⟩
    · have := h.total_le
      simp only [total, pastSent, hp, Option.elim_some, Option.elim_none, List.map_append,
        List.sum_append, List.map_cons, List.map_nil, List.sum_cons, List.sum_nil, Nat.add_zero]
        at this ⊢
      exact this
    · rcases List.mem_append.1 hq with hq | hq
      · exact h.closed q hq
      · rw [List.mem_singleton.1 hq]
  | orphan k e =>
    obtain ⟨p, hp, hstep⟩ := Option.bind_eq_some_iff.1 hstep
    obtain ⟨p', hp', hstep⟩ := Option.bind_eq_some_iff.1 hstep
    obtain rfl := Option.some.inj hstep
    have hmem := List.mem_of_getElem? hp
    have hcl : Pool.closed { p with store := l.requests_made } = true := h.closed p hmem
    obtain ⟨hsent, hclosed⟩ := sent_eq_of_closed hcl hp'
    have hpast : ((l.past.set k p').map (·.sent.length)).sum = l.pastSent := by
      rw [map_sent_set hp hsent, pastSent]
    refine ⟨h.record_eq, h.settings_eq, ?_, fun q hq ↦ ?_, fun q hq ↦ ?_⟩
    · have := h.total_le
      simp only [total, pastSent, hpast] at this ⊢
      exact this
    · rcases List.mem_or_eq_of_mem_set hq with hq | rfl
      · exact h.closed q hq
      · exact hclosed
    · obtain ⟨made₀, hinv, hcover⟩ := h.opened q hq
      refine ⟨made₀, hinv, ?_⟩
      rw [pastSent, hpast]
      exact hcover
  | login n => exact hacc.elim

end Lifetime

section

attribute [local instance] asciiTables

/-- The client of the engine: the reference library with the accounting callback. -/
def accountingClient : Client ℕ where
  httpx := referenceHttpx
  on_request := some _persist_request_count

/-- One execution that sends one request and has it answered. -/
def oneRequest (clock : ℚ) : List LifetimeEvent := [
  .enter clock, .client (getRequest clock), .client (.calledBack 0),
  .client (.responded 0 { status_code := 200 } clock sampleAnswer), .leave ]

end

end Sentrik
