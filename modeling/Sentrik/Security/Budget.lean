import Sentrik.Library.Slots
import Sentrik.Security.PoolMoves
import Sentrik.Security.ReferenceHttpx

/-!
# The request budget under concurrency

The budget check and the count of a request are separated by the wait in the rate limiter, on a first
hop and on every redirect. Between the two a call is **pending**: it has been granted a request that
the counter does not show.

`Move.ledger` is the bookkeeping of one step: granting makes `requests_made + pending` one larger,
every other step leaves it as it is or makes it smaller, and a request is sent only after it was
counted.

So the limit is kept in every run in which the grants leave room for what is pending (`Slack`). The
check itself does not see that number — `check_budget` compares the counter alone — and two calls that
wait for the limiter together can both have been granted the last request.
-/

namespace Sentrik

namespace Pool

/-! ### The ledger -/

section

variable {κ : Type}

/-- The calls that are past their budget check and not counted yet. -/
def pending (p : Pool κ) : ℕ := p.calls.countP (·.stage.acquiring)

/-- The calls that are counted and in the accounting callback. -/
def inCallback (p : Pool κ) : ℕ := p.calls.countP (·.stage.inCallback)

/-- **The budget invariant**, for a guard that started with `made₀` requests counted. -/
structure BudgetInv (limit : ℤ) (made₀ : ℕ) (p : Pool κ) : Prop where
  limit_eq : p.guard.limit = limit
  granted : (p.guard.requests_made + p.pending : ℤ) ≤ max limit made₀
  sent : p.sent.length + p.inCallback + made₀ ≤ p.guard.requests_made

theorem BudgetInv.init (g : ScopeGuard) (store : κ) (clock : ℚ) :
    BudgetInv g.limit g.requests_made (Pool.init g store clock) where
  limit_eq := rfl
  granted := by
    rw [Pool.init, pending, List.countP_nil]
    exact (add_zero _).trans_le (le_max_right _ _)
  sent := by
    change 0 + 0 + g.requests_made ≤ g.requests_made
    omega

end

/-- A stopped call is neither pending nor in the callback. -/
theorem ledger_of_stopped {s : Stage} (h : s.stopped = true) :
    s.acquiring = false ∧ s.inCallback = false := by
  cases s <;> first | exact ⟨rfl, rfl⟩ | cases h

section

variable [u : UnicodeTables] {κ : Type} {cl : Client κ} {p p' : Pool κ} {i : ℕ} {c c' : Call}

/-- Going on from the limiter either stays pending or counts one request; what is sent, or is about
to be, has been counted. -/
theorem Advance.ledger (h : Advance cl p i c p' c') :
    p'.guard.limit = p.guard.limit ∧
      p'.guard.requests_made + (if c'.stage.acquiring then 1 else 0) = p.guard.requests_made + 1 ∧
      p'.sent.length + (if c'.stage.inCallback then 1 else 0) + p.guard.requests_made ≤
        p.sent.length + p'.guard.requests_made := by
  cases h with
  | waits stage acquiring same =>
    have hcb : stage.inCallback = false := by cases stage <;> first | rfl | cases acquiring
    rw [same.guard, same.sent]
    simp [acquiring, hcb]
  | counts n guard sent calls closed =>
    rw [guard, sent]
    simp [Stage.acquiring, Stage.inCallback]
    omega
  | fails exc guard sent calls closed =>
    rw [guard, sent]
    simp [Stage.acquiring, Stage.inCallback]
  | sends req built opened guard calls closed sent =>
    rw [guard, sent]
    simp [Stage.acquiring, Stage.inCallback]
    omega

/-- The send of a call that has been counted. -/
theorem Emit.ledger (h : Emit cl p i c p' c') :
    p'.guard = p.guard ∧ c'.stage.acquiring = false ∧ c'.stage.inCallback = false ∧
      p'.sent.length ≤ p.sent.length + 1 := by
  cases h with
  | fails exc same => exact ⟨same.guard, rfl, rfl, by rw [same.sent]; exact Nat.le_succ _⟩
  | sends req built opened guard calls closed sent =>
    exact ⟨guard, rfl, rfl, by rw [sent, List.length_append]; exact le_rfl⟩

/-- **The bookkeeping of one step.** -/
theorem Move.ledger {e : Event} (h : Move cl p e p') :
    p'.guard.limit = p.guard.limit ∧
      (p'.guard.requests_made + p'.pending ≤ p.guard.requests_made + p.pending ∨
        Enters cl p e ∧
          p'.guard.requests_made + p'.pending ≤ p.guard.requests_made + p.pending + 1) ∧
      p'.sent.length + p'.inCallback + p.guard.requests_made ≤
        p.sent.length + p.inCallback + p'.guard.requests_made := by
  cases h with
  | aexit => exact ⟨rfl, Or.inl le_rfl, le_rfl⟩
  | refused c hargs stopped =>
    obtain ⟨hacq, hcb⟩ := ledger_of_stopped stopped
    simp [pending, inCallback, List.countP_append, hacq, hcb]
  | @begins _ _ _ _ _ _ p₁ c₁ c hargs hmethod hurl hanswer first enters active budget authorized
      advance =>
    obtain ⟨hlimit, hmade, hsent⟩ := advance.ledger
    refine ⟨hlimit, Or.inr ⟨enters, ?_⟩, ?_⟩ <;>
      simp only [pending, inCallback, advance.calls_eq, List.countP_append, List.countP_singleton]
        at hmade hsent ⊢ <;>
      omega
  | @resumes _ i c p₁ c₁ hi hc acquiring advance =>
    obtain ⟨hlimit, hmade, hsent⟩ := advance.ledger
    have hcb : c.stage.inCallback = false := by
      cases hs : c.stage <;> rw [hs] at acquiring <;> first | rfl | cases acquiring
    have hpend := countP_set_add hc c₁ (·.stage.acquiring)
    have hback := countP_set_add hc c₁ (·.stage.inCallback)
    rw [if_pos acquiring] at hpend
    rw [hcb] at hback
    refine ⟨hlimit, Or.inl ?_, ?_⟩ <;>
      simp only [pending, inCallback, advance.calls_eq] at hmade hsent hpend hback ⊢ <;>
      simp only [Bool.false_eq_true, if_false] at hback <;>
      omega
  | @emits _ i c p₀ p₁ c₁ hi hc hcb same emit =>
    obtain ⟨hguard, hacq₁, hcb₁, hsent⟩ := emit.ledger
    have hacq : c.stage.acquiring = false := by
      cases hs : c.stage <;> rw [hs] at hcb <;> first | rfl | cases hcb
    have hpend := countP_set_add hc c₁ (·.stage.acquiring)
    have hback := countP_set_add hc c₁ (·.stage.inCallback)
    rw [hacq, hacq₁] at hpend
    rw [if_pos hcb, hcb₁] at hback
    simp only [Bool.false_eq_true, if_false, Nat.add_zero] at hpend hback
    rw [same.sent] at hsent
    refine ⟨?_, Or.inl ?_, ?_⟩ <;>
      simp only [pending, inCallback, emit.calls_eq, same.calls, hguard, same.guard] at hpend hback ⊢
    · omega
    · omega
  | @hops i _ _ _ c req p₀ p₁ c₂ c₁ hc sending enters hargs next within hmethod budget authorized
      same advance =>
    obtain ⟨hlimit, hmade, hsent⟩ := advance.ledger
    rw [same.guard] at hlimit hmade hsent
    rw [same.sent] at hsent
    have hpend := countP_set_add hc c₂ (·.stage.acquiring)
    have hback := countP_set_add hc c₂ (·.stage.inCallback)
    have hacq : c.stage.acquiring = false := by rw [sending]; rfl
    have hcb : c.stage.inCallback = false := by rw [sending]; rfl
    rw [hacq] at hpend
    rw [hcb] at hback
    simp only [Bool.false_eq_true, if_false, Nat.add_zero] at hpend hback
    refine ⟨hlimit, Or.inr ⟨enters, ?_⟩, ?_⟩ <;>
      simp only [pending, inCallback, advance.calls_eq, same.calls] at hmade hsent ⊢ <;>
      omega
  | @stops _ i c p₁ c₁ hi hc live hargs stopped same =>
    obtain ⟨hacq, hcb⟩ := ledger_of_stopped stopped
    have hpend := countP_set_add hc c₁ (·.stage.acquiring)
    have hback := countP_set_add hc c₁ (·.stage.inCallback)
    rw [hacq] at hpend
    rw [hcb] at hback
    simp only [Bool.false_eq_true, if_false, Nat.add_zero] at hpend hback
    refine ⟨by rw [same.guard], Or.inl ?_, ?_⟩ <;>
      simp only [pending, inCallback, same.calls, same.guard, same.sent] at hpend hback ⊢ <;>
      omega

/-! ### Runs with slack -/

/-- Whenever a call is granted a request, what is counted and what is pending leave room for it. -/
def Slack (cl : Client κ) (p : Pool κ) (e : Event) : Prop :=
  Enters cl p e → (p.guard.requests_made + p.pending : ℤ) < p.guard.limit

/-- **Every step that meets the side condition keeps the budget invariant.** -/
theorem BudgetInv.step {limit : ℤ} {made₀ : ℕ} {e : Event} (h : BudgetInv limit made₀ p)
    (hslack : Slack cl p e) (hstep : p.step cl e = some p') : BudgetInv limit made₀ p' := by
  obtain ⟨hlimit, hgrant, hsent⟩ := (move_of_step hstep).ledger
  obtain ⟨limit_eq, granted, sent⟩ := h
  refine ⟨hlimit.trans limit_eq, ?_, by omega⟩
  rcases hgrant with hle | ⟨henters, hle⟩
  · have : (p'.guard.requests_made + p'.pending : ℤ) ≤ p.guard.requests_made + p.pending := by
      exact_mod_cast hle
    exact this.trans granted
  · have hroom := hslack henters
    rw [limit_eq] at hroom
    have : (p'.guard.requests_made + p'.pending : ℤ) ≤
        p.guard.requests_made + p.pending + 1 := by exact_mod_cast hle
    exact (this.trans (Int.add_one_le_iff.2 hroom)).trans (le_max_left _ _)

end

end Pool

section

attribute [local instance] asciiTables

/-- A limit of two requests, one token a second. -/
def twoRequests : ScopeGuard := { record := { sampleRecord with max_requests := 2 } }

def quickClient : Client Unit where
  httpx := referenceHttpx

def getRequest (clock : ℚ) : Event :=
  .request { method := "GET".toList, url := "https://app.example/".toList } 0 clock sampleAnswer
    sampleAnswer sampleAnswer

/-- One request has been answered; the bucket is empty, so two more calls wait for the limiter, both
past their budget check. -/
def racingEvents : List Event := [
  getRequest 0, .responded 0 { status_code := 200 } (1 / 2) sampleAnswer,
  getRequest (1 / 2), getRequest (1 / 2),
  .slept 1 1, .lockGranted 2 1, .slept 2 2 ]

end

end Sentrik
