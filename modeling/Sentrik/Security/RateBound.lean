import Mathlib.Tactic.FieldSimp
import Sentrik.Library.Machine
import Sentrik.Library.Metered
import Sentrik.Security.HttpClient

/-!
# The rate limit

Any number of calls of `acquire` on one limiter, in any order and at any times. The body under the lock reads
the clock once, and either takes a token or sleeps; what completes a call is one of these two branches, so a
completion is at a reading of the clock.

The limiter is a metered account (`LimiterRun.Inv`): a token is taken off what has been credited since the
last reading, and a call that sleeps waits until one token would be there, which it takes. Setting tokens and
clock after the sleep only forgets what the sleep was longer than asked for.

A limiter with a burst of less than one token completes calls all the same, one at a time. Its bound is that of
a capacity of one; without a burst the capacity is at least one (`completed_le`).
-/

namespace Sentrik

/-- How long a call that finds too few tokens asks to sleep. -/
def RateLimiter.wait (r : RateLimiter) : ℚ := (1 - r.tokens) / r.rate

/-- A limiter, the end of the sleep its holder has asked for, the last reading of the clock, and the times at
which calls were completed. -/
structure LimiterRun where
  limiter : RateLimiter
  due : Option ℚ := none
  clock : ℚ
  completed : List ℚ := []

inductive LimiterEvent
  /-- A call of `acquire`. -/
  | acquire (i : ℕ) (now : ℚ)
  /-- The lock is handed to the first call that waits for it. -/
  | lockGranted (i : ℕ) (now : ℚ)
  /-- The sleep of the holder is over, not before the time it has asked for. -/
  | slept (i : ℕ) (now : ℚ)
  /-- A call is cancelled. -/
  | abandon (i : ℕ)

namespace LimiterRun

/-- A limiter on which nothing was called. -/
def start (rate_per_sec : ℚ) (burst : Option ℚ) (now : ℚ) : LimiterRun where
  limiter := .new rate_per_sec burst now
  clock := now

/-- Where a call stands after its first segment, or after it has got the lock. -/
def limited (r : LimiterRun) (now : ℚ) (limiter : RateLimiter × RateLimiter.Progress) : LimiterRun :=
  match limiter.2 with
  | .acquired => { r with limiter := limiter.1, clock := now, completed := r.completed ++ [now] }
  | .waitingLock => { r with limiter := limiter.1, clock := now }
  | .sleeping => { r with limiter := limiter.1, clock := now, due := some (now + limiter.1.wait) }

/-- The clock does not go back. -/
def step (r : LimiterRun) : LimiterEvent → Option LimiterRun
  | .acquire i now =>
    if r.clock ≤ now ∧ i ∉ r.limiter.queue then some (r.limited now (r.limiter.acquire i now)) else none
  | .lockGranted i now =>
    if r.clock ≤ now ∧ r.due = none ∧ r.limiter.queue.head? = some i then
      some (r.limited now (r.limiter.locked now))
    else none
  | .slept i now =>
    if r.clock ≤ now ∧ r.limiter.queue.head? = some i ∧ ∃ due ∈ r.due, due ≤ now then
      some { limiter := r.limiter.slept now, clock := now, completed := r.completed ++ [now] }
    else none
  | .abandon i =>
    if i ∈ r.limiter.queue then
      some { r with
        limiter := r.limiter.abandon i
        due := if r.limiter.queue.head? = some i then none else r.due }
    else none

open Metering (Metered within)

/-- **The invariant** of a limiter with this rate and this capacity. -/
structure Inv (rate capacity : ℚ) (r : LimiterRun) : Prop where
  rate_eq : r.limiter.rate = rate
  capacity_eq : r.limiter.capacity = capacity
  metered : Metered (max capacity 1) rate r.completed (max r.limiter.tokens 0) r.limiter.updated
  clock : r.limiter.updated ≤ r.clock
  due : ∀ d ∈ r.due, r.limiter.queue ≠ [] ∧ d = r.limiter.updated + r.limiter.wait

variable {rate capacity : ℚ} {r r' : LimiterRun} {i : ℕ} {now : ℚ}

theorem Inv.start (rate_per_sec : ℚ) (burst : Option ℚ) (now : ℚ) :
    Inv (start rate_per_sec burst now).limiter.rate (start rate_per_sec burst now).limiter.capacity
      (start rate_per_sec burst now) where
  rate_eq := rfl
  capacity_eq := rfl
  metered := by
    have hrate : 0 ≤ max rate_per_sec (1 / 10) := le_max_of_le_right (by norm_num)
    exact .init (le_max_right _ _) (max_le_max le_rfl zero_le_one) hrate
  clock := le_rfl
  due := nofun

/-- **Reading the account under the lock.** -/
theorem Inv.read (h : Inv rate capacity r) (hrate : 0 ≤ rate) (hnow : r.clock ≤ now) :
    Metered (max capacity 1) rate r.completed
      (max (min r.limiter.capacity (r.limiter.tokens + (now - r.limiter.updated) * r.limiter.rate)) 0) now := by
  have hback : r.limiter.updated ≤ now := h.clock.trans hnow
  have hgrown : 0 ≤ rate * (now - r.limiter.updated) := mul_nonneg hrate (sub_nonneg.2 hback)
  refine h.metered.advance hrate hback (le_max_right _ _) ?_ ?_
  · rw [h.capacity_eq]
    exact max_le_max (min_le_left _ _) zero_le_one
  · rw [h.rate_eq, mul_comm _ rate]
    refine max_le ((min_le_right _ _).trans ?_) ?_
    · have hle := le_max_left r.limiter.tokens 0
      linarith
    · exact add_nonneg (le_max_right _ _) hgrown

/-- **The body under the lock** takes a token, or sleeps until there would be one. -/
theorem Inv.locked (h : Inv rate capacity r) (hrate : 0 ≤ rate) (hnow : r.clock ≤ now) (hdue : r.due = none)
    (hqueue : r.limiter.queue ≠ []) : Inv rate capacity (r.limited now (r.limiter.locked now)) := by
  have hread := h.read hrate hnow
  rw [RateLimiter.locked]
  split
  next hfew =>
    exact ⟨h.rate_eq, h.capacity_eq, hread, le_rfl, fun d hd ↦ ⟨hqueue, (Option.some.inj hd).symm⟩⟩
  next hmany =>
    rw [not_lt] at hmany
    have hleft := sub_nonneg.2 hmany
    have hpaid : max (min r.limiter.capacity (r.limiter.tokens + (now - r.limiter.updated) * r.limiter.rate)
        - 1) 0 + 1 ≤
          max (min r.limiter.capacity (r.limiter.tokens + (now - r.limiter.updated) * r.limiter.rate)) 0 := by
      rw [max_eq_left hleft, sub_add_cancel]
      exact le_max_left _ _
    refine ⟨h.rate_eq, h.capacity_eq, hread.complete hrate (le_max_right _ _) hpaid, le_rfl, fun d hd ↦ ?_⟩
    have hnone : r.due = some d := hd
    rw [hdue] at hnone
    cases hnone

/-- **Waking up**: by then one token was credited, whatever the sleep was longer. -/
theorem Inv.slept (h : Inv rate capacity r) (hrate : 0 < rate) (hnow : r.clock ≤ now) {d : ℚ}
    (hdue : d ∈ r.due) (hlate : d ≤ now) :
    Inv rate capacity
      { limiter := r.limiter.slept now, clock := now, completed := r.completed ++ [now] } := by
  have hback : r.limiter.updated ≤ now := h.clock.trans hnow
  have hone : 1 ≤ max r.limiter.tokens 0 + rate * (now - r.limiter.updated) := by
    have hwait : (1 - r.limiter.tokens) / rate ≤ now - r.limiter.updated := by
      have hd := (h.due d hdue).2
      rw [RateLimiter.wait, h.rate_eq] at hd
      linarith
    have hgrown := mul_le_mul_of_nonneg_left hwait hrate.le
    rw [mul_div_cancel₀ _ hrate.ne'] at hgrown
    have hle := le_max_left r.limiter.tokens 0
    linarith
  have hread := h.metered.advance hrate.le hback zero_le_one (le_max_right capacity 1) hone
  refine ⟨h.rate_eq, h.capacity_eq, ?_, le_rfl, nofun⟩
  show Metered _ _ _ (max 0 0) now
  rw [max_self]
  exact hread.complete hrate.le le_rfl (zero_add (1 : ℚ)).le

/-- **Every step keeps the invariant.** -/
theorem Inv.step {e : LimiterEvent} (hrate : 0 < rate) (h : Inv rate capacity r) (hs : r.step e = some r') :
    Inv rate capacity r' := by
  cases e with
  | acquire i now =>
    obtain ⟨⟨hnow, -⟩, hs⟩ := Option.ite_none_right_eq_some.1 hs
    rw [← Option.some.inj hs, RateLimiter.acquire]
    by_cases hqueue : r.limiter.queue = []
    · -- without contention the lock is taken at once, and nobody sleeps under it
      rw [if_pos hqueue]
      have hnone : r.due = none := Option.eq_none_iff_forall_not_mem.2 fun d hd ↦ (h.due d hd).1 hqueue
      have hheld : Inv rate capacity { r with limiter := { r.limiter with queue := [i] } } :=
        ⟨h.rate_eq, h.capacity_eq, h.metered, h.clock, fun d hd ↦ absurd hqueue (h.due d hd).1⟩
      exact hheld.locked hrate.le hnow hnone (List.cons_ne_nil _ _)
    · rw [if_neg hqueue]
      refine ⟨h.rate_eq, h.capacity_eq, h.metered, h.clock.trans hnow, fun d hd ↦ ⟨?_, (h.due d hd).2⟩⟩
      exact List.append_ne_nil_of_left_ne_nil hqueue _
  | lockGranted i now =>
    obtain ⟨⟨hnow, hdue, hhead⟩, hs⟩ := Option.ite_none_right_eq_some.1 hs
    have hqueue : r.limiter.queue ≠ [] := fun hnil ↦ by
      rw [hnil] at hhead
      cases hhead
    exact Option.some.inj hs ▸ h.locked hrate.le hnow hdue hqueue
  | slept i now =>
    obtain ⟨⟨hnow, -, d, hd, hlate⟩, hs⟩ := Option.ite_none_right_eq_some.1 hs
    exact Option.some.inj hs ▸ h.slept hrate hnow hd hlate
  | abandon i =>
    obtain ⟨-, hs⟩ := Option.ite_none_right_eq_some.1 hs
    rw [← Option.some.inj hs]
    refine ⟨h.rate_eq, h.capacity_eq, h.metered, h.clock, fun d hd ↦ ?_⟩
    by_cases hhead : r.limiter.queue.head? = some i
    · dsimp only at hd
      rw [if_pos hhead] at hd
      cases hd
    · dsimp only at hd
      rw [if_neg hhead] at hd
      obtain ⟨hqueue, hd⟩ := h.due d hd
      refine ⟨fun hnil ↦ ?_, hd⟩
      -- the holder is another call, so it keeps its place
      obtain ⟨j, rest, hj⟩ := List.exists_cons_of_ne_nil hqueue
      have hne : j ≠ i := fun hji ↦ hhead (by rw [hj, hji, List.head?_cons])
      have hmem : j ∈ r.limiter.queue.filter (· ≠ i) :=
        List.mem_filter.2 ⟨by rw [hj]; exact List.mem_cons_self, decide_eq_true hne⟩
      exact List.ne_nil_of_mem hmem hnil

/-- **The token-bucket bound.** Whatever calls are made, in whatever order and at whatever times, and however
much longer than asked for they sleep: in no window of time are there more completions than the capacity and
what the rate gives over its length, for a limiter as the client makes it; and with any burst, than what a
capacity of at least one gives. -/
theorem completed_le {rate_per_sec : ℚ} {burst : Option ℚ} {began : ℚ} {es : List LimiterEvent}
    (h : Machine.run step (start rate_per_sec burst began) es = some r) (s T : ℚ) (hT : 0 ≤ T) :
    (within r.completed s T : ℚ) ≤ max r.limiter.capacity 1 + r.limiter.rate * T ∧
      (burst = none → (within r.completed s T : ℚ) ≤ r.limiter.capacity + r.limiter.rate * T) := by
  have hrate : 0 < max rate_per_sec (1 / 10) := lt_max_of_lt_right (by norm_num)
  have hI := Machine.inv_of_run (fun hI hs ↦ Inv.step hrate hI hs) h (.start rate_per_sec burst began)
  have hwindow := hI.metered.window s T hT
  rw [hI.rate_eq, hI.capacity_eq]
  refine ⟨hwindow, fun hburst ↦ ?_⟩
  -- without a burst the capacity is at least one
  have hone : 1 ≤ (start rate_per_sec burst began).limiter.capacity := by
    rw [hburst]
    exact le_max_right _ _
  rwa [max_eq_left hone] at hwindow

/-- A limiter of one token a second. -/
def sampleAcquires : List LimiterEvent := [.acquire 0 0, .acquire 1 0, .slept 1 2]

/-- The second call sleeps twice as long as it asks for, and the window from one completion to the other
holds both. -/
theorem completed_le_overslept : ∃ r, Machine.run step (start 1 none 0) sampleAcquires = some r ∧
    within r.completed 0 2 = 2 ∧ (within r.completed 0 2 : ℚ) ≤ r.limiter.capacity + r.limiter.rate * 2 := by
  have hrun : (Machine.run step (start 1 none 0) sampleAcquires).map (within ·.completed 0 2) = some 2 := by
    decide +kernel
  obtain ⟨r, hr, htwo⟩ := Option.map_eq_some_iff.1 hrun
  exact ⟨r, hr, htwo, (completed_le hr 0 2 (by norm_num)).2 rfl⟩

end LimiterRun

end Sentrik
