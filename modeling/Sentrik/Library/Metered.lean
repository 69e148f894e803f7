import Mathlib.Algebra.Order.Field.Basic
import Mathlib.Data.Nat.Cast.Order.Ring
import Mathlib.Tactic.Linarith
import Mathlib.Tactic.Ring

/-!
# Metered accounts

An account holds credit. It grows with time, at most at a rate and at most to a capacity, and each
completion takes one off it. `Metered` is the invariant of such an account, with the times of the
completions so far: it is kept when the account is read again later (`Metered.advance`) and when something
is completed at the time of the last reading (`Metered.complete`).

Its field `window` is the point: in no window of time are there more completions than the capacity and what
the rate gives over the length of the window.

## Why there are two counts

The window that ends now is bounded together with the credit that is left (`since`): what is completed and
what is still there share one budget. Windows that are over have no use for the credit any more.
-/

namespace Metering

variable {α : Type*} [LinearOrder α]

/-- The number of completions from a time on. -/
def since (done : List α) (s : α) : ℕ := done.countP (s ≤ ·)

theorem since_append (done : List α) (t s : α) :
    since (done ++ [t]) s = since done s + if s ≤ t then 1 else 0 := by
  rw [since, List.countP_append, List.countP_singleton, since]
  simp

variable [Field α]

/-- The number of completions in a window of this length. -/
def within (done : List α) (s T : α) : ℕ := done.countP fun t ↦ s ≤ t ∧ t ≤ s + T

theorem within_le_since (done : List α) (s T : α) : within done s T ≤ since done s :=
  List.countP_mono_left fun _ _ h ↦ decide_eq_true (of_decide_eq_true h).1

theorem within_append (done : List α) (t s T : α) :
    within (done ++ [t]) s T = within done s T + if s ≤ t ∧ t ≤ s + T then 1 else 0 := by
  rw [within, List.countP_append, List.countP_singleton, within]
  simp

/-- **The invariant** of an account that was read last at `updated`, with `credit` on it. -/
structure Metered (capacity rate : α) (done : List α) (credit updated : α) : Prop where
  nonneg : 0 ≤ credit
  le_capacity : credit ≤ capacity
  past : ∀ t ∈ done, t ≤ updated
  since : ∀ s ≤ updated, (since done s : α) + credit ≤ capacity + rate * (updated - s)
  window : ∀ s T, 0 ≤ T → (within done s T : α) ≤ capacity + rate * T

variable [IsStrictOrderedRing α] {capacity rate : α} {done : List α} {credit updated : α}

/-- An account on which nothing is completed. -/
theorem Metered.init (hcredit : 0 ≤ credit) (hcapacity : credit ≤ capacity) (hrate : 0 ≤ rate) :
    Metered capacity rate [] credit updated where
  nonneg := hcredit
  le_capacity := hcapacity
  past t ht := absurd ht List.not_mem_nil
  since s hs := by
    have hgrown : 0 ≤ rate * (updated - s) := mul_nonneg hrate (sub_nonneg.2 hs)
    show ((0 : ℕ) : α) + credit ≤ capacity + rate * (updated - s)
    rw [Nat.cast_zero, zero_add]
    exact hcapacity.trans (le_add_of_nonneg_right hgrown)
  window s T hT := by
    show ((0 : ℕ) : α) ≤ capacity + rate * T
    rw [Nat.cast_zero]
    exact add_nonneg (hcredit.trans hcapacity) (mul_nonneg hrate hT)

/-- **Reading the account later**: the credit is at most what the time since gives, and at most the
capacity. -/
theorem Metered.advance (h : Metered capacity rate done credit updated) (hrate : 0 ≤ rate) {now : α}
    (hnow : updated ≤ now) {credit' : α} (hnonneg : 0 ≤ credit') (hcapacity : credit' ≤ capacity)
    (hgrown : credit' ≤ credit + rate * (now - updated)) :
    Metered capacity rate done credit' now where
  nonneg := hnonneg
  le_capacity := hcapacity
  past t ht := (h.past t ht).trans hnow
  since s hs := by
    rcases le_or_gt s updated with hbefore | hafter
    · have hold := h.since s hbefore
      have hsplit : rate * (now - s) = rate * (updated - s) + rate * (now - updated) := by ring
      linarith
    · -- nothing was completed since the last reading
      have hnone : Metering.since done s = 0 := by
        rw [Metering.since, List.countP_eq_zero]
        intro t ht hst
        have hle := h.past t ht
        exact absurd (of_decide_eq_true hst) (not_le.2 (hle.trans_lt hafter))
      have hpos : 0 ≤ rate * (now - s) := mul_nonneg hrate (sub_nonneg.2 hs)
      rw [hnone, Nat.cast_zero, zero_add]
      exact hcapacity.trans (le_add_of_nonneg_right hpos)
  window := h.window

/-- **Completing something** takes one off the credit. -/
theorem Metered.complete (h : Metered capacity rate done credit updated) (hrate : 0 ≤ rate) {credit' : α}
    (hnonneg : 0 ≤ credit') (hpaid : credit' + 1 ≤ credit) :
    Metered capacity rate (done ++ [updated]) credit' updated where
  nonneg := hnonneg
  le_capacity := by
    have hle := h.le_capacity
    linarith
  past t ht := by
    rcases List.mem_append.1 ht with hold | hnew
    · exact h.past t hold
    · exact (List.mem_singleton.1 hnew).le
  since s hs := by
    have hold := h.since s hs
    rw [since_append, if_pos hs, Nat.cast_add, Nat.cast_one]
    linarith
  window s T hT := by
    rw [within_append]
    by_cases hin : s ≤ updated ∧ updated ≤ s + T
    · -- the window reaches the last reading, so the credit bounds it
      have hall := h.since s hin.1
      have hle : (within done s T : α) ≤ Metering.since done s := Nat.cast_le.2 (within_le_since done s T)
      have hlength : rate * (updated - s) ≤ rate * T := mul_le_mul_of_nonneg_left (by linarith [hin.2]) hrate
      rw [if_pos hin, Nat.cast_add, Nat.cast_one]
      linarith
    · rw [if_neg hin, add_zero]
      exact h.window s T hT

end Metering
