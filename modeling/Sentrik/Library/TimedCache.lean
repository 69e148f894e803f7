import Mathlib.Order.Defs.LinearOrder
import Mathlib.Data.List.Basic

/-!
# Values with a time to live

A cache keeps each value until some time after it was stored. What it answers was received not longer ago
than that, whoever asks and whatever was stored in between (`Sound.receipt_of_fresh`).

The times are supplied with an order and an addition, without laws.
-/

namespace TimedCache

/-- A value, and when it expires. -/
structure Entry (α τ : Type*) where
  expires_at : τ
  value : α

/-- A value as it came in. -/
structure Receipt (κ α τ : Type*) where
  key : κ
  time : τ
  value : α

variable {κ α τ : Type*} [DecidableEq κ]

/-- The value of a key that has not expired. -/
def fresh [LT τ] [DecidableLT τ] (cache : List (κ × Entry α τ)) (key : κ) (now : τ) : Option α :=
  match cache.lookup key with
  | some e => if now < e.expires_at then some e.value else none
  | none => none

variable [Add τ]

/-- Keep a value from now on. -/
def store (cache : List (κ × Entry α τ)) (ttl : τ) (r : Receipt κ α τ) : List (κ × Entry α τ) :=
  (r.key, ⟨r.time + ttl, r.value⟩) :: cache

/-- Each value was received, and expires when its time to live is over. -/
def Sound (ttl : τ) (log : List (Receipt κ α τ)) (cache : List (κ × Entry α τ)) : Prop :=
  ∀ key e, cache.lookup key = some e →
    ∃ r ∈ log, r.key = key ∧ r.value = e.value ∧ e.expires_at = r.time + ttl

variable {ttl : τ} {log : List (Receipt κ α τ)} {cache : List (κ × Entry α τ)}

theorem Sound.nil : Sound ttl log [] := fun _ _ h ↦ nomatch h

theorem Sound.store (h : Sound ttl log cache) (r : Receipt κ α τ) :
    Sound ttl (log ++ [r]) (store cache ttl r) := by
  intro key e he
  rw [TimedCache.store, List.lookup_cons] at he
  by_cases hkey : key = r.key
  · rw [hkey, beq_self_eq_true] at he
    obtain rfl := Option.some.inj he
    exact ⟨r, List.mem_append_right _ List.mem_cons_self, hkey.symm, rfl, rfl⟩
  · rw [beq_false_of_ne hkey] at he
    obtain ⟨r', hr', hfound⟩ := h key e he
    exact ⟨r', List.mem_append_left _ hr', hfound⟩

/-- **A fresh value** was received not longer ago than its time to live. -/
theorem Sound.receipt_of_fresh [LT τ] [DecidableLT τ] (h : Sound ttl log cache) {key : κ} {now : τ} {value : α}
    (hfresh : fresh cache key now = some value) :
    ∃ r ∈ log, r.key = key ∧ r.value = value ∧ now < r.time + ttl := by
  rw [fresh] at hfresh
  split at hfresh
  next e he =>
    split at hfresh
    next hlt =>
      obtain rfl := Option.some.inj hfresh
      obtain ⟨r, hr, hkey, hvalue, hexpires⟩ := h key e he
      exact ⟨r, hr, hkey, hvalue, hexpires ▸ hlt⟩
    next => cases hfresh
  next => cases hfresh

end TimedCache
