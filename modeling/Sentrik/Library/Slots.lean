import Mathlib.Data.List.Basic

/-!
# Writing one slot of a list

A list of slots that grows at its end: writing slot `i` either replaces an existing entry or appends
the next one. `Puts` is what both have in common, so that an invariant over all slots is re-proved
for the written one only.
-/

variable {α : Type*}

/-- `l'` is `l` with `a` written to slot `i`, the slot being old or the next one. -/
structure Puts (l : List α) (i : ℕ) (a : α) (l' : List α) : Prop where
  self : l'[i]? = some a
  other : ∀ j, j ≠ i → l'[j]? = l[j]?
  le_length : l.length ≤ l'.length
  lt_length : i < l'.length

namespace Puts

theorem append (l : List α) (a : α) : Puts l l.length a (l ++ [a]) where
  self := List.getElem?_concat_length
  other j hj := by
    rcases Nat.lt_or_gt_of_ne hj with hlt | hgt
    · exact List.getElem?_append_left hlt
    · rw [List.getElem?_eq_none (by rw [List.length_append, List.length_singleton]; omega),
        List.getElem?_eq_none (by omega)]
  le_length := by simp
  lt_length := by simp

theorem set {l : List α} {i : ℕ} {b : α} (h : l[i]? = some b) (a : α) : Puts l i a (l.set i a) where
  self := by
    obtain ⟨hi, -⟩ := List.getElem?_eq_some_iff.1 h
    exact List.getElem?_set_self hi
  other j hj := List.getElem?_set_ne (Ne.symm hj)
  le_length := Nat.le_of_eq (List.length_set ..).symm
  lt_length := by
    obtain ⟨hi, -⟩ := List.getElem?_eq_some_iff.1 h
    rwa [List.length_set]

/-- A property of all slots: it holds of the written one, and still holds of the others. -/
theorem forall_slots {l l' : List α} {i : ℕ} {a : α} (h : Puts l i a l') {P Q : ℕ → α → Prop}
    (hl : ∀ j b, l[j]? = some b → P j b) (hself : Q i a) (hother : ∀ j b, j ≠ i → P j b → Q j b) :
    ∀ j b, l'[j]? = some b → Q j b := by
  intro j b hj
  by_cases hji : j = i
  · subst hji
    rw [h.self] at hj
    exact Option.some.inj hj ▸ hself
  · rw [h.other j hji] at hj
    exact hother j b hji (hl j b hj)

end Puts

/-- Counting after a slot was replaced. -/
theorem countP_set_add {l : List α} {i : ℕ} {b : α} (h : l[i]? = some b) (a : α) (q : α → Bool) :
    (l.set i a).countP q + (if q b then 1 else 0) = l.countP q + if q a then 1 else 0 := by
  obtain ⟨hi, rfl⟩ := List.getElem?_eq_some_iff.1 h
  have hpos : (if q l[i] then 1 else 0) ≤ l.countP q := by
    split
    next hq => exact List.countP_pos_iff.2 ⟨l[i], List.getElem_mem hi, hq⟩
    next => exact Nat.zero_le _
  rw [List.countP_set hi]
  omega
