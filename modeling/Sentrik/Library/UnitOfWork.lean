import Mathlib.Logic.Basic

/-!
# Writing back what was read earlier

A session loads the value of a row, assigns another one, and commits some time later. The row is written
only if the assigned value differs from the **loaded** one; what is stored by then plays no part.

`stored` is the value just before the commit, and the lemmas say what a reader finds just after it.
-/

namespace UnitOfWork

variable {α : Type*} [DecidableEq α] {loaded assigned stored : α}

/-- The value after the commit of a session. -/
def commit (loaded assigned stored : α) : α := if assigned = loaded then stored else assigned

/-- **When the assignment takes effect.** -/
theorem commit_eq_assigned_iff :
    commit loaded assigned stored = assigned ↔ assigned ≠ loaded ∨ stored = assigned := by
  rw [commit]
  split
  next h => exact ⟨Or.inr, fun h' ↦ h'.resolve_left (not_not.2 h)⟩
  next h => exact iff_of_true rfl (Or.inl h)

/-- **When the commit leaves the row as it is.** -/
theorem commit_eq_stored_iff :
    commit loaded assigned stored = stored ↔ assigned = loaded ∨ assigned = stored := by
  rw [commit]
  split
  next h => exact iff_of_true rfl (Or.inl h)
  next h => exact ⟨Or.inr, fun h' ↦ h'.resolve_left h⟩

/-- A session that nobody came between assigns what it says. -/
@[simp] theorem commit_self : commit stored assigned stored = assigned :=
  commit_eq_assigned_iff.2 ((ne_or_eq assigned stored).imp_right Eq.symm)

end UnitOfWork
