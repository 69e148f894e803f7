import Sentrik.Library.Semaphore
import Sentrik.Library.Slots

/-!
# Tasks around a semaphore

The tasks of an event loop stand in a list, and a task is told by its place in it. Of each task a semaphore
knows one of three things: the task waits in its queue, it holds a slot, or it has nothing to do with the
semaphore. What the tasks are, and what else they do, is left open: `waits` and `holds` read both off a task.

`Guards` ties the two together. It is kept by the three operations, each of which changes one task, and by
everything that changes no task's part in the semaphore; so the tasks may well stand around several
semaphores at once. `Guards.progress` is what liveness proofs need of it.
-/

namespace Semaphore

variable {α : Type*} {waits holds : α → Bool} {capacity : ℕ} {l : List α} {s s' : Semaphore ℕ}
variable {i : ℕ} {t t' : α}

/-- The semaphore has `capacity` slots. The tasks in its queue are those that wait, and its slots are held
by those that hold one. -/
structure Guards (capacity : ℕ) (waits holds : α → Bool) (l : List α) (s : Semaphore ℕ) : Prop where
  waiting : ∀ i, i ∈ s.waiters.map Prod.fst ↔ ∃ t, l[i]? = some t ∧ waits t = true
  nodup : (s.waiters.map Prod.fst).Nodup
  balanced : s.Balanced capacity (l.countP holds)

theorem guards_init (capacity : ℕ) (waits holds : α → Bool) :
    Guards capacity waits holds [] ⟨capacity, []⟩ where
  waiting i := by simp
  nodup := List.nodup_nil
  balanced := balanced_init capacity

/-- Who waits after one task was replaced. -/
theorem waiting_set (ht : l[i]? = some t) (t' : α) (j : ℕ) :
    (∃ u, (l.set i t')[j]? = some u ∧ waits u = true) ↔
      if j = i then waits t' = true else ∃ u, l[j]? = some u ∧ waits u = true := by
  obtain ⟨hi, -⟩ := List.getElem?_eq_some_iff.1 ht
  split
  next hj =>
    subst hj
    rw [List.getElem?_set_self hi]
    simp
  next hj => rw [List.getElem?_set_ne (Ne.symm hj)]

/-- The queue after one task was replaced. -/
theorem Guards.of_set (ht : l[i]? = some t)
    (waiting : ∀ j, j ∈ s.waiters.map Prod.fst ↔
      if j = i then waits t' = true else ∃ u, l[j]? = some u ∧ waits u = true)
    (nodup : (s.waiters.map Prod.fst).Nodup) (balanced : s.Balanced capacity ((l.set i t').countP holds)) :
    Guards capacity waits holds (l.set i t') s where
  waiting j := (waiting j).trans (waiting_set ht t' j).symm
  nodup := nodup
  balanced := balanced

/-- A task changes, but not its part in the semaphore. -/
theorem Guards.keep (h : Guards capacity waits holds l s) (ht : l[i]? = some t) (hwaits : waits t' = waits t)
    (hholds : holds t' = holds t) : Guards capacity waits holds (l.set i t') s := by
  have hcount : (l.set i t').countP holds = l.countP holds := by
    have := countP_set_add ht t' holds
    rw [hholds] at this
    omega
  refine .of_set ht (fun j ↦ ?_) h.nodup (hcount ▸ h.balanced)
  rw [h.waiting j]
  split
  next hj =>
    subst hj
    simp [ht, hwaits]
  next => rfl

/-- New tasks have no part in it yet. -/
theorem Guards.append (h : Guards capacity waits holds l s) {new : List α}
    (hwaits : ∀ t ∈ new, waits t = false) (hholds : ∀ t ∈ new, holds t = false) :
    Guards capacity waits holds (l ++ new) s where
  waiting i := by
    refine (h.waiting i).trans ⟨fun ⟨t, ht, hw⟩ ↦ ⟨t, ?_, hw⟩, fun ⟨t, ht, hw⟩ ↦ ⟨t, ?_, hw⟩⟩
    · obtain ⟨hi, -⟩ := List.getElem?_eq_some_iff.1 ht
      rwa [List.getElem?_append_left hi]
    · by_cases hi : i < l.length
      · rwa [List.getElem?_append_left hi] at ht
      · rw [List.getElem?_append_right (Nat.le_of_not_lt hi)] at ht
        rw [hwaits t (List.mem_of_getElem? ht)] at hw
        cases hw
  nodup := h.nodup
  balanced := by
    have hzero : new.countP holds = 0 := List.countP_eq_zero.2 fun t ht ↦ by simp [hholds t ht]
    rw [List.countP_append, hzero, Nat.add_zero]
    exact h.balanced

/-- A task asks for a slot: it has one at once, or waits. -/
theorem Guards.acquire (h : Guards capacity waits holds l s) (ht : l[i]? = some t) (hwaits : waits t = false)
    (hholds : holds t = false) (hwaits' : waits t' = !(s.acquire i).2) (hholds' : holds t' = (s.acquire i).2) :
    Guards capacity waits holds (l.set i t') (s.acquire i).1 := by
  have hcount := countP_set_add ht t' holds
  have hbalanced := h.balanced.acquire i
  have hwaiters := waiters_acquire s i
  rw [hholds, hholds'] at hcount
  cases hentered : (s.acquire i).2 with
  | true =>
    simp only [hentered, ↓reduceIte, Bool.false_eq_true, List.append_nil, Nat.add_zero] at hcount hbalanced hwaiters
    refine .of_set ht (fun j ↦ ?_) (hwaiters ▸ h.nodup) (hcount ▸ hbalanced)
    rw [hwaiters, h.waiting j, hwaits', hentered]
    split
    next hj =>
      subst hj
      simp [ht, hwaits]
    next => rfl
  | false =>
    simp only [hentered, ↓reduceIte, Bool.false_eq_true, Nat.add_zero] at hcount hbalanced hwaiters
    have hnew : i ∉ s.waiters.map Prod.fst := fun hmem ↦ by
      obtain ⟨u, hu, hw⟩ := (h.waiting i).1 hmem
      rw [← Option.some.inj (ht.symm.trans hu), hwaits] at hw
      cases hw
    refine .of_set ht (fun j ↦ ?_) ?_ (hcount ▸ hbalanced)
    · rw [hwaiters, List.mem_append, List.mem_singleton, h.waiting j, hwaits', hentered]
      split
      next hj => simp [hj]
      next hj => simp [hj]
    · rw [hwaiters]
      exact List.nodup_append.2 ⟨h.nodup, List.pairwise_singleton _ _, fun a ha b hb heq ↦
        hnew (by rwa [← List.mem_singleton.1 hb, ← heq])⟩

/-- A woken waiter goes on. -/
theorem Guards.resume (h : Guards capacity waits holds l s) (ht : l[i]? = some t) (hholds : holds t = false)
    (hwaits' : waits t' = false) (hholds' : holds t' = true) (hs : s.resume i = some s') :
    Guards capacity waits holds (l.set i t') s' := by
  obtain ⟨hwaiters, hmem⟩ := waiters_resume hs
  have hperm := (List.perm_cons_erase hmem).map Prod.fst
  have hnodup : (i :: s'.waiters.map Prod.fst).Nodup := by
    rw [hwaiters]
    exact hperm.nodup_iff.1 h.nodup
  have hcount : (l.set i t').countP holds = l.countP holds + 1 := by
    simpa [hholds, hholds'] using countP_set_add ht t' holds
  refine .of_set ht (fun j ↦ ?_) (List.nodup_cons.1 hnodup).2 (hcount ▸ h.balanced.resume hs)
  split
  next hj =>
    subst hj
    exact iff_of_false (List.nodup_cons.1 hnodup).1 (by rw [hwaits']; exact Bool.false_ne_true)
  next hj =>
    refine Iff.trans ?_ (h.waiting j)
    rw [hwaiters, hperm.mem_iff, List.map_cons, List.mem_cons]
    exact (or_iff_right hj).symm

/-- A task gives its slot back. -/
theorem Guards.release (h : Guards capacity waits holds l s) (ht : l[i]? = some t) (hwaits : waits t = false)
    (hholds : holds t = true) (hwaits' : waits t' = false) (hholds' : holds t' = false) :
    Guards capacity waits holds (l.set i t') s.release := by
  have hcount : (l.set i t').countP holds + 1 = l.countP holds := by
    simpa [hholds, hholds'] using countP_set_add ht t' holds
  have hbalanced : s.Balanced capacity ((l.set i t').countP holds + 1) := hcount.symm ▸ h.balanced
  refine .of_set ht (fun j ↦ ?_) ((waiters_release s).symm ▸ h.nodup) hbalanced.release
  rw [waiters_release, h.waiting j]
  split
  next hj =>
    subst hj
    simp [ht, hwaits, hwaits']
  next => rfl

/-- No more tasks hold a slot than there are slots. -/
theorem Guards.countP_le (h : Guards capacity waits holds l s) : l.countP holds ≤ capacity :=
  h.balanced.held_le

/-- A task that waits is woken already, or not yet. -/
theorem Guards.pending_pos (h : Guards capacity waits holds l s) (ht : l[i]? = some t) (hwaits : waits t = true)
    (hwoken : s.woken = 0) : 0 < s.pending := by
  have hmem := (h.waiting i).2 ⟨t, ht, hwaits⟩
  have hlength := List.length_pos_of_mem hmem
  rw [List.length_map, ← woken_add_pending, hwoken, Nat.zero_add] at hlength
  exact hlength

/-- **Somebody can go on.** While a task waits, another one was woken, or holds a slot. -/
theorem Guards.progress (h : Guards capacity waits holds l s) (hcapacity : 0 < capacity) (ht : l[i]? = some t)
    (hwaits : waits t = true) :
    (∃ (j : ℕ) (u : α), l[j]? = some u ∧ waits u = true ∧ (j, true) ∈ s.waiters) ∨
      ∃ (j : ℕ) (u : α), l[j]? = some u ∧ holds u = true := by
  by_cases hwoken : s.woken = 0
  · -- nobody is woken, so every slot is held
    have hfull := h.balanced.saturated (h.pending_pos ht hwaits hwoken) hwoken
    obtain ⟨u, hu, hholds⟩ := List.countP_pos_iff.1 (hfull ▸ hcapacity)
    obtain ⟨j, hj⟩ := List.mem_iff_getElem?.1 hu
    exact .inr ⟨j, u, hj, hholds⟩
  · obtain ⟨j, hj⟩ := exists_woken (Nat.pos_of_ne_zero hwoken)
    obtain ⟨u, hu, hw⟩ := (h.waiting j).1 (List.mem_map_of_mem hj)
    exact .inl ⟨j, u, hu, hw, hj⟩

end Semaphore
