import Mathlib.Data.List.Basic

/-!
# A counting semaphore with waiters in order of arrival

The semaphore of a cooperative event loop. Whoever finds it locked waits; a release hands the slot to the
first waiter that was not woken yet, and a woken waiter goes on when the loop comes round to it. Until then
the slot is neither free nor held. `waiters` keeps both kinds, so three numbers have to add up: the free
slots, those promised to woken waiters, and those that are held.

## No wakeup is lost

A newcomer waits whenever somebody is in the queue, woken or not. So a slot can be free while a newcomer
waits, for as long as some woken waiter is still there: it passes the free slot on when it goes on.
`Balanced.heard` says that there is one, and `Balanced.saturated` what follows: when nobody is woken and
somebody waits, every slot is held.

Nobody gives up waiting here.
-/

/-- The free slots, and who waits in order of arrival, each with whether it was woken. -/
structure Semaphore (ι : Type*) where
  value : ℕ
  waiters : List (ι × Bool) := []
  deriving DecidableEq, Repr

namespace Semaphore

variable {ι : Type*}

/-- Whether a newcomer has to wait. -/
def locked (s : Semaphore ι) : Bool := s.value == 0 || !s.waiters.isEmpty

/-- Wake the first waiter that was not woken. -/
def wakeFirst : List (ι × Bool) → Option (List (ι × Bool))
  | [] => none
  | (i, false) :: ws => some ((i, true) :: ws)
  | (i, true) :: ws => (wakeFirst ws).map ((i, true) :: ·)

def _wake_up_next (s : Semaphore ι) : Semaphore ι :=
  match wakeFirst s.waiters with
  | some waiters => { value := s.value - 1, waiters }
  | none => s

/-- Whether the caller has a slot at once. -/
def acquire (s : Semaphore ι) (i : ι) : Semaphore ι × Bool :=
  if s.locked then ({ s with waiters := s.waiters ++ [(i, false)] }, false)
  else ({ s with value := s.value - 1 }, true)

/-- A woken waiter goes on. -/
def resume [DecidableEq ι] (s : Semaphore ι) (i : ι) : Option (Semaphore ι) :=
  if (i, true) ∈ s.waiters then
    let s := { s with waiters := s.waiters.erase (i, true) }
    some (if 0 < s.value then s._wake_up_next else s)
  else none

def release (s : Semaphore ι) : Semaphore ι := { s with value := s.value + 1 }._wake_up_next

/-- How many waiters were woken. -/
def woken (s : Semaphore ι) : ℕ := s.waiters.countP (·.2)

/-- How many waiters were not. -/
def pending (s : Semaphore ι) : ℕ := s.waiters.countP (!·.2)

theorem woken_pos {s : Semaphore ι} {i : ι} (h : (i, true) ∈ s.waiters) : 0 < s.woken :=
  List.countP_pos_iff.2 ⟨(i, true), h, rfl⟩

theorem exists_woken {s : Semaphore ι} (h : 0 < s.woken) : ∃ i, (i, true) ∈ s.waiters := by
  obtain ⟨⟨i, b⟩, hmem, hb⟩ := List.countP_pos_iff.1 h
  exact ⟨i, by rwa [← show b = true from hb]⟩

/-- A waiter was woken or not. -/
theorem woken_add_pending (s : Semaphore ι) : s.woken + s.pending = s.waiters.length := by
  rw [woken, pending, List.length_eq_countP_add_countP (·.2)]
  simp

/-! ### Waking -/

theorem wakeFirst_eq_none {ws : List (ι × Bool)} (h : wakeFirst ws = none) :
    ws.countP (!·.2) = 0 := by
  induction ws with
  | nil => rfl
  | cons w ws ih =>
    obtain ⟨i, b⟩ := w
    cases b with
    | false => cases h
    | true =>
      rw [List.countP_cons_of_neg (by simp)]
      exact ih (Option.map_eq_none_iff.1 h)

theorem wakeFirst_eq_some {ws ws' : List (ι × Bool)} (h : wakeFirst ws = some ws') :
    ws'.countP (·.2) = ws.countP (·.2) + 1 ∧ ws'.countP (!·.2) + 1 = ws.countP (!·.2) ∧
      ws'.map Prod.fst = ws.map Prod.fst := by
  induction ws generalizing ws' with
  | nil => cases h
  | cons w ws ih =>
    obtain ⟨i, b⟩ := w
    cases b with
    | false =>
      rw [← Option.some.inj h]
      simp
    | true =>
      obtain ⟨rest, hrest, rfl⟩ := Option.map_eq_some_iff.1 h
      obtain ⟨hwoken, hpending, hmap⟩ := ih hrest
      refine ⟨?_, ?_, by simp [hmap]⟩
      · rw [List.countP_cons_of_pos rfl, List.countP_cons_of_pos rfl, hwoken]
      · rw [List.countP_cons_of_neg (by simp), List.countP_cons_of_neg (by simp), hpending]

/-! ### Slots -/

/-- **The invariant** of a semaphore with `capacity` slots of which `held` are held. -/
structure Balanced (capacity held : ℕ) (s : Semaphore ι) : Prop where
  total : s.value + s.woken + held = capacity
  /-- A free slot somebody waits for is passed on by a woken waiter. -/
  heard : 0 < s.value → 0 < s.pending → 0 < s.woken

variable {capacity held : ℕ} {s s' : Semaphore ι} {i : ι}

theorem balanced_init (capacity : ℕ) : Balanced capacity 0 (⟨capacity, []⟩ : Semaphore ι) :=
  ⟨rfl, fun _ h ↦ absurd h (Nat.lt_irrefl 0)⟩

/-- A free slot is handed to the first waiter, if there is one. -/
theorem Balanced.wake_up_next (htotal : s.value + s.woken + held = capacity) (hfree : 0 < s.value) :
    Balanced capacity held s._wake_up_next := by
  rw [_wake_up_next]
  split
  next ws hws =>
    obtain ⟨hwoken, -, -⟩ := wakeFirst_eq_some hws
    refine ⟨?_, fun _ _ ↦ ?_⟩
    · change s.value - 1 + ws.countP (·.2) + held = capacity
      rw [hwoken, ← htotal, woken]
      omega
    · change 0 < ws.countP (·.2)
      omega
  next hnone =>
    refine ⟨htotal, fun _ hpending ↦ ?_⟩
    rw [pending, wakeFirst_eq_none hnone] at hpending
    exact absurd hpending (Nat.lt_irrefl 0)

theorem Balanced.release (h : Balanced capacity (held + 1) s) : Balanced capacity held s.release := by
  refine wake_up_next ?_ (Nat.succ_pos _)
  have htotal := h.total
  change s.value + 1 + s.woken + held = capacity
  omega

/-- A newcomer has a slot, or waits. -/
theorem Balanced.acquire (h : Balanced capacity held s) (i : ι) :
    Balanced capacity (if (s.acquire i).2 then held + 1 else held) (s.acquire i).1 := by
  have htotal := h.total
  rw [Semaphore.acquire]
  split
  next hlocked =>
    have hwoken : (s.waiters ++ [(i, false)]).countP (·.2) = s.woken := by simp [woken]
    refine ⟨by simpa [woken, hwoken] using htotal, fun hvalue _ ↦ ?_⟩
    change 0 < (s.waiters ++ [(i, false)]).countP (·.2)
    rw [hwoken]
    -- there is a free slot, so the queue is not empty
    have hne : s.waiters ≠ [] := by
      intro hnil
      have hpos : ¬s.value = 0 := (Nat.pos_iff_ne_zero.1 hvalue)
      simp [locked, hnil, hpos] at hlocked
    by_contra hnone
    have hcount := s.woken_add_pending
    have hlength := List.length_pos_iff.2 hne
    exact hnone (h.heard hvalue (by omega))
  next hfree =>
    have hunlocked : s.value ≠ 0 ∧ s.waiters = [] := by simpa [locked] using hfree
    have hempty : s.pending = 0 := by rw [pending, hunlocked.2]; rfl
    refine ⟨?_, fun _ hpending ↦ ?_⟩
    · change s.value - 1 + s.woken + (held + 1) = capacity
      omega
    · have hnone : 0 < s.pending := hpending
      omega

theorem Balanced.resume [DecidableEq ι] (h : Balanced capacity held s) (hs : s.resume i = some s') :
    Balanced capacity (held + 1) s' := by
  have htotal := h.total
  rw [Semaphore.resume] at hs
  split at hs
  next hmem =>
    rw [← Option.some.inj hs]
    have hpos := woken_pos hmem
    have herase : (s.waiters.erase (i, true)).countP (·.2) + 1 = s.woken := by
      rw [woken, (List.perm_cons_erase hmem).countP_eq (·.2), List.countP_cons_of_pos rfl]
    split
    next hvalue =>
      refine wake_up_next ?_ hvalue
      change s.value + (s.waiters.erase (i, true)).countP (·.2) + (held + 1) = capacity
      omega
    next hvalue =>
      refine ⟨?_, fun hfree ↦ absurd hfree hvalue⟩
      change s.value + (s.waiters.erase (i, true)).countP (·.2) + (held + 1) = capacity
      omega
  next => cases hs

/-- No more slots are held than there are. -/
theorem Balanced.held_le (h : Balanced capacity held s) : held ≤ capacity := by
  have := h.total
  omega

/-- **No idle slot.** When somebody waits and nobody is woken, every slot is held. -/
theorem Balanced.saturated (h : Balanced capacity held s) (hpending : 0 < s.pending)
    (hwoken : s.woken = 0) : held = capacity := by
  have htotal := h.total
  have hvalue : s.value = 0 := by
    by_contra hne
    have := h.heard (Nat.pos_of_ne_zero hne) hpending
    omega
  omega

/-! ### Who waits -/

theorem waiters_wake_up_next (s : Semaphore ι) :
    s._wake_up_next.waiters.map Prod.fst = s.waiters.map Prod.fst := by
  rw [_wake_up_next]
  split
  next ws hws => exact (wakeFirst_eq_some hws).2.2
  next => rfl

theorem waiters_release (s : Semaphore ι) : s.release.waiters.map Prod.fst = s.waiters.map Prod.fst :=
  waiters_wake_up_next _

theorem waiters_acquire (s : Semaphore ι) (i : ι) :
    (s.acquire i).1.waiters.map Prod.fst =
      s.waiters.map Prod.fst ++ if (s.acquire i).2 then [] else [i] := by
  rw [acquire]
  split
  · simp
  · simp

theorem waiters_resume [DecidableEq ι] (hs : s.resume i = some s') :
    s'.waiters.map Prod.fst = (s.waiters.erase (i, true)).map Prod.fst ∧ (i, true) ∈ s.waiters := by
  rw [Semaphore.resume] at hs
  split at hs
  next hmem =>
    refine ⟨?_, hmem⟩
    rw [← Option.some.inj hs]
    dsimp only
    split
    · exact waiters_wake_up_next _
    · rfl
  next => cases hs

end Semaphore
