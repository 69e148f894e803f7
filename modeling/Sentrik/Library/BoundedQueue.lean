import Mathlib.Data.Int.Notation
import Mathlib.Data.List.Basic

/-!
# A bounded queue that drops what does not fit

A producer that never waits and a consumer that takes what is there. A full queue drops what is put into it,
so what the consumer has taken followed by what waits is in general only a sublist of what was put.
`passed_eq_iff` says exactly when it is everything: when no put met a full queue. A bound that is not
positive is no bound.
-/

/-- What waits, and what the consumer has taken, in order. -/
structure BoundedQueue (α : Type*) where
  maxsize : ℤ
  waiting : List α := []
  taken : List α := []
  deriving DecidableEq, Repr

namespace BoundedQueue

variable {α : Type*}

def full (q : BoundedQueue α) : Bool := decide (0 < q.maxsize) && decide (q.maxsize ≤ q.waiting.length)

/-- Put an element, unless the queue is full. -/
def put_nowait (q : BoundedQueue α) (a : α) : Option (BoundedQueue α) :=
  if q.full then none else some { q with waiting := q.waiting ++ [a] }

/-- Take the first element, unless the queue is empty. -/
def get_nowait (q : BoundedQueue α) : Option (α × BoundedQueue α) :=
  match q.waiting with
  | [] => none
  | a :: waiting => some (a, { q with waiting, taken := q.taken ++ [a] })

inductive Op (α : Type*)
  | put (a : α)
  | take
  deriving DecidableEq, Repr

/-- A put that does not fit is dropped; an empty queue has nothing to take. -/
def step (q : BoundedQueue α) : Op α → BoundedQueue α
  | .put a => (q.put_nowait a).getD q
  | .take => (q.get_nowait).elim q Prod.snd

def run (q : BoundedQueue α) (ops : List (Op α)) : BoundedQueue α := ops.foldl step q

/-- What is put, whether it fits or not. -/
def offered (ops : List (Op α)) : List α :=
  ops.filterMap fun op ↦ match op with
    | .put a => some a
    | .take => none

/-- What has gone through the queue or is in it. -/
def passed (q : BoundedQueue α) : List α := q.taken ++ q.waiting

/-- No put meets a full queue. -/
def Roomy (q : BoundedQueue α) : List (Op α) → Prop
  | [] => True
  | .put a :: ops => q.full = false ∧ Roomy (q.step (.put a)) ops
  | .take :: ops => Roomy (q.step .take) ops

/-! ### One operation -/

@[simp] theorem maxsize_step (q : BoundedQueue α) (op : Op α) : (q.step op).maxsize = q.maxsize := by
  cases op with
  | put a =>
    rw [step, put_nowait]
    split <;> rfl
  | take =>
    rw [step, get_nowait]
    split <;> rfl

theorem step_put_of_full {q : BoundedQueue α} (h : q.full = true) (a : α) : q.step (.put a) = q := by
  rw [step, put_nowait, if_pos h]
  rfl

theorem step_put_of_room {q : BoundedQueue α} (h : q.full = false) (a : α) :
    q.step (.put a) = { q with waiting := q.waiting ++ [a] } := by
  rw [step, put_nowait, h]
  rfl

/-- Taking moves an element from what waits to what is taken. -/
@[simp] theorem passed_take (q : BoundedQueue α) : (q.step .take).passed = q.passed := by
  rw [step, get_nowait, passed, passed]
  split
  · rfl
  next h => simp [h]

theorem passed_put_of_room {q : BoundedQueue α} (h : q.full = false) (a : α) :
    (q.step (.put a)).passed = q.passed ++ [a] := by
  rw [step_put_of_room h, passed, passed, List.append_assoc]

theorem length_step_le {q : BoundedQueue α} (hpos : 0 < q.maxsize)
    (h : (q.waiting.length : ℤ) ≤ q.maxsize) (op : Op α) :
    ((q.step op).waiting.length : ℤ) ≤ q.maxsize := by
  cases op with
  | put a =>
    cases hfull : q.full with
    | true => rwa [step_put_of_full hfull]
    | false =>
      rw [step_put_of_room hfull]
      have hroom : ¬q.maxsize ≤ q.waiting.length := by simpa [full, hpos] using hfull
      simp only [List.length_append, List.length_singleton]
      omega
  | take =>
    rw [step, get_nowait]
    split
    · exact h
    next a rest heq =>
      rw [heq, List.length_cons] at h
      change (rest.length : ℤ) ≤ q.maxsize
      omega

/-! ### Runs -/

@[simp] theorem run_cons (q : BoundedQueue α) (op : Op α) (ops : List (Op α)) :
    q.run (op :: ops) = (q.step op).run ops := rfl

@[simp] theorem maxsize_run (q : BoundedQueue α) (ops : List (Op α)) : (q.run ops).maxsize = q.maxsize := by
  induction ops generalizing q with
  | nil => rfl
  | cons op ops ih => rw [run_cons, ih, maxsize_step]

/-- The bound is kept. -/
theorem length_run_le {q : BoundedQueue α} (hpos : 0 < q.maxsize)
    (h : (q.waiting.length : ℤ) ≤ q.maxsize) (ops : List (Op α)) :
    ((q.run ops).waiting.length : ℤ) ≤ q.maxsize := by
  induction ops generalizing q with
  | nil => exact h
  | cons op ops ih =>
    have hstep := length_step_le hpos h op
    have hsame := maxsize_step q op
    rw [run_cons, ← hsame]
    exact ih (hsame.symm ▸ hpos) (hsame.symm ▸ hstep)

/-- **Nothing is invented, repeated or reordered.** -/
theorem passed_sublist (q : BoundedQueue α) (ops : List (Op α)) :
    (q.run ops).passed.Sublist (q.passed ++ offered ops) := by
  induction ops generalizing q with
  | nil => simp [run, offered]
  | cons op ops ih =>
    rw [run_cons]
    refine (ih (q.step op)).trans ?_
    cases op with
    | take => rw [passed_take]; exact List.Sublist.refl _
    | put a =>
      change (_ ++ offered ops).Sublist (q.passed ++ a :: offered ops)
      cases hfull : q.full with
      | true =>
        rw [step_put_of_full hfull]
        exact List.Sublist.append_left (List.sublist_cons_self _ _) _
      | false =>
        rw [passed_put_of_room hfull, List.append_assoc]
        exact List.Sublist.refl _

/-- **Loss is exactly a put onto a full queue.** -/
theorem passed_eq_iff (q : BoundedQueue α) (ops : List (Op α)) :
    (q.run ops).passed = q.passed ++ offered ops ↔ Roomy q ops := by
  induction ops generalizing q with
  | nil => simp [run, offered, Roomy]
  | cons op ops ih =>
    rw [run_cons]
    cases op with
    | take =>
      change _ = q.passed ++ offered ops ↔ Roomy (q.step .take) ops
      rw [← ih, passed_take]
    | put a =>
      change _ = q.passed ++ a :: offered ops ↔ q.full = false ∧ Roomy (q.step (.put a)) ops
      cases hfull : q.full with
      | true =>
        -- one element is missing for good
        refine iff_of_false (fun heq ↦ ?_) (by simp)
        rw [step_put_of_full hfull] at heq
        have hle := (passed_sublist q ops).length_le
        rw [heq, List.length_append, List.length_append, List.length_cons] at hle
        omega
      | false =>
        rw [← ih, passed_put_of_room hfull, List.append_assoc]
        simp

/-- Without a bound nothing is lost. -/
theorem roomy_of_unbounded {q : BoundedQueue α} (h : q.maxsize ≤ 0) (ops : List (Op α)) :
    Roomy q ops := by
  induction ops generalizing q with
  | nil => trivial
  | cons op ops ih =>
    have hnext := ih (q := q.step op) (by rwa [maxsize_step])
    cases op with
    | take => exact hnext
    | put a => exact ⟨by simp [full, Int.not_lt.2 h], hnext⟩

/-- While nobody takes, the queue keeps what comes first. -/
theorem waiting_run_puts {q : BoundedQueue α} (hpos : 0 < q.maxsize)
    (h : (q.waiting.length : ℤ) ≤ q.maxsize) (as : List α) :
    (q.run (as.map .put)).waiting = (q.waiting ++ as).take q.maxsize.toNat := by
  induction as generalizing q with
  | nil =>
    rw [List.append_nil, List.take_of_length_le (by omega)]
    rfl
  | cons a as ih =>
    rw [List.map_cons, run_cons]
    cases hfull : q.full with
    | true =>
      have hlength : q.maxsize ≤ q.waiting.length := by simpa [full, hpos] using hfull
      have hexact : q.maxsize.toNat = q.waiting.length := by omega
      rw [step_put_of_full hfull, ih hpos h, hexact, List.take_left, List.take_left]
    | false =>
      have hlength := length_step_le hpos h (.put a)
      rw [step_put_of_room hfull] at hlength ⊢
      rw [ih (q := { q with waiting := q.waiting ++ [a] }) hpos hlength, List.append_assoc]
      rfl

end BoundedQueue
