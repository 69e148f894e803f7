import Mathlib.Algebra.GroupWithZero.Nat
import Mathlib.Data.List.Basic
import Sentrik.Library.Machine

/-!
# Runs that come to an end

Some labels of a machine are work that is left to do, others add to it. A rank that every label of the first
kind lowers bounds how long a run of them can be, whatever order they come in. Where the work is a list of
tasks, each with so many steps before it, the rank is their sum, and a step changes one of them.
-/

namespace Machine

universe u v

variable {σ : Type u} {ε : Type v} {step : σ → ε → Option σ} {C : ε → Prop} {s t : σ} {es : List ε}

/-- The invariant rule for runs of labels of one kind. -/
theorem inv_of_run_where {I : σ → Prop} (hstep : ∀ {s e t}, C e → I s → step s e = some t → I t)
    (h : run step s es = some t) (hC : ∀ e ∈ es, C e) (hI : I s) : I t := by
  induction es generalizing s with
  | nil => exact Option.some.inj h ▸ hI
  | cons e es ih =>
    obtain ⟨u, hu, hrest⟩ := Option.bind_eq_some_iff.1 h
    exact ih hrest (fun e he ↦ hC e (List.mem_cons_of_mem _ he)) (hstep (hC e List.mem_cons_self) hI hu)

/-- **The rank rule.** A rank that every step lowers bounds the length of the run. -/
theorem length_add_rank_le {rank : σ → ℕ} (hstep : ∀ {s e t}, C e → step s e = some t → rank t < rank s)
    (h : run step s es = some t) (hC : ∀ e ∈ es, C e) : es.length + rank t ≤ rank s := by
  induction es generalizing s with
  | nil =>
    obtain rfl := Option.some.inj h
    exact Nat.le_of_eq (Nat.zero_add _)
  | cons e es ih =>
    obtain ⟨u, hu, hrest⟩ := Option.bind_eq_some_iff.1 h
    have hless := hstep (hC e List.mem_cons_self) hu
    have hle := ih hrest fun e he ↦ hC e (List.mem_cons_of_mem _ he)
    rw [List.length_cons]
    omega

end Machine

/-! ### One task of a list -/

variable {α β : Type*} {l : List α} {i : ℕ} {b : α}

theorem sum_map_set_add (h : l[i]? = some b) (a : α) (f : α → ℕ) :
    ((l.set i a).map f).sum + f b = (l.map f).sum + f a := by
  induction l generalizing i with
  | nil => cases h
  | cons c l ih =>
    cases i with
    | zero =>
      obtain rfl := Option.some.inj h
      simp only [List.set_cons_zero, List.map_cons, List.sum_cons]
      omega
    | succ i =>
      have := ih (i := i) h
      simp only [List.set_cons_succ, List.map_cons, List.sum_cons]
      omega

/-- What a step of a task leaves as it is, it leaves so in the list. -/
theorem map_set_of_eq (h : l[i]? = some b) {a : α} {f : α → β} (hf : f a = f b) : (l.set i a).map f = l.map f := by
  obtain ⟨hi, rfl⟩ := List.getElem?_eq_some_iff.1 h
  refine List.ext_getElem? fun j ↦ ?_
  rw [List.map_set, hf]
  by_cases hj : i = j
  · subst hj
    rw [List.getElem?_set_self (by simpa using hi), List.getElem?_map, List.getElem?_eq_getElem hi]
    rfl
  · rw [List.getElem?_set_ne hj]
