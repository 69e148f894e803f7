import Mathlib.Data.List.Basic
import Mathlib.Data.Option.Basic

/-!
# Labelled machines and their runs

The run substrate of the development: a machine is a partial step function `σ → ε → Option σ`
whose label carries **everything the environment chooses** (a scheduler's pick, an adversary's
answer, a clock reading). A step is therefore a function, a run is a list of labels, and a
property quantified over all runs is a property quantified over all environments.

## Proof-free and subject-free

Nothing here knows what is being run. The states, the labels and the step are parameters, so the
module can be lifted out and used for any other system.

## The induction rules

* `inv_of_run` is the plain invariant rule: what every step keeps, every run keeps.
* `inv_of_run_along` is the rule for *conditional* invariants: it is enough that the steps meeting a
  side condition `C` keep the invariant, provided every step of the run meets it (`Along`). The
  condition is read in the state **before** the step, together with the label.
* `iff_along_of_run` is its exact form, for a property that is lost for good where a step breaks it, and
  `always_iff_along` for one that may come back: it is about every state of the run.
* `inv_of_trace_along` is the same for what a run leaves behind: an observer notes something at each
  step (`trace`), and the invariant ties the notes so far to the state.
-/

namespace Machine

universe u v w

variable {σ : Type u} {ε : Type v} {ω : Type w} (step : σ → ε → Option σ)

/-- The state a list of labels leads to, or `none` when some step is not enabled. -/
def run : σ → List ε → Option σ
  | s, [] => some s
  | s, e :: es => (step s e).bind fun t ↦ run t es

@[simp] theorem run_nil (s : σ) : run step s [] = some s := rfl

@[simp] theorem run_cons (s : σ) (e : ε) (es : List ε) :
    run step s (e :: es) = (step s e).bind fun t ↦ run step t es := rfl

/-- A run splits at any label. -/
theorem run_append (s : σ) (es es' : List ε) :
    run step s (es ++ es') = (run step s es).bind fun t ↦ run step t es' := by
  induction es generalizing s with
  | nil => rfl
  | cons e es ih =>
    rw [List.cons_append, run_cons, run_cons, Option.bind_assoc]
    exact congrArg _ (funext ih)

/-- Whether a given run ends in a state with a given property can be found out by running it. -/
instance decidableExistsRun (P : σ → Prop) [DecidablePred P] (s : σ) (es : List ε) :
    Decidable (∃ t, run step s es = some t ∧ P t) :=
  match h : run step s es with
  | none => isFalse fun ⟨_, ht, _⟩ ↦ by cases ht
  | some t => decidable_of_iff (P t) ⟨fun hP ↦ ⟨t, rfl, hP⟩, fun ⟨_, ht, hP⟩ ↦ Option.some.inj ht ▸ hP⟩

theorem run_snoc_eq_some {s u : σ} {es : List ε} {e : ε} (h : run step s (es ++ [e]) = some u) :
    ∃ t, run step s es = some t ∧ step t e = some u := by
  rw [run_append] at h
  obtain ⟨t, ht, hu⟩ := Option.bind_eq_some_iff.1 h
  obtain ⟨u', hu', hnil⟩ := Option.bind_eq_some_iff.1 hu
  exact ⟨t, ht, by rw [hu', ← Option.some.inj hnil]⟩

/-- `t` can be reached from `s`. -/
def Reaches (s t : σ) : Prop := ∃ es, run step s es = some t

theorem Reaches.refl (s : σ) : Reaches step s s := ⟨[], rfl⟩

variable {step}

theorem Reaches.tail {s t u : σ} {e : ε} (h : Reaches step s t) (hs : step t e = some u) :
    Reaches step s u := by
  obtain ⟨es, hes⟩ := h
  refine ⟨es ++ [e], ?_⟩
  rw [run_append, hes, Option.bind_some, run_cons, hs]
  rfl

theorem Reaches.trans {s t u : σ} (h : Reaches step s t) (h' : Reaches step t u) :
    Reaches step s u := by
  obtain ⟨es, hes⟩ := h
  obtain ⟨es', hes'⟩ := h'
  refine ⟨es ++ es', ?_⟩
  rw [run_append, hes, Option.bind_some, hes']

/-- **The invariant rule.** What every step keeps, every run keeps. -/
theorem inv_of_run {I : σ → Prop} (hstep : ∀ {s e t}, I s → step s e = some t → I t) {s t : σ}
    {es : List ε} (h : run step s es = some t) (hI : I s) : I t := by
  induction es generalizing s with
  | nil => exact Option.some.inj h ▸ hI
  | cons e es ih =>
    obtain ⟨u, hu, hrest⟩ := Option.bind_eq_some_iff.1 h
    exact ih hrest (hstep hI hu)

variable (step)

/-- Every step of the run of `es` from `s` meets the side condition `C`, read in the state before
the step. -/
def Along (C : σ → ε → Prop) : σ → List ε → Prop
  | _, [] => True
  | s, e :: es => C s e ∧ ∀ t, step s e = some t → Along C t es

variable {step}

@[simp] theorem along_nil (C : σ → ε → Prop) (s : σ) : Along step C s [] := trivial

theorem along_cons {C : σ → ε → Prop} {s : σ} {e : ε} {es : List ε} :
    Along step C s (e :: es) ↔ C s e ∧ ∀ t, step s e = some t → Along step C t es :=
  Iff.rfl

/-- A side condition on a given run can be checked by running it. -/
instance decidableAlong (C : σ → ε → Prop) [∀ s e, Decidable (C s e)] :
    ∀ (s : σ) (es : List ε), Decidable (Along step C s es)
  | _, [] => isTrue trivial
  | s, e :: es =>
    match h : step s e with
    | none => decidable_of_iff (C s e) ⟨fun hC ↦ ⟨hC, by simp [h]⟩, fun hC ↦ hC.1⟩
    | some t =>
      have := decidableAlong C t es
      decidable_of_iff (C s e ∧ Along step C t es)
        ⟨fun hC ↦ ⟨hC.1, fun _ ht ↦ Option.some.inj (h.symm.trans ht) ▸ hC.2⟩,
          fun hC ↦ ⟨hC.1, hC.2 t h⟩⟩

/-- A side condition that holds everywhere is met along every run. -/
theorem along_of_forall {C : σ → ε → Prop} (h : ∀ s e, C s e) (s : σ) (es : List ε) :
    Along step C s es := by
  induction es generalizing s with
  | nil => trivial
  | cons e es ih => exact ⟨h s e, fun t _ ↦ ih t⟩

/-- A weaker side condition is met wherever a stronger one is. -/
theorem Along.mono {C D : σ → ε → Prop} (hCD : ∀ s e, C s e → D s e) {s : σ} {es : List ε}
    (h : Along step C s es) : Along step D s es := by
  induction es generalizing s with
  | nil => trivial
  | cons e es ih => exact ⟨hCD s e h.1, fun t ht ↦ ih (h.2 t ht)⟩

/-- Two side conditions are met together. -/
theorem Along.and {C D : σ → ε → Prop} {s : σ} {es : List ε} (hC : Along step C s es) (hD : Along step D s es) :
    Along step (fun s e ↦ C s e ∧ D s e) s es := by
  induction es generalizing s with
  | nil => trivial
  | cons e es ih => exact ⟨⟨hC.1, hD.1⟩, fun t ht ↦ ih (hC.2 t ht) (hD.2 t ht)⟩

/-- **The conditional invariant rule.** Along a run whose steps all meet `C`, it is enough that the
steps meeting `C` keep the invariant. -/
theorem inv_of_run_along {I : σ → Prop} {C : σ → ε → Prop}
    (hstep : ∀ {s e t}, I s → C s e → step s e = some t → I t) {s t : σ} {es : List ε}
    (hC : Along step C s es) (h : run step s es = some t) (hI : I s) : I t := by
  induction es generalizing s with
  | nil => exact Option.some.inj h ▸ hI
  | cons e es ih =>
    obtain ⟨u, hu, hrest⟩ := Option.bind_eq_some_iff.1 h
    exact ih (hC.2 u hu) hrest (hstep hI hC.1 hu)

/-- **The exact conditional rule.** Where a step has `P` after it exactly when `P` held before it and the
step meets `C`, a run has `P` at its end exactly when `P` held at its start and all its steps meet `C`. -/
theorem iff_along_of_run {I P : σ → Prop} {C : σ → ε → Prop}
    (hinv : ∀ {s e t}, I s → step s e = some t → I t)
    (hstep : ∀ {s e t}, I s → step s e = some t → (P t ↔ P s ∧ C s e)) {s t : σ} {es : List ε}
    (h : run step s es = some t) (hI : I s) : P t ↔ P s ∧ Along step C s es := by
  induction es generalizing s with
  | nil =>
    obtain rfl := Option.some.inj h
    exact (and_iff_left trivial).symm
  | cons e es ih =>
    obtain ⟨u, hu, hrest⟩ := Option.bind_eq_some_iff.1 h
    have hnext : (∀ t, step s e = some t → Along step C t es) ↔ Along step C u es := by
      refine ⟨fun hall ↦ hall u hu, fun halong t ht ↦ ?_⟩
      obtain rfl := Option.some.inj (hu.symm.trans ht)
      exact halong
    rw [ih hrest (hinv hI hu), hstep hI hu, along_cons, hnext, and_assoc]

/-- **The exact rule for every state of a run.** Where a step from a state with `P` leads to one with `P`
exactly when it meets `C`, all states of a run have `P` exactly when all its steps meet `C`. -/
theorem always_iff_along {P : σ → Prop} {C : σ → ε → Prop}
    (hstep : ∀ {s e t}, P s → step s e = some t → (P t ↔ C s e)) {s t : σ} {es : List ε}
    (h : run step s es = some t) (hP : P s) :
    (∀ es' u, es' <+: es → run step s es' = some u → P u) ↔ Along step C s es := by
  induction es generalizing s with
  | nil =>
    refine iff_of_true (fun es' u hprefix hu ↦ ?_) trivial
    rw [List.prefix_nil.1 hprefix] at hu
    exact Option.some.inj hu ▸ hP
  | cons e es ih =>
    obtain ⟨v, hv, hrest⟩ := Option.bind_eq_some_iff.1 h
    rw [along_cons]
    constructor
    · intro hall
      have hPv : P v := hall [e] v ⟨es, rfl⟩ (by rw [run_cons, hv]; rfl)
      refine ⟨(hstep hP hv).1 hPv, fun w hw ↦ ?_⟩
      obtain rfl := Option.some.inj (hv.symm.trans hw)
      refine (ih hrest hPv).1 fun es' u hprefix hu ↦ hall (e :: es') u ?_ (by rw [run_cons, hv]; exact hu)
      exact List.cons_prefix_cons.2 ⟨rfl, hprefix⟩
    · rintro ⟨hC, halong⟩ es' u hprefix hu
      have hPv : P v := (hstep hP hv).2 hC
      cases es' with
      | nil => exact Option.some.inj hu ▸ hP
      | cons e' es' =>
        obtain ⟨rfl, htail⟩ := List.cons_prefix_cons.1 hprefix
        rw [run_cons, hv] at hu
        exact (ih hrest hPv).2 (halong v hv) es' u htail hu

/-! ### Traces -/

variable (step)

/-- What an observer notes along a run: at each step it sees the state before, the label and the state
after. -/
def trace (obs : σ → ε → σ → List ω) : σ → List ε → List ω
  | _, [] => []
  | s, e :: es =>
    match step s e with
    | some t => obs s e t ++ trace obs t es
    | none => []

@[simp] theorem trace_nil (obs : σ → ε → σ → List ω) (s : σ) : trace step obs s [] = [] := rfl

variable {step}

theorem trace_cons {obs : σ → ε → σ → List ω} {s t : σ} {e : ε} (h : step s e = some t)
    (es : List ε) : trace step obs s (e :: es) = obs s e t ++ trace step obs t es := by
  rw [trace, h]

/-- **The invariant rule for traces.** Along a run whose steps all meet `C`, it is enough that each such
step keeps the relation between the state and the notes so far. -/
theorem inv_of_trace_along {obs : σ → ε → σ → List ω} {I : σ → List ω → Prop} {C : σ → ε → Prop}
    (hstep : ∀ {s e t w}, I s w → C s e → step s e = some t → I t (w ++ obs s e t)) {s t : σ}
    {es : List ε} (hC : Along step C s es) (h : run step s es = some t) (hI : I s []) :
    I t (trace step obs s es) := by
  suffices hgo : ∀ {w : List ω}, I s w → I t (w ++ trace step obs s es) from hgo hI
  clear hI
  induction es generalizing s with
  | nil =>
    intro w hI
    rw [trace_nil, List.append_nil]
    exact Option.some.inj h ▸ hI
  | cons e es ih =>
    intro w hI
    obtain ⟨u, hu, hrest⟩ := Option.bind_eq_some_iff.1 h
    have hnext := ih (hC.2 u hu) hrest (hstep hI hC.1 hu)
    rwa [trace_cons hu, ← List.append_assoc]

end Machine
