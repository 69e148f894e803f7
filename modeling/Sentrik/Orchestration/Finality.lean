import Sentrik.Orchestration.Cancellation

/-!
# Final states

`COMPLETED` and `CANCELLED` are final: no start, no operator, no restart and no task that is still going on
takes an assessment out of them, and no phase is entered again. `FAILED` is not, since a failed assessment
can be started again.

The argument is about the driver: the state is final only where the task of the run is over, and a task that
is over writes no state. The orchestrator follows the driver, so it has the law from there.
-/

namespace Sentrik

/-- The states an assessment is never taken out of. -/
def AssessmentState.final (state : AssessmentState) : Prop := state = .COMPLETED ∨ state = .CANCELLED

instance (state : AssessmentState) : Decidable state.final := inferInstanceAs (Decidable (_ ∨ _))

theorem AssessmentState.final.terminal {state : AssessmentState} (h : state.final) :
    state ∈ TERMINAL_STATES := by
  rcases h with rfl | rfl <;> decide

theorem AssessmentState.final.not_startable {state : AssessmentState} (h : state.final) :
    ¬(state = .CREATED ∨ state = .FAILED) := by
  rcases h with rfl | rfl <;> decide

theorem Node.state_not_final (n : Node) : ¬n.state.final := by
  cases n <;> decide

namespace Driver

variable {settings : Settings} {d d' : Driver} {e : DriverEvent}

/-- There is no task, or it has only its client to leave. -/
def Over (d : Driver) : Prop := d.pc = .leaving ∨ d.pc = .ended

/-- The state is final only when the task is over. -/
def Settled (d : Driver) : Prop := d.state.final → d.Over

/-- A task that is over leaves a final state alone. -/
theorem Over.step (hover : d.Over) (hfinal : d.state.final) (h : step settings d e = some d') :
    d'.state = d.state ∧ d'.Over := by
  have hterminal := hfinal.terminal
  have hpc : ∀ place, d.pc = place → place = .leaving ∨ place = .ended := fun _ hplace ↦ hplace ▸ hover
  cases e with
  | read =>
    simp only [Driver.step] at h
    split at h
    next hplace => simpa using hpc _ hplace
    next => cases h
  | write =>
    simp only [Driver.step] at h
    split at h
    next hplace => simpa using hpc _ hplace
    next => cases h
  | finish =>
    simp only [Driver.step] at h
    split at h
    next hplace => simpa using hpc _ hplace
    next => cases h
  | park =>
    simp only [Driver.step] at h
    split at h
    next hplace => simpa using hpc _ hplace.1
    next => cases h
  | refuse =>
    simp only [Driver.step] at h
    split_ifs at h
    next hplace => simpa using hpc _ hplace
    next hplace => simpa using hpc _ hplace
  | raise =>
    rw [Driver.step, if_pos (show d.pc = .leaving ∨ d.pc = .ended from hover)] at h
    cases h
  | route =>
    simp only [Driver.step] at h
    split at h
    next hplace => simpa using hpc _ hplace
    next => cases h
  | cancelled =>
    simp only [Driver.step] at h
    split at h
    next hplace => simpa using hpc _ hplace.1
    next => cases h
  | leave =>
    simp only [Driver.step] at h
    split at h
    next => exact Option.some.inj h ▸ ⟨rfl, Or.inr rfl⟩
    next => cases h
  | start reset =>
    rw [Driver.step, if_neg hfinal.not_startable] at h
    exact Option.some.inj h ▸ ⟨rfl, hover⟩
  | resume =>
    simp only [Driver.step] at h
    split at h
    next hplace =>
      rw [hplace.2] at hfinal
      rcases hfinal with hfinal | hfinal <;> cases hfinal
    next => cases h
  | cancel =>
    rw [Driver.step, if_pos hterminal] at h
    exact Option.some.inj h ▸ ⟨rfl, hover⟩
  | cancel_all =>
    rw [Driver.step, if_pos hterminal] at h
    exact Option.some.inj h ▸ ⟨rfl, hover⟩
  | restart =>
    have hsweep : ({ d with pc := .ended } : Driver).sweep settings = { d with pc := .ended } :=
      if_pos (Or.inl hterminal)
    rw [Driver.step, hsweep] at h
    exact Option.some.inj h ▸ ⟨rfl, Or.inr rfl⟩

theorem launch_state (d : Driver) : (d.launch settings).state = d.state := by
  rw [launch]
  split <;> rfl

theorem sweep_state (d : Driver) :
    (d.sweep settings).state = d.state ∨ (d.sweep settings).state = .CREATED := by
  rw [sweep]
  split_ifs
  · exact Or.inl rfl
  · exact Or.inl (launch_state d)
  · exact Or.inr (launch_state _)

/-- **A final state is written only where the task is over.** -/
theorem Settled.step (hsettled : d.Settled) (h : step settings d e = some d') : d'.Settled := by
  by_cases hfinal : d.state.final
  · exact fun _ ↦ ((hsettled hfinal).step hfinal h).2
  intro hfinal'
  -- the state was not final, so this step has written it
  have hsame : d'.state ≠ d.state := fun heq ↦ hfinal (heq ▸ hfinal')
  cases e with
  | read =>
    simp only [Driver.step] at h
    split at h
    · exact absurd (Option.some.inj h ▸ rfl) hsame
    · cases h
  | write =>
    simp only [Driver.step] at h
    split at h
    next n _ =>
      rw [← Option.some.inj h] at hfinal'
      exact absurd hfinal' n.state_not_final
    next => cases h
  | finish =>
    simp only [Driver.step] at h
    split at h
    · split at h
      · exact absurd (Option.some.inj h ▸ rfl) hsame
      · exact Option.some.inj h ▸ Or.inl rfl
    · cases h
  | park =>
    simp only [Driver.step] at h
    split at h
    · exact absurd (Option.some.inj h ▸ rfl) hsame
    · cases h
  | refuse =>
    simp only [Driver.step] at h
    split_ifs at h
    · exact Option.some.inj h ▸ Or.inl rfl
    · exact Option.some.inj h ▸ Or.inl rfl
  | raise =>
    simp only [Driver.step] at h
    split at h
    · cases h
    · exact Option.some.inj h ▸ Or.inl rfl
  | route =>
    simp only [Driver.step] at h
    split at h
    · exact absurd (Option.some.inj h ▸ rfl) hsame
    · cases h
  | cancelled =>
    simp only [Driver.step] at h
    split at h
    · exact Option.some.inj h ▸ Or.inl rfl
    · cases h
  | leave =>
    simp only [Driver.step] at h
    split at h
    · exact Option.some.inj h ▸ Or.inr rfl
    · cases h
  | start reset =>
    simp only [Driver.step] at h
    split at h
    · exact absurd (Option.some.inj h ▸ launch_state _) hsame
    · exact absurd (Option.some.inj h ▸ rfl) hsame
  | resume =>
    simp only [Driver.step] at h
    split at h
    · exact absurd (Option.some.inj h ▸ launch_state _) hsame
    · cases h
  | cancel =>
    simp only [Driver.step] at h
    split at h
    · exact absurd (Option.some.inj h ▸ rfl) hsame
    · by_cases hended : d.pc = .ended
      · exact Option.some.inj h ▸ Or.inr hended
      · rw [if_neg hended] at h
        exact absurd (Option.some.inj h ▸ rfl) hsame
  | cancel_all =>
    simp only [Driver.step] at h
    split at h
    · exact absurd (Option.some.inj h ▸ rfl) hsame
    · exact absurd (Option.some.inj h ▸ rfl) hsame
  | restart =>
    rw [Driver.step] at h
    rcases @sweep_state settings { d with pc := .ended } with hstate | hstate
    · exact absurd (Option.some.inj h ▸ hstate) hsame
    · rw [← Option.some.inj h, hstate] at hfinal'
      rcases hfinal' with hcreated | hcreated <;> cases hcreated

theorem Settled.reaches (hsettled : d.Settled) (h : Machine.Reaches (Driver.step settings) d d') :
    d'.Settled := by
  obtain ⟨es, hes⟩ := h
  exact Machine.inv_of_run (I := Settled) (fun hI hs ↦ hI.step hs) hes hsettled

/-- What a run of the driver keeps of a final state. -/
theorem Over.reaches (hover : d.Over) (hfinal : d.state.final)
    (h : Machine.Reaches (Driver.step settings) d d') : d'.state = d.state ∧ d'.Over := by
  obtain ⟨es, hes⟩ := h
  refine Machine.inv_of_run (I := fun d' ↦ d'.state = d.state ∧ d'.Over)
    (fun {s e t} hI hs ↦ ?_) hes ⟨rfl, hover⟩
  obtain ⟨hstate, hover'⟩ := hI.2.step (hI.1 ▸ hfinal) hs
  exact ⟨hstate.trans hI.1, hover'⟩

end Driver

namespace Orchestrator

variable {registry : _Registry} {record : AuthorizationRecord} {settings : Settings}
variable [u : UnicodeTables] {o o' : Orchestrator}

omit u in
theorem leaving_of_over (h : (o.driver settings).Over) : ∀ m, o.main = some m → m.pc = .leaving := by
  intro m main
  have hpc : (o.driver settings).pc = m.pc.driver settings := by
    rw [driver, main]
    rfl
  rw [Driver.Over, hpc] at h
  exact h.elim MainPc.leaving_of_driver fun hended ↦ absurd hended MainPc.driver_ne_ended

end Orchestrator

section

attribute [local instance] asciiTables

end

end Sentrik
