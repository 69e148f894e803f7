import Sentrik.Orchestration.StepOrigins

/-!
# What the coverage report says was tested

Scoring reports a pair of an endpoint and a class as tested when one of its steps is done. A step is done
when its agent has returned without an error, and an agent does so as well when the brain skips, when a
hook vetoes, when the check does not apply, or when no response came to any of its requests.

`Honest` is the invariant that a report is backed by responses: every pair that is reported as tested,
every step that is done and every agent that has finished without an error has been answered. Only the
end of an agent can break it, and `AnsweredFinish` is what it takes there.
-/

namespace Sentrik

namespace Orchestrator

/-- A response has arrived during a call of a check of the class on the endpoint. -/
def Backed (o : Orchestrator) (endpoint_id : ℕ) (check_class : String) : Prop :=
  ∃ v ∈ o.answered, v.endpoint.id = endpoint_id ∧ v.check.check_class = check_class

instance (o : Orchestrator) (endpoint_id : ℕ) (check_class : String) :
    Decidable (o.Backed endpoint_id check_class) :=
  inferInstanceAs (Decidable (∃ v ∈ o.answered, _))

/-- **The report is honest**: what it says was tested was answered. -/
def HonestReport (o : Orchestrator) : Prop :=
  ∀ c ∈ o.coverage, c.tested = true → o.Backed c.endpoint_id c.check_class

instance (o : Orchestrator) : Decidable o.HonestReport :=
  inferInstanceAs (Decidable (∀ c ∈ o.coverage, _ → _))

/-- An agent that finishes without an error has been answered, in a call of a check of the class of its
step. -/
def AnsweredFinish (o : Orchestrator) : EngineEvent → Prop
  | .task i (.finish false) =>
    ∀ t ∈ o.tasks[i]?, o.Backed t.endpoint.id t.step.check_class
  | _ => True

instance (o : Orchestrator) (e : EngineEvent) : Decidable (o.AnsweredFinish e) := by
  unfold AnsweredFinish
  split <;> infer_instance

/-- **The invariant.** -/
structure Honest (o : Orchestrator) : Prop where
  report : o.HonestReport
  steps : ∀ s ∈ o.steps, s.status = .done → o.Backed s.endpoint_id s.check_class
  tasks : ∀ t ∈ o.tasks, t.state = .finished false → o.Backed t.step.endpoint_id t.step.check_class

/-! ### What leaves the evidence alone -/

/-- Nothing new is reported and no agent has finished without an error; answers may have arrived, and no
agent is forgotten. -/
structure SameEvidence (o o' : Orchestrator) : Prop where
  coverage : o'.coverage ⊆ o.coverage
  answered : o.answered ⊆ o'.answered
  kept : ∀ t ∈ o.tasks, ∃ t' ∈ o'.tasks, t'.step = t.step
  finished : ∀ t' ∈ o'.tasks, t'.state = .finished false →
    ∃ t ∈ o.tasks, t.state = .finished false ∧ t.step = t'.step

variable {registry : _Registry} {record : AuthorizationRecord} {settings : Settings}
variable {o o' o₁ : Orchestrator} {m m' : Main}

theorem SameEvidence.of_eq (coverage : o'.coverage = o.coverage) (answered : o'.answered = o.answered)
    (tasks : o'.tasks = o.tasks) : SameEvidence o o' where
  coverage := coverage ▸ List.Subset.refl _
  answered := answered ▸ List.Subset.refl _
  kept t ht := ⟨t, tasks ▸ ht, rfl⟩
  finished t ht h := ⟨t, tasks ▸ ht, h, rfl⟩

theorem SameEvidence.trans (h : SameEvidence o o₁) (h' : SameEvidence o₁ o') : SameEvidence o o' where
  coverage := List.Subset.trans h'.coverage h.coverage
  answered := List.Subset.trans h.answered h'.answered
  kept t ht := by
    obtain ⟨t₁, ht₁, hstep₁⟩ := h.kept t ht
    obtain ⟨t₂, ht₂, hstep₂⟩ := h'.kept t₁ ht₁
    exact ⟨t₂, ht₂, hstep₂.trans hstep₁⟩
  finished t ht hst := by
    obtain ⟨t₁, ht₁, hst₁, hstep₁⟩ := h'.finished t ht hst
    obtain ⟨t₂, ht₂, hst₂, hstep₂⟩ := h.finished t₁ ht₁ hst₁
    exact ⟨t₂, ht₂, hst₂, hstep₂.trans hstep₁⟩

/-- A task that is set keeps its step. -/
theorem kept_setTask {i : ℕ} {t t' : AgentTask} (task : o.tasks[i]? = some t) (step : t'.step = t.step) :
    ∀ t₁ ∈ o.tasks, ∃ t₂ ∈ (o.setTask i t').tasks, t₂.step = t₁.step := by
  intro t₁ ht₁
  obtain ⟨hi, hget⟩ := List.getElem?_eq_some_iff.1 task
  obtain ⟨k, hk, rfl⟩ := List.getElem_of_mem ht₁
  by_cases hik : i = k
  · subst hik
    exact ⟨t', List.mem_set hi _, by rw [step, hget]⟩
  · refine ⟨o.tasks[k], List.mem_iff_getElem.2 ⟨k, by simpa [setTask] using hk, ?_⟩, rfl⟩
    exact List.getElem_set_ne hik _

/-- Setting a task to a state other than its end, or leaving its state. -/
theorem sameEvidence_setTask {i : ℕ} {t t' : AgentTask} (task : o.tasks[i]? = some t)
    (step : t'.step = t.step) (h : t'.state = .finished false → t.state = .finished false) :
    SameEvidence o (o.setTask i t') where
  coverage := List.Subset.refl _
  answered := List.Subset.refl _
  kept := kept_setTask task step
  finished t₁ ht₁ hst := by
    rcases List.mem_or_eq_of_mem_set ht₁ with ht₁ | rfl
    · exact ⟨t₁, ht₁, hst, rfl⟩
    · exact ⟨t, List.mem_of_getElem? task, h hst, step.symm⟩

theorem agentsFor_pending {declaratives : List DeclarativeCheck} {client : ℕ} {steps : List PlanStep}
    {tasks : List AgentTask} (h : agentsFor registry o declaratives client steps = some tasks)
    {t : AgentTask} (ht : t ∈ tasks) : t.state = .pending := by
  induction steps generalizing tasks with
  | nil =>
    obtain rfl := Option.some.inj h
    cases ht
  | cons s rest ih =>
    rw [agentsFor] at h
    split at h
    next e tasks' hendpoint hrest =>
      split at h
      next hnone =>
        obtain rfl := Option.some.inj h
        exact ih hrest ht
      next check hcheck =>
        obtain rfl := Option.some.inj h
        rcases List.mem_cons.1 ht with rfl | ht
        · rfl
        · exact ih hrest ht
    next => cases h

/-- New agents have not finished. -/
theorem sameEvidence_spawn {declaratives : List DeclarativeCheck} {client : ℕ} {steps : List PlanStep}
    {tasks : List AgentTask} (agents : agentsFor registry o₁ declaratives client steps = some tasks)
    (o : Orchestrator) : SameEvidence o (o.spawn tasks) where
  coverage := List.Subset.refl _
  answered := List.Subset.refl _
  kept t ht := ⟨t, List.mem_append_left _ ht, rfl⟩
  finished t ht hst := by
    rcases List.mem_append.1 ht with ht | ht
    · exact ⟨t, ht, hst, rfl⟩
    · rw [agentsFor_pending agents ht] at hst
      cases hst

theorem sameEvidence_closeMain (o : Orchestrator) (m : Main) : SameEvidence o (o.closeMain m) := by
  rw [closeMain]
  cases m.client <;> exact .of_eq rfl rfl rfl

theorem sameEvidence_endPhase (o : Orchestrator) (m : Main) (n : Node) :
    SameEvidence o (endPhase settings o m n) := by
  rw [endPhase]
  split
  · exact (sameEvidence_closeMain o m).trans (.of_eq rfl rfl rfl)
  · exact .of_eq rfl rfl rfl

theorem sameEvidence_start_assessment (o : Orchestrator) :
    SameEvidence o (start_assessment settings o) := by
  rw [start_assessment]
  split <;> exact .of_eq rfl rfl rfl

theorem sameEvidence_resume_if_parked (o : Orchestrator) :
    SameEvidence o (_resume_if_parked settings o) := by
  rw [_resume_if_parked]
  split
  · exact .of_eq rfl rfl rfl
  · split
    · exact sameEvidence_start_assessment o
    · exact .of_eq rfl rfl rfl

theorem sameEvidence_start_approved_steps (o : Orchestrator) (step_ids : List ℕ) :
    SameEvidence o (o.start_approved_steps step_ids) := by
  rw [start_approved_steps]
  split <;> exact .of_eq rfl rfl rfl

theorem sameEvidence_addEndpoints (o : Orchestrator) (found : List Endpoint) :
    SameEvidence o (o.addEndpoints found).1 := by
  obtain ⟨endpoints, nextId, -, heq⟩ := addEndpoints_eq o found
  rw [heq]
  exact .of_eq rfl rfl rfl

theorem sameEvidence_enter (o : Orchestrator) (m : Main) (n : Node) (now : ℤ) :
    SameEvidence o (enter record settings o m n now) := by
  unfold enter
  dsimp only
  split
  · exact .of_eq rfl rfl rfl
  cases n with
  | authorize | discover | execute | validate =>
    dsimp only
    split <;> exact .of_eq rfl rfl rfl
  | plan | policy | score | report => exact .of_eq rfl rfl rfl

/-- Consuming a result leaves the agent finished. -/
theorem sameEvidence_consume {i : ℕ} {t : AgentTask} {error : Bool} (task : o.tasks[i]? = some t) :
    SameEvidence o (o.consume i t error) := by
  have hpersist : SameEvidence o (o._persist_agent_result t error) := .of_eq rfl rfl rfl
  have htask : (o._persist_agent_result t error).tasks[i]? = some t := task
  exact hpersist.trans (sameEvidence_setTask htask rfl id)

theorem sameEvidence_restart (o : Orchestrator) :
    SameEvidence o (resume_incomplete_assessments settings o.crash) := by
  have hcrash : SameEvidence o o.crash := by
    refine ⟨List.Subset.refl _, List.Subset.refl _, fun t ht ↦ ?_, fun t ht hst ↦ ?_⟩
    · exact ⟨_, List.mem_map.2 ⟨t, ht, rfl⟩, rfl⟩
    · obtain ⟨t₀, -, rfl⟩ := List.mem_map.1 ht
      cases hst
  rw [resume_incomplete_assessments]
  split
  · exact hcrash
  split
  · exact hcrash.trans (sameEvidence_start_assessment _)
  · refine (hcrash.trans ?_).trans (sameEvidence_start_assessment _)
    exact ⟨List.nil_subset _, List.Subset.refl _, fun t ht ↦ ⟨t, ht, rfl⟩,
      fun t ht hst ↦ ⟨t, ht, hst, rfl⟩⟩

/-- The steps of an agent, except its end without an error. -/
theorem sameEvidence_taskStep {i : ℕ} {t : AgentTask} {e : TaskEvent} (he : e ≠ .finish false)
    (task : o.tasks[i]? = some t) (h : taskStep settings o i t e = some o') : SameEvidence o o' := by
  have hset : ∀ state inFlight, state ≠ .finished false →
      SameEvidence o (o.setTask i { t with state, inFlight }) :=
    fun state inFlight hne ↦ sameEvidence_setTask task rfl fun h ↦ absurd h hne
  cases e with
  | begin noticed =>
    simp only [taskStep] at h
    split at h
    · rw [← Option.some.inj h]
      refine hset _ _ ?_
      split <;> exact fun h ↦ by cases h
    · cases h
  | act invoke =>
    simp only [taskStep] at h
    split at h
    next passes _ state =>
      split at h
      · rw [← Option.some.inj h]
        have hact := hset (.running (passes + 1) invoke) 0 (by simp)
        split
        · exact hact.trans (.of_eq rfl rfl rfl)
        · exact hact
      · cases h
    next => cases h
  | send =>
    simp only [taskStep] at h
    split at h
    next state =>
      split at h
      · rw [← Option.some.inj h]
        exact (hset t.state (t.inFlight + 1) (by simp [state])).trans (.of_eq rfl rfl rfl)
      · cases h
    next => cases h
  | receive =>
    simp only [taskStep] at h
    split at h
    next state =>
      split at h
      · cases h
      · rw [← Option.some.inj h]
        refine (hset t.state (t.inFlight - 1) (by simp [state])).trans ?_
        exact ⟨List.Subset.refl _, List.subset_append_left _ _, fun t ht ↦ ⟨t, ht, rfl⟩,
          fun t ht hst ↦ ⟨t, ht, hst, rfl⟩⟩
    next => cases h
  | finish error =>
    simp only [taskStep] at h
    split at h
    · rw [← Option.some.inj h]
      refine hset _ _ fun hfin ↦ he ?_
      rw [(TaskState.finished.inj hfin : error = false)]
    · cases h

theorem Backed.mono {endpoint_id : ℕ} {check_class : String} (h : o.Backed endpoint_id check_class)
    (answered : o.answered ⊆ o'.answered) : o'.Backed endpoint_id check_class := by
  obtain ⟨v, hv, hpair⟩ := h
  exact ⟨v, answered hv, hpair⟩

/-- Scoring reports as tested what is done. -/
theorem phase_score_backed (hH : o.Honest) {c : Coverage}
    (hc : c ∈ (_phase_score registry record o).coverage) (htested : c.tested = true) :
    o.Backed c.endpoint_id c.check_class := by
  rw [_phase_score] at hc
  split at hc
  · exact hH.report c hc htested
  · obtain ⟨e, -, hc⟩ := List.mem_flatMap.1 hc
    obtain ⟨cclass, -, rfl⟩ := List.mem_map.1 hc
    obtain ⟨s, hs, hpair⟩ := List.mem_map.1 (List.contains_iff_mem.1 htested)
    obtain ⟨hs, hstatus⟩ := List.mem_filter.1 hs
    obtain ⟨hendpoint, hclass⟩ := Prod.mk.inj hpair
    have hbacked := hH.steps s hs (by simpa using hstatus)
    rwa [hendpoint, hclass] at hbacked

variable [u : UnicodeTables]

theorem sameEvidence_freeze (o : Orchestrator) : SameEvidence o o.freeze := by
  rw [freeze_eq]
  exact .of_eq rfl rfl rfl

/-! ### The steps -/

/-- The steps of the run, except scoring. -/
theorem sameEvidence_mainStep {e : MainEvent} (he : e ≠ .scored)
    (h : mainStep registry record settings o m e = some o') : SameEvidence o o' := by
  cases e with
  | scored => exact absurd rfl he
  | enter now =>
    simp only [mainStep] at h
    split at h
    · exact Option.some.inj h ▸ sameEvidence_enter o m _ now
    · cases h
  | discovered found =>
    simp only [mainStep] at h
    split at h
    · rw [← Option.some.inj h]
      exact (sameEvidence_addEndpoints o found).trans (sameEvidence_endPhase _ _ _)
    · cases h
  | plan multi strategy order =>
    simp only [mainStep] at h
    split at h
    · rw [← Option.some.inj h]
      unfold _phase_planning
      exact (sameEvidence_freeze o).trans (.of_eq rfl rfl rfl)
    · cases h
  | policy =>
    simp only [mainStep] at h
    split at h
    · rw [← Option.some.inj h]
      have hjudged : SameEvidence o (judgeAll registry record settings o (underReview settings o m)) :=
        (.of_eq rfl rfl rfl)
      refine (hjudged.trans (sameEvidence_freeze _)).trans ?_
      unfold _phase_policy
      dsimp only
      split_ifs <;> exact .of_eq rfl rfl rfl
    · cases h
  | poll expired =>
    simp only [mainStep] at h
    split at h
    · rw [← Option.some.inj h]
      unfold _await_step_approvals
      dsimp only
      split <;> exact .of_eq rfl rfl rfl
    · cases h
  | coordinate elects_stop =>
    simp only [mainStep] at h
    split at h
    · rw [← Option.some.inj h]
      unfold coordinate
      dsimp only
      split
      · exact sameEvidence_endPhase _ _ _
      · exact .of_eq rfl rfl rfl
    · cases h
  | send =>
    simp only [mainStep] at h
    split at h
    · exact Option.some.inj h ▸ .of_eq rfl rfl rfl
    · cases h
  | dispatch =>
    simp only [mainStep] at h
    split at h
    next steps pc =>
      obtain ⟨tasks, agents, rfl⟩ := Option.map_eq_some_iff.1 h
      exact ((sameEvidence_freeze o).trans (sameEvidence_spawn agents _)).trans (.of_eq rfl rfl rfl)
    next => cases h
  | deliver i noticed =>
    simp only [mainStep] at h
    split at h
    next pool errored pc =>
      obtain ⟨⟨t, error⟩, result, rfl⟩ := Option.map_eq_some_iff.1 h
      dsimp only
      split
      · refine SameEvidence.trans ?_ (sameEvidence_endPhase _ _ _)
        cases m.client <;> exact .of_eq rfl rfl rfl
      · exact (sameEvidence_consume (resultOf_eq_some result).1).trans (.of_eq rfl rfl rfl)
    next iteration pool pc =>
      obtain ⟨⟨t, error⟩, result, rfl⟩ := Option.map_eq_some_iff.1 h
      dsimp only
      split
      · exact .of_eq rfl rfl rfl
      · exact sameEvidence_consume (resultOf_eq_some result).1
    next => cases h
  | drained =>
    simp only [mainStep] at h
    split at h
    · split at h
      · exact Option.some.inj h ▸ .of_eq rfl rfl rfl
      · cases h
    · split at h
      · exact Option.some.inj h ▸ .of_eq rfl rfl rfl
      · cases h
    · cases h
  | retry noticed =>
    simp only [mainStep] at h
    split at h
    next attempt queue errored pc =>
      rw [retry.eq_def] at h
      split at h
      next i rest =>
        obtain ⟨t, task, rfl⟩ := Option.map_eq_some_iff.1 h
        have hset : SameEvidence o (o.setTask i { t with state := .running 0 false }) :=
          sameEvidence_setTask task rfl fun h ↦ by cases h
        exact hset.trans (.of_eq rfl rfl rfl)
      · split at h
        · exact Option.some.inj h ▸ .of_eq rfl rfl rfl
        · exact Option.some.inj h ▸ .of_eq rfl rfl rfl
    next => cases h
  | retried =>
    simp only [mainStep] at h
    split at h
    next attempt i queue errored pc =>
      rw [retried] at h
      split at h
      next t task =>
        split at h
        · exact Option.some.inj h ▸ .of_eq rfl rfl rfl
        · cases h
      next => cases h
    next => cases h
  | replan answer =>
    simp only [mainStep] at h
    split at h
    next iteration pc =>
      rw [_maybe_replan] at h
      split at h
      · cases h
      split at h
      · exact Option.some.inj h ▸ sameEvidence_endPhase _ _ _
      · obtain ⟨tasks, agents, rfl⟩ := Option.map_eq_some_iff.1 h
        have hadd : SameEvidence o (o.addSteps (gapRows registry record settings o m answer.classes)) :=
          (.of_eq rfl rfl rfl)
        exact (hadd.trans (sameEvidence_spawn agents _)).trans (.of_eq rfl rfl rfl)
    next => cases h
  | validated =>
    simp only [mainStep] at h
    split at h
    · exact Option.some.inj h ▸ sameEvidence_endPhase _ _ _
    · cases h
  | reported =>
    simp only [mainStep] at h
    split at h
    · exact Option.some.inj h ▸ .of_eq rfl rfl rfl
    · cases h
  | raise error =>
    simp only [mainStep] at h
    split at h
    · cases h
    · rw [← Option.some.inj h, raise]
      split
      · exact (sameEvidence_closeMain o m).trans (.of_eq rfl rfl rfl)
      · exact .of_eq rfl rfl rfl
  | cancelled =>
    simp only [mainStep] at h
    split at h
    · exact Option.some.inj h ▸ .of_eq rfl rfl rfl
    · cases h
  | leave =>
    simp only [mainStep] at h
    split at h
    · exact Option.some.inj h ▸ (sameEvidence_closeMain o m).trans (.of_eq rfl rfl rfl)
    · cases h

/-- The steps of an execution, except scoring. -/
theorem sameEvidence_executionStep {j : ℕ} {x : Execution} {e : ExecutionEvent} (he : e ≠ .scored)
    (h : executionStep registry record settings o j x e = some o') : SameEvidence o o' := by
  cases e with
  | scored => exact absurd rfl he
  | begin now =>
    simp only [executionStep] at h
    split at h
    · rw [← Option.some.inj h]
      unfold execute_approved_steps
      dsimp only
      split_ifs <;> exact .of_eq rfl rfl rfl
    · cases h
  | dispatch =>
    simp only [executionStep] at h
    split at h
    next steps pc =>
      obtain ⟨tasks, agents, rfl⟩ := Option.map_eq_some_iff.1 h
      exact ((sameEvidence_freeze o).trans (sameEvidence_spawn agents _)).trans (.of_eq rfl rfl rfl)
    next => cases h
  | deliver i noticed =>
    simp only [executionStep] at h
    split at h
    next pool pc =>
      obtain ⟨⟨t, error⟩, result, rfl⟩ := Option.map_eq_some_iff.1 h
      dsimp only
      split
      · exact .of_eq rfl rfl rfl
      · exact sameEvidence_consume (resultOf_eq_some result).1
    next => cases h
  | drained =>
    simp only [executionStep] at h
    split at h
    · split at h
      · exact Option.some.inj h ▸ .of_eq rfl rfl rfl
      · cases h
    · cases h
  | send | validated =>
    simp only [executionStep] at h
    split at h
    · exact Option.some.inj h ▸ .of_eq rfl rfl rfl
    · cases h
  | raise =>
    simp only [executionStep] at h
    split at h
    · cases h
    · exact Option.some.inj h ▸ .of_eq rfl rfl rfl

/-- **The inversion on evidence**: besides scoring and the end of an agent, nothing adds to the report or
to what has finished. -/
theorem sameEvidence_of_step {e : EngineEvent} (hmain : e ≠ .main .scored)
    (hexecution : ∀ j, e ≠ .execution j .scored) (htask : ∀ i, e ≠ .task i (.finish false))
    (h : step registry record settings o e = some o') : SameEvidence o o' := by
  cases e with
  | main e =>
    obtain ⟨m, -, h⟩ := Option.bind_eq_some_iff.1 h
    exact sameEvidence_mainStep (fun he ↦ hmain (he ▸ rfl)) h
  | execution j e =>
    obtain ⟨x, -, h⟩ := Option.bind_eq_some_iff.1 h
    exact sameEvidence_executionStep (fun he ↦ hexecution j (he ▸ rfl)) h
  | task i e =>
    obtain ⟨t, task, h⟩ := Option.bind_eq_some_iff.1 h
    exact sameEvidence_taskStep (fun he ↦ htask i (he ▸ rfl)) task h
  | start reset =>
    rw [← Option.some.inj h, start]
    split
    · refine SameEvidence.trans ?_ (sameEvidence_start_assessment _)
      cases reset <;> exact .of_eq rfl rfl rfl
    · exact .of_eq rfl rfl rfl
  | cancel =>
    rw [← Option.some.inj h, cancel]
    dsimp only
    split_ifs <;> exact .of_eq rfl rfl rfl
  | cancel_all =>
    rw [← Option.some.inj h, cancel_all]
    split <;> exact .of_eq rfl rfl rfl
  | approve step_id user_id note =>
    rw [← Option.some.inj h, approve_step]
    dsimp only
    split
    · split
      · refine SameEvidence.trans ?_ (sameEvidence_start_approved_steps _ _)
        exact .of_eq rfl rfl rfl
      · refine SameEvidence.trans ?_ (sameEvidence_resume_if_parked _)
        exact .of_eq rfl rfl rfl
    · exact .of_eq rfl rfl rfl
  | deny step_id user_id note =>
    rw [← Option.some.inj h, deny_step]
    dsimp only
    split
    · refine SameEvidence.trans ?_ (sameEvidence_resume_if_parked _)
      exact .of_eq rfl rfl rfl
    · exact .of_eq rfl rfl rfl
  | triage => exact Option.some.inj h ▸ .of_eq rfl rfl rfl
  | ingest found => exact Option.some.inj h ▸ sameEvidence_addEndpoints o found
  | register skills => exact Option.some.inj h ▸ .of_eq rfl rfl rfl
  | restart => exact Option.some.inj h ▸ sameEvidence_restart o

/-- **No agent is forgotten.** -/
theorem kept_of_step {e : EngineEvent} (h : step registry record settings o e = some o') :
    ∀ t ∈ o.tasks, ∃ t' ∈ o'.tasks, t'.step = t.step := by
  by_cases hmain : e = .main .scored
  · subst hmain
    obtain ⟨m, -, h⟩ := Option.bind_eq_some_iff.1 h
    simp only [mainStep] at h
    split at h
    · rw [← Option.some.inj h]
      obtain ⟨coverage, heq⟩ := _phase_score_eq registry record o
      rw [heq]
      exact fun t ht ↦ ⟨t, ht, rfl⟩
    · cases h
  by_cases hexecution : ∃ j, e = .execution j .scored
  · obtain ⟨j, rfl⟩ := hexecution
    obtain ⟨x, -, h⟩ := Option.bind_eq_some_iff.1 h
    simp only [executionStep] at h
    split at h
    · rw [← Option.some.inj h]
      obtain ⟨coverage, heq⟩ := _phase_score_eq registry record o
      rw [heq]
      exact fun t ht ↦ ⟨t, ht, rfl⟩
    · cases h
  by_cases htask : ∃ i, e = .task i (.finish false)
  · obtain ⟨i, rfl⟩ := htask
    obtain ⟨t, task, h⟩ := Option.bind_eq_some_iff.1 h
    simp only [taskStep] at h
    split at h
    · rw [← Option.some.inj h]
      exact kept_setTask task rfl
    · cases h
  · exact (sameEvidence_of_step hmain (fun j hj ↦ hexecution ⟨j, hj⟩) (fun i hi ↦ htask ⟨i, hi⟩) h).kept

/-! ### The invariant -/

/-- A verdict of policy is not an end. -/
theorem judge_not_done (guard : ScopeGuard) (declaratives : List DeclarativeCheck) (s : PlanStep) :
    (judge registry guard settings declaratives s).status ≠ .done := by
  intro h
  have hverdict := verdict_judge registry guard settings declaratives s
  rw [h] at hverdict
  cases hverdict

/-- A step that is done was done, or an agent for it has finished without an error. -/
theorem Origin.backed {e : EngineEvent} {s : PlanStep} (h : Origin registry record settings o e s)
    (hH : o.Honest) (hK : o.Keyed) (hdone : s.status = .done) :
    o.Backed s.endpoint_id s.check_class := by
  cases h with
  | kept mem => exact hH.steps s mem hdone
  | planned main pc fresh status => rw [status] at hdone; cases hdone
  | gap fresh status => rw [status] at hdone; cases hdone
  | judged policy mem main pc review => exact absurd hdone (judge_not_done _ _ _)
  | @settled r t error mem task state id =>
    cases error with
    | true => cases hdone
    | false =>
      -- the agent has a copy of the step, and so its endpoint and its class
      have hkey := (hK t.step (mem_holders.2 (Or.inr ⟨t, task, rfl⟩))).2 r mem id
      rw [PlanStep.key, PlanStep.key] at hkey
      obtain ⟨hendpoint, hclass, -⟩ : r.endpoint_id = t.step.endpoint_id ∧
          r.check_class = t.step.check_class ∧ r.check_name = t.step.check_name := by
        simpa using hkey
      have hbacked := hH.tasks t task state
      rwa [← hendpoint, ← hclass] at hbacked
  | skipped mem => cases hdone
  | approved mem operator held => cases hdone
  | denied mem operator held => cases hdone

/-- What one step does to the report and to the agents that have finished. -/
theorem Honest.evidence {e : EngineEvent} (hH : o.Honest)
    (hI : Inv registry record settings bookkeeping o) (hfinish : o.AnsweredFinish e)
    (h : step registry record settings o e = some o') :
    (∀ c ∈ o'.coverage, c.tested = true → o.Backed c.endpoint_id c.check_class) ∧
      o.answered ⊆ o'.answered ∧
      ∀ t ∈ o'.tasks, t.state = .finished false → o.Backed t.step.endpoint_id t.step.check_class := by
  have hsame : SameEvidence o o' → _ := fun hsame ↦
    And.intro (fun c hc ht ↦ hH.report c (hsame.coverage hc) ht) <| And.intro hsame.answered
      fun t ht hst ↦ by
        obtain ⟨t₀, ht₀, hst₀, hstep⟩ := hsame.finished t ht hst
        exact hstep ▸ hH.tasks t₀ ht₀ hst₀
  by_cases hmain : e = .main .scored
  · subst hmain
    obtain ⟨m, -, h⟩ := Option.bind_eq_some_iff.1 h
    simp only [mainStep] at h
    split at h
    · rw [← Option.some.inj h]
      obtain ⟨coverage, heq⟩ := _phase_score_eq registry record o
      refine ⟨fun c hc ht ↦ phase_score_backed hH hc ht, ?_, ?_⟩
      · rw [heq]
        exact List.Subset.refl _
      · rw [heq]
        exact hH.tasks
    · cases h
  by_cases hexecution : ∃ j, e = .execution j .scored
  · obtain ⟨j, rfl⟩ := hexecution
    obtain ⟨x, -, h⟩ := Option.bind_eq_some_iff.1 h
    simp only [executionStep] at h
    split at h
    · rw [← Option.some.inj h]
      obtain ⟨coverage, heq⟩ := _phase_score_eq registry record o
      refine ⟨fun c hc ht ↦ phase_score_backed hH hc ht, ?_, ?_⟩
      · rw [heq]
        exact List.Subset.refl _
      · rw [heq]
        exact hH.tasks
    · cases h
  by_cases htask : ∃ i, e = .task i (.finish false)
  · obtain ⟨i, rfl⟩ := htask
    obtain ⟨t, task, h⟩ := Option.bind_eq_some_iff.1 h
    simp only [taskStep] at h
    split at h
    · rw [← Option.some.inj h]
      refine ⟨hH.report, List.Subset.refl _, fun t' ht' hst ↦ ?_⟩
      rcases List.mem_or_eq_of_mem_set ht' with ht' | rfl
      · exact hH.tasks t' ht' hst
      · -- the agent that ends now
        have hbacked := hfinish t task
        rwa [(hI.tasks t (List.mem_of_getElem? task)).2.2] at hbacked
    · cases h
  · exact hsame (sameEvidence_of_step hmain (fun j hj ↦ hexecution ⟨j, hj⟩)
      (fun i hi ↦ htask ⟨i, hi⟩) h)

/-- **One step** keeps the report honest, if an agent that finishes without an error was answered. -/
theorem Honest.step {e : EngineEvent} (hH : o.Honest)
    (hI : Inv registry record settings bookkeeping o) (hK : o.Keyed) (hfinish : o.AnsweredFinish e)
    (h : step registry record settings o e = some o') : o'.Honest := by
  obtain ⟨hreport, hanswered, htasks⟩ := hH.evidence hI hfinish h
  exact ⟨fun c hc ht ↦ (hreport c hc ht).mono hanswered,
    fun s hs hdone ↦ ((origin_of_step h hs).backed hH hK hdone).mono hanswered,
    fun t ht hst ↦ (htasks t ht hst).mono hanswered⟩

/-- **The report is honest** in every run in which agents finish without an error only when they were
answered. -/
theorem report_of_answered {org_id : ℕ} {requested : List String} {incremental : Bool}
    {prev : Option (List Text)} {es : List EngineEvent}
    (h : Machine.run (Orchestrator.step registry record settings)
      (created org_id requested incremental prev) es = some o)
    (hes : Machine.Along (Orchestrator.step registry record settings) AnsweredFinish
      (created org_id requested incremental prev) es) : o.HonestReport := by
  have hstart : (created org_id requested incremental prev).Honest :=
    ⟨fun c hc ↦ absurd hc List.not_mem_nil, fun s hs ↦ absurd hs List.not_mem_nil,
      fun t ht ↦ absurd ht List.not_mem_nil⟩
  refine (Machine.inv_of_run_along (I := fun o ↦ Inv registry record settings bookkeeping o ∧ o.Keyed ∧
    o.Honest) (fun ⟨hI, hK, hH⟩ hC hs ↦ ?_) hes h
    ⟨Inv.created .., fun r hr ↦ absurd hr List.not_mem_nil, hstart⟩).2.2.report
  have hI' := hI.step (respects_bookkeeping _ _) hs
  exact ⟨hI', hK.move hI' (move_of_step hs), hH.step hI hK hC hs⟩

end Orchestrator

/-! ### Sample runs -/

/-- An agent whose check gets a response. -/
def answerAgent (i : ℕ) : List EngineEvent :=
  [.task i (.begin false), .task i (.act true), .task i .send, .task i .receive,
    .task i (.finish false)]

/-- An inline run over one endpoint, to its end, in which the only agent does what is given. -/
def runAround (agent : List EngineEvent) : List EngineEvent :=
  throughPolicy [sampleEndpoint] ++ throughDispatch ++ agent ++ throughReplan ["security_headers"] ++
    throughReport

section

attribute [local instance] asciiTables

open Orchestrator in
/-- The pair of the only agent is reported as tested when its check was answered. -/
theorem report_of_answered_run : ∃ o,
    Machine.run (step builtinRegistry (scanRecord ["security_headers"]) {}) (created 1 [] false none)
        (runAround (answerAgent 0)) = some o ∧
      (o.coverage.map (·.tested) = [true] ∧ o.assessment.state = .COMPLETED) ∧ o.HonestReport := by
  obtain ⟨o, ho, hend⟩ : ∃ o, Machine.run (step builtinRegistry (scanRecord ["security_headers"]) {})
      (created 1 [] false none) (runAround (answerAgent 0)) = some o ∧
      o.coverage.map (·.tested) = [true] ∧ o.assessment.state = .COMPLETED := by
    decide +kernel
  exact ⟨o, ho, hend, report_of_answered ho (by decide +kernel)⟩

open Orchestrator in
/-- The pair is reported as tested as well when the brain skips, and when no request of the check was
answered. -/
theorem skippedRun_not_honest :
    (∃ o, Machine.run (step builtinRegistry (scanRecord ["security_headers"]) {})
        (created 1 [] false none)
        (runAround [.task 0 (.begin false), .task 0 (.finish false)]) = some o ∧
      (o.assessment.state = .COMPLETED ∧ o.invocations = [] ∧ ¬o.HonestReport)) ∧
    ∃ o, Machine.run (step builtinRegistry (scanRecord ["security_headers"]) {})
        (created 1 [] false none) (runAround (runAgent 0)) = some o ∧
      (o.assessment.state = .COMPLETED ∧ o.answered = [] ∧ ¬o.HonestReport) := by
  constructor <;> decide +kernel

end

end Sentrik
