import Sentrik.Orchestration.Moves

/-!
# Silence after cancellation

`CANCELLED` is written by the task of the run once it has seen the flag, or by the handler when there
is no such task. Neither looks at who else may send: agents that the loop over their pool left behind
go on while their client is open, and the approve endpoint starts executions for a cancelled
assessment as for a completed one.

`KeepsSilence` excludes these two. `Silent` is the invariant: the state is written and nobody is left
who can send.
-/

namespace Sentrik

/-- Whether an execution of approved steps has passed its tests and may still send. -/
def ExecutionPc.active : ExecutionPc → Bool
  | .loggingIn _ | .streaming _ | .validating => true
  | .queued | .scoring | .finished => false

namespace Orchestrator

/-- Whether a task may still send: it runs on an open client, or it waits for its slot there and is
not going to be told to stop. -/
def canSend (o : Orchestrator) (t : AgentTask) : Bool :=
  o.isOpen t.client && match t.state with
    | .pending => !o.isCancelled t.client
    | .running .. => true
    | .finished _ => false

/-- Apart from the task of the run, nobody is at a place from which requests are sent. -/
structure Quiet (o : Orchestrator) : Prop where
  executions : ∀ x ∈ o.executions, x.pc.active = false
  tasks : ∀ t ∈ o.tasks, o.canSend t = false

instance (o : Orchestrator) : Decidable o.Quiet :=
  decidable_of_iff ((∀ x ∈ o.executions, x.pc.active = false) ∧ ∀ t ∈ o.tasks, o.canSend t = false)
    ⟨fun h ↦ ⟨h.1, h.2⟩, fun h ↦ ⟨h.executions, h.tasks⟩⟩

/-- **The invariant.** -/
structure Silent (o : Orchestrator) : Prop extends Quiet o where
  state : o.assessment.state = .CANCELLED
  main : ∀ m ∈ o.main, m.pc = .leaving

/-- The steps an execution keeps when it begins. -/
def approvedOf (o : Orchestrator) (x : Execution) : List PlanStep :=
  (o._reload_steps x.step_ids).filter (·.status == .approved)

/-- Whether an execution begins and passes its tests: a step of it is approved, and the record is
active. -/
def starts (record : AuthorizationRecord) (settings : Settings) (o : Orchestrator) :
    EngineEvent → Bool
  | .execution j (.begin now) =>
    o.executions[j]?.any fun x ↦ x.pc == .queued && !(o.approvedOf x).isEmpty &&
      ((_make_guard record settings).check_record_active now).allowed
  | _ => false

/-- `CANCELLED` is written when nobody is left who can send, and no execution starts after that. -/
def KeepsSilence (record : AuthorizationRecord) (settings : Settings) (o : Orchestrator)
    (e : EngineEvent) : Prop :=
  (o.cancels e = true → o.Quiet) ∧
    (o.assessment.state = .CANCELLED → starts record settings o e = false)

instance (record : AuthorizationRecord) (settings : Settings) (o : Orchestrator) (e : EngineEvent) :
    Decidable (KeepsSilence record settings o e) :=
  inferInstanceAs (Decidable (_ ∧ _))

variable {registry : _Registry} {record : AuthorizationRecord} {settings : Settings}
variable {o o' : Orchestrator} {m : Main}

/-! ### Who can send -/

theorem isOpen_of_close {k j : ℕ} (h : (o.close k).isOpen j = true) : o.isOpen j = true := by
  rw [isOpen, close, List.getElem?_modify] at h
  rw [isOpen]
  cases hc : o.connections[j]? with
  | none =>
    rw [hc] at h
    cases h
  | some c =>
    rw [hc] at h
    by_cases hk : k = j
    · simp [hk] at h
    · simpa [hk] using h

theorem isCancelled_close (o : Orchestrator) (k j : ℕ) :
    (o.close k).isCancelled j = o.isCancelled j := by
  rw [isCancelled, isCancelled, close, List.getElem?_modify]
  cases o.connections[j]? with
  | none => rfl
  | some c =>
    by_cases hk : k = j
    · simp [hk]
    · simp [hk]

theorem canSend_of_close {k : ℕ} {t : AgentTask} (h : (o.close k).canSend t = true) :
    o.canSend t = true := by
  rw [canSend, Bool.and_eq_true, isCancelled_close] at h
  rw [canSend, Bool.and_eq_true]
  exact ⟨isOpen_of_close h.1, h.2⟩

theorem canSend_of_closeMain {t : AgentTask} (h : (o.closeMain m).canSend t = true) :
    o.canSend t = true := by
  rw [closeMain] at h
  cases hclient : m.client with
  | none =>
    rw [hclient] at h
    exact h
  | some k =>
    rw [hclient] at h
    exact canSend_of_close h

/-- It stays quiet when executions are new or idle and tasks gain nothing. -/
theorem Quiet.mono (hq : o.Quiet)
    (executions : ∀ x ∈ o'.executions, x ∈ o.executions ∨ x.pc.active = false)
    (tasks : ∀ t ∈ o'.tasks, o'.canSend t = true → ∃ t₀ ∈ o.tasks, o.canSend t₀ = true) :
    o'.Quiet where
  executions x hx := (executions x hx).elim (hq.executions x) id
  tasks t ht := by
    by_contra h
    obtain ⟨t₀, ht₀, h₀⟩ := tasks t ht (by simpa using h)
    rw [hq.tasks t₀ ht₀] at h₀
    cases h₀

theorem Quiet.set_execution (hq : o.Quiet) {j : ℕ} {x : Execution} (hx : x.pc.active = false)
    (executions : o'.executions = o.executions.set j x) (tasks : o'.tasks = o.tasks)
    (sends : ∀ t, o'.canSend t = true → o.canSend t = true) : o'.Quiet := by
  refine hq.mono (fun y hy ↦ ?_) fun t ht h ↦ ⟨t, tasks ▸ ht, sends t h⟩
  rw [executions] at hy
  rcases List.mem_or_eq_of_mem_set hy with hy | rfl
  · exact Or.inl hy
  · exact Or.inr hx

theorem Quiet.setTask (hq : o.Quiet) {i : ℕ} {t t' : AgentTask} (ht : o.tasks[i]? = some t)
    (hsend : o.canSend t' = true → o.canSend t = true) : (o.setTask i t').Quiet := by
  refine hq.mono (fun x hx ↦ Or.inl hx) fun t₁ ht₁ h ↦ ?_
  rcases List.mem_or_eq_of_mem_set ht₁ with hmem | rfl
  · exact ⟨t₁, hmem, h⟩
  · exact ⟨t, List.mem_of_getElem? ht, hsend h⟩

/-! ### Silence is kept -/

/-- Silence is read from these fields. -/
theorem Silent.congr (hS : o.Silent)
    (state : o'.assessment.state = o.assessment.state := by rfl) (main : o'.main = o.main := by rfl)
    (executions : o'.executions = o.executions := by rfl) (tasks : o'.tasks = o.tasks := by rfl)
    (connections : o'.connections = o.connections := by rfl) : o'.Silent := by
  have hsend : ∀ t, o'.canSend t = o.canSend t := fun t ↦ by
    rw [canSend, canSend, isOpen, isOpen, isCancelled, isCancelled, connections]
  refine ⟨⟨executions ▸ hS.executions, fun t ht ↦ ?_⟩, state.trans hS.state, main ▸ hS.main⟩
  rw [hsend]
  exact hS.tasks t (tasks ▸ ht)

theorem closeMain_same (o : Orchestrator) (m : Main) :
    (o.closeMain m).assessment = o.assessment ∧ (o.closeMain m).sent = o.sent ∧
      (o.closeMain m).tasks = o.tasks := by
  rw [closeMain]
  cases m.client <;> exact ⟨rfl, rfl, rfl⟩

/-- An agent that cannot send gets no further than its end. -/
theorem Silent.taskStep (hS : o.Silent) {i : ℕ} {t : AgentTask} {e : TaskEvent}
    (task : o.tasks[i]? = some t) (h : taskStep settings o i t e = some o') :
    o'.Silent ∧ o'.sent = o.sent := by
  have hcannot := hS.tasks t (List.mem_of_getElem? task)
  have hset : ∀ t', (o.canSend t' = true → o.canSend t = true) → (o.setTask i t').Silent :=
    fun t' hsend ↦ ⟨hS.toQuiet.setTask task hsend, hS.state, hS.main⟩
  cases e with
  | begin noticed =>
    simp only [Orchestrator.taskStep] at h
    split at h
    next hbegin =>
      rw [← Option.some.inj h]
      refine ⟨hset _ fun hsend ↦ ?_, rfl⟩
      rw [canSend, hbegin.1]
      by_cases hstop : o.isCancelled t.client = true ∨ noticed = true
      · simp [canSend, hstop] at hsend
      · simpa [canSend, hstop, not_or.1 hstop] using hsend
    next => cases h
  | act invoke =>
    simp only [Orchestrator.taskStep] at h
    split at h
    next passes probing state =>
      have hsend : o.canSend { t with state := .running (passes + 1) invoke, inFlight := 0 } = true →
          o.canSend t = true := fun hsend ↦ by simpa [canSend, state] using hsend
      split at h
      · rw [← Option.some.inj h]
        cases invoke with
        | true => exact ⟨(hset _ hsend).congr, rfl⟩
        | false => exact ⟨hset _ hsend, rfl⟩
      · cases h
    next => cases h
  | send =>
    simp only [Orchestrator.taskStep] at h
    split at h
    next passes state =>
      split at h
      next hopen => simp [canSend, state, hopen] at hcannot
      next => cases h
    next => cases h
  | receive =>
    -- an answer may still come in, but it sends nothing
    simp only [Orchestrator.taskStep] at h
    split at h
    next passes state =>
      have hsend : o.canSend { t with inFlight := t.inFlight - 1 } = true → o.canSend t = true := id
      split at h
      · cases h
      · exact Option.some.inj h ▸ ⟨(hset _ hsend).congr, rfl⟩
    next => cases h
  | finish error =>
    simp only [Orchestrator.taskStep] at h
    split at h
    · rw [← Option.some.inj h]
      exact ⟨hset _ fun hsend ↦ by simp [canSend] at hsend, rfl⟩
    · cases h

/-- An execution that is launched has not started. -/
theorem Silent.start_approved_steps (hS : o.Silent) (step_ids : List ℕ) :
    (o.start_approved_steps step_ids).Silent ∧ (o.start_approved_steps step_ids).sent = o.sent := by
  rw [Orchestrator.start_approved_steps]
  split
  · exact ⟨hS, rfl⟩
  · refine ⟨⟨⟨fun x hx ↦ ?_, hS.tasks⟩, hS.state, hS.main⟩, rfl⟩
    rcases List.mem_append.1 hx with hx | hx
    · exact hS.executions x hx
    · rw [List.mem_singleton.1 hx]
      rfl

theorem Silent.resume_if_parked (hS : o.Silent) :
    (_resume_if_parked settings o).Silent ∧ (_resume_if_parked settings o).sent = o.sent := by
  have hparked : o.assessment.state ≠ .POLICY_CHECK := fun h ↦ by cases hS.state.symm.trans h
  rw [_resume_if_parked, if_pos (Or.inr hparked)]
  exact ⟨hS, rfl⟩

/-- The process dies, and a cancelled assessment is not taken up again. -/
theorem Silent.restart (hS : o.Silent) :
    (resume_incomplete_assessments settings o.crash).Silent ∧
      (resume_incomplete_assessments settings o.crash).sent = o.sent := by
  have hterminal : o.crash.assessment.state ∈ TERMINAL_STATES := by
    rw [crash, hS.state]
    decide
  rw [resume_incomplete_assessments, if_pos (Or.inl hterminal)]
  refine ⟨⟨⟨fun x hx ↦ absurd hx List.not_mem_nil, fun t ht ↦ ?_⟩, hS.state, fun m hm ↦ by cases hm⟩,
    rfl⟩
  obtain ⟨t, -, rfl⟩ := List.mem_map.1 ht
  simp [canSend]

variable [u : UnicodeTables]

/-- The task of the run can only leave. -/
theorem Silent.mainStep (hS : o.Silent) (main : o.main = some m) {e : MainEvent}
    (h : mainStep registry record settings o m e = some o') : o'.Silent ∧ o'.sent = o.sent := by
  have pc := hS.main m main
  cases e with
  | leave =>
    simp only [Orchestrator.mainStep, pc, ↓reduceIte, Option.some.injEq] at h
    obtain ⟨hassessment, hsent, htasks⟩ := closeMain_same o m
    subst h
    refine ⟨⟨hS.mono (fun x hx ↦ Or.inl ?_) fun t ht hsend ↦ ⟨t, ?_, canSend_of_closeMain hsend⟩,
      ?_, fun _ hm ↦ by cases hm⟩, hsent⟩
    · rwa [← closeMain_executions o m]
    · rwa [← htasks]
    · rw [← hS.state, ← hassessment]
      rfl
  | _ => simp [Orchestrator.mainStep, pc, MainPc.sends] at h

/-- An execution that has not started does not start, and one that scores finishes. -/
theorem Silent.executionStep (hS : o.Silent) {j : ℕ} {x : Execution} {e : ExecutionEvent}
    (execution : o.executions[j]? = some x)
    (hstarts : starts record settings o (.execution j e) = false)
    (h : executionStep registry record settings o j x e = some o') :
    o'.Silent ∧ o'.sent = o.sent := by
  have hset : ∀ (o' : Orchestrator) (pc : ExecutionPc), pc.active = false →
      o'.executions = o.executions.set j { x with pc } → o'.tasks = o.tasks →
      (∀ t, o'.canSend t = true → o.canSend t = true) →
      o'.assessment.state = o.assessment.state → o'.main = o.main → o'.Silent :=
    fun o' pc hpc hexec htasks hsend hstate hmain ↦
      ⟨hS.toQuiet.set_execution hpc hexec htasks hsend, hstate.trans hS.state, hmain ▸ hS.main⟩
  have hidle := hS.executions x (List.mem_of_getElem? execution)
  cases e with
  | begin now =>
    simp only [Orchestrator.executionStep] at h
    split at h
    next pc =>
      rw [← Option.some.inj h]
      unfold execute_approved_steps
      dsimp only
      split
      · exact ⟨hset _ .finished rfl rfl rfl (fun _ h ↦ h) rfl rfl, rfl⟩
      split
      · exact ⟨hset _ .finished rfl rfl rfl (fun _ h ↦ h) rfl rfl, rfl⟩
      next hsteps hactive =>
        simp [starts, execution, pc, approvedOf, hsteps, not_not.1 hactive] at hstarts
    next => cases h
  | scored =>
    simp only [Orchestrator.executionStep] at h
    split at h
    · obtain ⟨coverage, heq⟩ := _phase_score_eq registry record o
      rw [← Option.some.inj h, heq]
      exact ⟨hset _ .finished rfl rfl rfl (fun _ h ↦ h) rfl rfl, rfl⟩
    · cases h
  | raise =>
    simp only [Orchestrator.executionStep] at h
    split at h
    · cases h
    · rw [← Option.some.inj h]
      exact ⟨hset _ .finished rfl rfl rfl (fun _ h ↦ canSend_of_close h) rfl rfl, rfl⟩
  | _ =>
    cases hpc : x.pc <;> simp [Orchestrator.executionStep, hpc, ExecutionPc.sends,
      ExecutionPc.active] at h hidle

/-- **A step that starts no execution keeps the silence**, and sends nothing. -/
theorem Silent.step (hS : o.Silent) {e : EngineEvent} (hstarts : starts record settings o e = false)
    (h : step registry record settings o e = some o') : o'.Silent ∧ o'.sent = o.sent := by
  have hterminal : o.assessment.state ∈ TERMINAL_STATES := hS.state ▸ by decide
  cases e with
  | main e =>
    obtain ⟨m, main, h⟩ := Option.bind_eq_some_iff.1 h
    exact hS.mainStep main h
  | execution j e =>
    obtain ⟨x, execution, h⟩ := Option.bind_eq_some_iff.1 h
    exact hS.executionStep execution hstarts h
  | task i e =>
    obtain ⟨t, task, h⟩ := Option.bind_eq_some_iff.1 h
    exact hS.taskStep task h
  | start reset =>
    rw [← Option.some.inj h, start, if_neg (by simp [hS.state])]
    exact ⟨hS, rfl⟩
  | cancel =>
    rw [← Option.some.inj h, cancel, if_pos hterminal]
    exact ⟨hS, rfl⟩
  | cancel_all =>
    rw [← Option.some.inj h, cancel_all, if_pos hterminal]
    exact ⟨hS, rfl⟩
  | approve step_id user_id note =>
    rw [← Option.some.inj h]
    rw [approve_step]
    split
    · dsimp only
      split
      · exact Silent.start_approved_steps hS.congr _
      next hstate => exact absurd hterminal hstate
    · exact ⟨hS, rfl⟩
  | deny step_id user_id note =>
    rw [← Option.some.inj h]
    rw [deny_step]
    split
    · exact Silent.resume_if_parked hS.congr
    · exact ⟨hS, rfl⟩
  | triage => exact Option.some.inj h ▸ ⟨hS, rfl⟩
  | ingest found =>
    rw [← Option.some.inj h]
    obtain ⟨endpoints, nextId, -, heq⟩ := addEndpoints_eq o found
    rw [heq]
    exact ⟨hS.congr, rfl⟩
  | register skills =>
    rw [← Option.some.inj h]
    exact ⟨hS.congr, rfl⟩
  | restart => exact Option.some.inj h ▸ hS.restart

/-! ### How silence begins -/

/-- Only the steps that cancel write `CANCELLED`. -/
theorem cancels_of_step {e : EngineEvent} (h : step registry record settings o e = some o')
    (hstate : o'.assessment.state = .CANCELLED) :
    o.assessment.state = .CANCELLED ∨ o.cancels e = true := by
  cases move_of_step h with
  | control control => exact Or.inl (control.uncancelled hstate)
  | planned => exact Or.inl ((freeze_state o).symm.trans hstate)
  | @judged m =>
    have hfreeze := freeze_state (judgeAll registry record settings o (underReview settings o m))
    refine Or.inl (hfreeze.symm.trans ?_)
    unfold _phase_policy at hstate
    dsimp only at hstate
    split_ifs at hstate <;> exact hstate
  | polled =>
    unfold _await_step_approvals at hstate
    dsimp only at hstate
    split at hstate <;> exact Or.inl hstate
  | takes => exact Or.inl hstate
  | dispatched => exact Or.inl ((freeze_state o).symm.trans hstate)
  | settled task state control => exact Or.inl (control.uncancelled hstate)
  | replanned => exact Or.inl hstate
  | began =>
    unfold execute_approved_steps at hstate
    dsimp only at hstate
    split_ifs at hstate <;> exact Or.inl hstate
  | executed => exact Or.inl ((freeze_state o).symm.trans hstate)
  | invoked task control => exact Or.inl (control.uncancelled hstate)
  | approved held control => exact Or.inl (control.uncancelled hstate)
  | denied held control => exact Or.inl (control.uncancelled hstate)
  | cancelled cancels control => exact Or.inr cancels
  | cleared control => exact Or.inl (control.uncancelled hstate)

/-- **Cancelling in a quiet state** begins the silence. -/
theorem Quiet.cancel (hq : o.Quiet) {e : EngineEvent} (hcancels : o.cancels e = true)
    (h : step registry record settings o e = some o') : o'.Silent := by
  unfold cancels at hcancels
  split at hcancels
  next =>
    obtain ⟨m, main, h⟩ := Option.bind_eq_some_iff.1 h
    simp only [Orchestrator.mainStep] at h
    split at h
    · rw [← Option.some.inj h]
      exact ⟨⟨hq.executions, hq.tasks⟩, rfl, fun m' hm' ↦ by cases hm'; rfl⟩
    · cases h
  next =>
    obtain ⟨hmain, hstate⟩ : o.main = none ∧ o.assessment.state ∉ TERMINAL_STATES := by
      simpa using hcancels
    rw [← Option.some.inj h, Orchestrator.cancel, if_neg hstate]
    dsimp only
    rw [if_neg (by simp [hmain])]
    exact ⟨⟨hq.executions, hq.tasks⟩, rfl, fun m hm ↦ by cases hmain.symm.trans hm⟩
  next => cases hcancels

/-- Along a run that keeps silence, a cancelled assessment is silent. -/
theorem silent_of_step {e : EngineEvent} (hI : o.assessment.state = .CANCELLED → o.Silent)
    (hC : KeepsSilence record settings o e) (h : step registry record settings o e = some o')
    (hstate : o'.assessment.state = .CANCELLED) : o'.Silent := by
  by_cases hwas : o.assessment.state = .CANCELLED
  · exact ((hI hwas).step (hC.2 hwas) h).1
  · have hcancels := (cancels_of_step h hstate).resolve_left hwas
    exact (hC.1 hcancels).cancel hcancels h

/-- **Cancelled means silent**, in every run in which `CANCELLED` is written when nobody is left who
can send and no execution starts after that: from a reachable state that is `CANCELLED` on, nothing is
sent. -/
theorem sent_of_cancelled {org_id : ℕ} {requested : List String} {incremental : Bool}
    {prev : Option (List Text)} {es es' : List EngineEvent} {o o' : Orchestrator}
    (hes : Machine.Along (step registry record settings) (KeepsSilence record settings)
      (created org_id requested incremental prev) es)
    (h : Machine.run (step registry record settings) (created org_id requested incremental prev) es =
      some o) (hstate : o.assessment.state = .CANCELLED)
    (hes' : Machine.Along (step registry record settings) (KeepsSilence record settings) o es')
    (h' : Machine.run (step registry record settings) o es' = some o') : o'.sent = o.sent := by
  have hS : o.Silent := Machine.inv_of_run_along
    (I := fun o ↦ o.assessment.state = .CANCELLED → o.Silent)
    (fun hI hC hs ↦ silent_of_step hI hC hs) hes h (fun h ↦ by cases h) hstate
  have hrun := Machine.inv_of_run_along (I := fun o₁ ↦ o₁.Silent ∧ o₁.sent = o.sent)
    (fun ⟨hS, hsent⟩ hC hs ↦ (hS.step (hC.2 hS.state) hs).imp id (·.trans hsent)) hes' h' ⟨hS, rfl⟩
  exact hrun.2

end Orchestrator

section

attribute [local instance] asciiTables

/-- The operator cancels while the result of agent 0 waits to be consumed, and `CANCELLED` is
written. -/
def cancelledRun (found : List Endpoint) : List EngineEvent :=
  throughPolicy found ++ throughDispatch ++ runAgent 0 ++
    [.cancel, .main (.deliver 0 false), .main (.enter 0), .main .cancelled]

/-- The run ends, and the operator tries what there is. -/
def operatorEvents : List EngineEvent :=
  [.main .leave, .approve 1 7 "late", .deny 1 7 "late", .start true, .cancel, .triage, .restart]

theorem sent_of_cancelled_operator :
    ∃ o, Machine.run (Orchestrator.step builtinRegistry (scanRecord ["security_headers"]) {})
        (.created 1 [] false none) (cancelledRun [sampleEndpoint]) = some o ∧ o.sent = 1 ∧
      ∃ o', Machine.run (Orchestrator.step builtinRegistry (scanRecord ["security_headers"]) {}) o
        operatorEvents = some o' ∧ o'.sent = o.sent := by
  obtain ⟨o, ho, hstate, hsent, hes', o', ho', -⟩ : ∃ o, Machine.run
      (Orchestrator.step builtinRegistry (scanRecord ["security_headers"]) {})
      (.created 1 [] false none) (cancelledRun [sampleEndpoint]) = some o ∧
      o.assessment.state = .CANCELLED ∧ o.sent = 1 ∧
      Machine.Along (Orchestrator.step builtinRegistry (scanRecord ["security_headers"]) {})
        (Orchestrator.KeepsSilence (scanRecord ["security_headers"]) {}) o operatorEvents ∧
      ∃ o', Machine.run (Orchestrator.step builtinRegistry (scanRecord ["security_headers"]) {}) o
        operatorEvents = some o' ∧ True := by
    decide +kernel
  exact ⟨o, ho, hsent, o', ho',
    Orchestrator.sent_of_cancelled (by decide +kernel) ho hstate hes' ho'⟩

/-- The step of a state-changing skill is held when the operator cancels. -/
def heldRun : List EngineEvent :=
  .register [{
    name := "cors.preflight"
    check_class := "cors"
    manifest := { detector := some "header_missing", state_changing := true } }] ::
  throughPolicy [sampleEndpoint] ++
    [.cancel, .main (.poll false), .main (.enter 0), .main .cancelled, .main .leave]

/-- A second endpoint. -/
def otherEndpoint : Endpoint where
  id := 0
  method := "GET".toList
  url := "https://app.example/invoices".toList
  path_template := "/invoices".toList
  fingerprint := "invoices".toList

/-- A second agent is in the middle of its check when the run is cancelled. -/
def orphanedRun : List EngineEvent :=
  throughPolicy [sampleEndpoint, otherEndpoint] ++ throughDispatch ++
    [.task 1 (.begin false), .task 1 (.act true)] ++ runAgent 0 ++
    [.cancel, .main (.deliver 0 false), .main (.enter 0), .main .cancelled]

/-- A held step is approved after the assessment was cancelled, and its execution sends; and an agent
that was left behind sends. -/
theorem cancelled_sends :
    (∃ o, Machine.run (Orchestrator.step builtinRegistry changingRecord {})
        (.created 1 ["cors"] false none) heldRun = some o ∧ o.assessment.state = .CANCELLED ∧
      ∃ o', Machine.run (Orchestrator.step builtinRegistry changingRecord {}) o
        [.approve 1 7 "ok", .execution 0 (.begin 0), .execution 0 .send] = some o' ∧
          o.sent < o'.sent) ∧
    ∃ o, Machine.run (Orchestrator.step builtinRegistry (scanRecord ["security_headers"]) {})
        (.created 1 [] false none) orphanedRun = some o ∧ o.assessment.state = .CANCELLED ∧
      ∃ o', Machine.run (Orchestrator.step builtinRegistry (scanRecord ["security_headers"]) {}) o
        [.task 1 .send] = some o' ∧ o.sent < o'.sent := by
  decide +kernel

end

end Sentrik
